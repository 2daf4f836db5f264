import GroupKey.Agenda
import GroupKey.Bytes
import GroupKey.Chain.Admission
import GroupKey.Chain.Basic
import GroupKey.Chain.Cascade
import GroupKey.Chain.Joining
import GroupKey.Chain.Member
import GroupKey.Chain.TokenRound
import GroupKey.Channel
import GroupKey.CommandLine.Reader
import GroupKey.CommandLine.Settings
import GroupKey.CommandLine.Usage
import GroupKey.Config
import GroupKey.Crypto.ChaCha
import GroupKey.Crypto.Curve25519
import GroupKey.Crypto.Poly1305
import GroupKey.Crypto.SealedBox
import GroupKey.Crypto.Sha256
import GroupKey.Decimal.Layout
import GroupKey.Decimal.Shortest
import GroupKey.Digits
import GroupKey.Directory
import GroupKey.DirectoryMaps
import GroupKey.Effect
import GroupKey.Endpoint
import GroupKey.Fault
import GroupKey.Host
import GroupKey.JsonValue
import GroupKey.KeyExchange
import GroupKey.KeyTree
import GroupKey.Main
import GroupKey.Member
import GroupKey.Message.Basic
import GroupKey.Message.Codec
import GroupKey.Message.Validity
import GroupKey.MessagePack.Value
import GroupKey.MessagePack.Writer
import GroupKey.Network
import GroupKey.Proofs.Accounts
import GroupKey.Proofs.AdmissionOrder
import GroupKey.Proofs.AfterTheEnd
import GroupKey.Proofs.Aggregation
import GroupKey.Proofs.Agreement
import GroupKey.Proofs.CascadeOrder
import GroupKey.Proofs.Counters
import GroupKey.Proofs.DatagramSize
import GroupKey.Proofs.Deadlines
import GroupKey.Proofs.Delays
import GroupKey.Proofs.Diligence
import GroupKey.Proofs.Duplicates
import GroupKey.Proofs.Duties
import GroupKey.Proofs.Exposure
import GroupKey.Proofs.FirstCome
import GroupKey.Proofs.Framing
import GroupKey.Proofs.GroupOfOne
import GroupKey.Proofs.HonestValues
import GroupKey.Proofs.Isolation
import GroupKey.Proofs.JsonText
import GroupKey.Proofs.KeyBounds
import GroupKey.Proofs.Ledger
import GroupKey.Proofs.Liveness
import GroupKey.Proofs.Moves
import GroupKey.Proofs.NetworkRuns
import GroupKey.Proofs.NumberedFiles
import GroupKey.Proofs.Operations
import GroupKey.Proofs.Progress
import GroupKey.Proofs.Reactions
import GroupKey.Proofs.Register
import GroupKey.Proofs.Retransmission
import GroupKey.Proofs.RoundTrip
import GroupKey.Proofs.SchedulerHistory
import GroupKey.Proofs.Simulation
import GroupKey.Proofs.StarAgreement
import GroupKey.Proofs.StarOffice
import GroupKey.Proofs.StarSteps
import GroupKey.Proofs.StatisticsText
import GroupKey.Proofs.Tables
import GroupKey.Proofs.TokenSafety
import GroupKey.Proofs.TreeGrowth
import GroupKey.Proofs.UpToDate
import GroupKey.Proofs.WireFormat
import GroupKey.Proofs.Wording
import GroupKey.Proofs.World
import GroupKey.Protocol
import GroupKey.Random
import GroupKey.Report.Archive
import GroupKey.Report.Line
import GroupKey.Scheduler
import GroupKey.Star.Basic
import GroupKey.Star.Member
import GroupKey.Statistics.Aggregate
import GroupKey.Statistics.Metric
import GroupKey.Statistics.Recorder
import GroupKey.Statistics.Table
import GroupKey.Statistics.Text
