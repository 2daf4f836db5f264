import GroupKey.CommandLine.Reader
import GroupKey.CommandLine.Usage
import GroupKey.Host
import GroupKey.Member
import GroupKey.Report.Archive
import GroupKey.Report.Line
import Std.Async.Signal
import Std.Async.Timer
import Std.Async.UDP
import Std.Time.Format
import Std.Time.Zoned

/-!
# The node

The program around one member: two sockets, a clock, report lines on the standard output, and a
file of statistics at the end.  What is sent and when is decided by the host; here it is carried
out.
-/

open Std.Async

namespace GroupKey.Main

def ipAddress (a : Address) : Std.Net.IPv4Addr := ⟨#v[a.a, a.b, a.c, a.d]⟩

def socketAddress (e : Endpoint) : Std.Net.SocketAddress := .v4 ⟨ipAddress e.address, e.port⟩

def endpoint? : Std.Net.SocketAddress → Option Endpoint
  | .v4 a => (Address.ofOctets? a.addr.octets.toList).map fun address ↦ ⟨address, a.port⟩
  | .v6 _ => none

def unspecified : Address := ⟨0, 0, 0, 0⟩

def loopback : Address := ⟨127, 0, 0, 1⟩

/-- The address this host has on the way to a group. -/
def addressTowards (group : Endpoint) : IO Address := do
  try
    let probe ← UDP.Socket.mk
    probe.connect (socketAddress group)
    match endpoint? (← probe.getSockName) with
    | some here => return if here.address = unspecified then loopback else here.address
    | none => return loopback
  catch _ => return loopback

/-- One socket hears the group, the other sends and hears what is for this node alone. -/
structure Sockets where
  config : ChannelConfig
  group : UDP.Socket
  own : UDP.Socket
  here : Endpoint

def Sockets.bind (config : ChannelConfig) : IO Sockets := do
  if let .error e := config.validate then throw (IO.userError e.message)
  let group ← UDP.Socket.mk
  group.bind (socketAddress ⟨config.listenInterface, config.multicastPort⟩)
  group.setMembership (.v4 (ipAddress config.multicastAddress))
    (some (.v4 (ipAddress config.listenInterface))) .enterGroup
  let own ← UDP.Socket.mk
  own.bind (socketAddress ⟨config.listenInterface, 0⟩)
  own.setMulticastTTL config.timeToLive
  own.setMulticastLoop config.loopback
  let some bound := endpoint? (← own.getSockName) | throw (IO.userError "no usable address")
  let address ← if config.listenInterface = unspecified then addressTowards config.group
    else pure config.listenInterface
  return { config, group, own, here := ⟨address, bound.port⟩ }

/-- Sends a datagram, or gives the event of the failure. -/
def Sockets.transmit (s : Sockets) (x : Sent) : IO (Option Event) := do
  try
    let size := x.bytes.length
    let limit := s.config.maxDatagram
    if limit < size then
      throw (IO.userError (ChannelError.datagramTooLarge size limit).message)
    (s.own.send ⟨x.bytes.toArray⟩ (some (socketAddress (x.target.getD s.config.group)))).block
    return none
  catch e => return some (Host.sendFailure x.target x.kind (toString e))

/-! ## The loop -/

/-- What a wait ends with, which takes a second at most. -/
inductive Wake
  | datagram (bytes : Bytes) (source : Endpoint)
  | clock

def wake (received : ByteArray × Option Std.Net.SocketAddress) : Async Wake :=
  return match received.2.bind endpoint? with
    | some source => .datagram received.1.toList source
    | none => .clock

structure Session where
  sockets : Sockets
  /-- Finished once the node is interrupted. -/
  interrupt : AsyncTask Int
  protocol : Protocol Member
  /-- The reading of the monotonic clock at the start. -/
  started : Nat

namespace Session

def elapsedMillis (s : Session) : IO Nat := return ((← IO.monoNanosNow) - s.started) / nanosPerMilli

def elapsedSeconds (s : Session) : IO Float :=
  return Float.ofNat ((← IO.monoNanosNow) - s.started) / 1000000000

/-- Meets the deadlines that have come in the meantime. -/
def catchUp (s : Session) (h : Host Member) : IO (Host Member) :=
  return h.advance s.protocol ((← s.elapsedMillis) - h.now / nanosPerMilli)

def printLine (line : String) : IO Unit := do
  let out ← IO.getStdout
  out.putStrLn line
  out.flush

/-- Sends what is to be sent and reports what has happened. -/
def flush (s : Session) (h : Host Member) : IO (Host Member) := do
  let (sent, h) := h.takeSent
  let failures ← sent.filterMapM s.sockets.transmit
  let (events, h) := (failures.foldl Host.publish h).takeEvents
  for event in events do
    printLine (Report.eventLine event (← s.elapsedSeconds))
  return h

def wait (s : Session) (h : Host Member) : IO Wake := do
  let pause := match h.scheduler.next? with
    | some due => min 1000 ((Host.wholeMilli due - h.now) / nanosPerMilli)
    | none => 1000
  let size := UInt64.ofNat s.sockets.config.maxDatagram
  Async.block do
    Selectable.one #[
      .case (s.sockets.group.recvSelector size) wake,
      .case (s.sockets.own.recvSelector size) wake,
      .case (← Selector.sleep (Std.Time.Millisecond.Offset.ofNat pause)) fun _ ↦ pure .clock]

/-- Runs until the member is finished, or until it is interrupted. -/
partial def run (s : Session) (h : Host Member) : IO (Host Member × Bool) := do
  let h ← s.flush h
  if !h.running then return (h, false)
  if ← IO.hasFinished s.interrupt then return (h.shutdown, true)
  let woken ← s.wait h
  let h ← s.catchUp h
  match woken with
  | .datagram bytes source => s.run (h.receive s.protocol bytes source)
  | .clock => s.run h

end Session

/-- Writes the statistics of a run under the least number that is free in the folder of its group
size. -/
def storeStatistics (directory : String) (run : Aggregate) : IO String := do
  let folder := directory ++ "/" ++ Archive.folderName run
  IO.FS.createDirAll folder
  let entries ← (← IO.FS.realPath folder).readDir
  let taken ← entries.toList.filterM fun entry ↦ entry.path.pathExists
  let path := folder ++ "/" ++ Archive.fileName (Archive.leastUnused (taken.map (·.fileName)))
  IO.FS.writeFile path run.toCsv
  return path

/-! ## The program -/

def unixNanos : IO Nat := return (← Std.Time.Timestamp.now).toNanosecondsSinceUnixEpoch.val.toNat

def timestamp : IO String :=
  return (← Std.Time.DateTime.now).format "uuuu-MM-dd'T'HH:mm:ss.SSSxxx"

def node (settings : CommandLine.Settings) : IO UInt32 := do
  let started ← IO.monoNanosNow
  let interrupt ← (← Signal.Waiter.mk .sigint false).wait
  let sockets ← Sockets.bind settings.channelConfig
  let here := sockets.here
  Session.printLine (Report.Start.line
    { endpoint := here, variant := settings.variant, sponsor := settings.sponsor
      service := settings.service, memberCount := settings.memberCount
      timestamp := ← timestamp })
  let (keys, random) := KeyPair.draw ⟨(← IO.getRandomBytes 32).toList, 0⟩
  match Member.create settings.memberConfig here keys random with
  | .error e => throw (IO.userError (Fault.ofConfig e).message)
  | .ok created =>
    let session : Session := { sockets, interrupt, protocol := Member.protocol x25519, started }
    let fresh := Host.ofTurn created ((← unixNanos) - ((← IO.monoNanosNow) - started))
    let (host, interrupted) ← session.run (← session.catchUp (fresh.start session.protocol))
    let snapshot := host.recorder.snapshot
    let run := (Aggregate.empty settings.memberCount).absorb snapshot
    let path ← storeStatistics settings.outputDirectory run
    Session.printLine (Report.statisticsLine path snapshot (← session.elapsedSeconds))
    if interrupted then throw (IO.userError "interrupted")
    return 0

/-- Runs the node its command line describes. -/
def program (words : List String) : IO UInt32 := do
  match CommandLine.parse words with
  | .error refusal =>
    if refusal.exitCode = 0 then IO.println refusal.message else IO.eprintln refusal.message
    return refusal.exitCode.toUInt32
  | .ok settings =>
    try node settings
    catch e =>
      IO.eprintln ("Error: " ++ toString e)
      return 1

end GroupKey.Main

def main (words : List String) : IO UInt32 := GroupKey.Main.program words
