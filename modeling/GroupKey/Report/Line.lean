import GroupKey.Config
import GroupKey.Decimal.Layout
import GroupKey.Effect
import GroupKey.Statistics.Text

/-!
# Report lines

A node reports what happens as lines of JSON: one when it starts, one for every event of its
member, and one with the statistics of the run at the end.
-/

namespace GroupKey.Report

/-! ## Members of a line -/

/-- Seconds have all their places from a hundredth of a millisecond up to `10 ^ 16`. -/
def secondsLayout : Decimal.Layout := ⟨-5, 16⟩

/-- A time that is no number is left open. -/
def writeSeconds (seconds : Float) : String := (secondsLayout.writeFloat? seconds).getD "null"

def text (key value : String) : String × String := (key, JsonValue.quote value)

def number (key : String) (value : Nat) : String × String := (key, toString value)

def elapsed (seconds : Float) : String × String := ("elapsed_s", writeSeconds seconds)

/-! ## Lines -/

structure Start where
  endpoint : Endpoint
  variant : Variant
  sponsor : Bool
  service : ServiceId
  memberCount : UInt16
  timestamp : String
  deriving DecidableEq, Repr

def Start.line (s : Start) : String :=
  JsonValue.writeObject
    [text "event" "started", text "endpoint" s.endpoint.toText, text "variant" s.variant.name,
      ("is_sponsor", toString s.sponsor), number "service_id" s.service.toNat,
      number "member_count" s.memberCount.toNat, text "timestamp" s.timestamp]

def eventKind : Event → String
  | .assigned _ => "assigned"
  | .becameSponsor _ => "sponsor"
  | .admitted _ _ => "admitted"
  | .keyComputed _ _ => "key_computed"
  | .tokenReceived _ => "token"
  | .groupKeyEstablished _ _ => "established"
  | .finished _ => "finished"
  | .failed _ => "error"

/-- The member an event is about. -/
def eventMember? : Event → Option Nat
  | .assigned id | .becameSponsor id | .admitted id _ => some id
  | .groupKeyEstablished id _ | .finished id => id
  | _ => none

def eventDetail? : Event → Option String
  | .admitted _ endpoint => some endpoint.toText
  | .keyComputed keys root => some (toString keys ++ " " ++ root)
  | .tokenReceived source => some source.toText
  | .groupKeyEstablished _ fingerprint => some fingerprint
  | .failed description => some description
  | _ => none

/-- What an event does not have is left out. -/
def eventLine (e : Event) (seconds : Float) : String :=
  JsonValue.writeObject <|
    [text "event" "protocol", text "kind" (eventKind e)] ++
      ((eventMember? e).map (number "member_id")).toList ++
      ((eventDetail? e).map (text "detail")).toList ++ [elapsed seconds]

/-- The statistics of a run, which were stored under `path`. -/
def statisticsLine (path : String) (s : Snapshot) (seconds : Float) : String :=
  JsonValue.writeObject
    [text "event" "statistics", text "csv" path, ("statistics", s.toJson), elapsed seconds]

end GroupKey.Report
