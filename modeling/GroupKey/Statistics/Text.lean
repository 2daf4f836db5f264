import GroupKey.JsonValue
import GroupKey.Statistics.Aggregate

/-!
# Statistics as text

Snapshots and aggregates are written as JSON objects whose tables hold the present values in the
order of the metrics.  They are read back from objects or from arrays of their fields.
-/

namespace GroupKey

section Tables

variable {μ : Type} [DecidableEq μ] [Metric μ]

def Table.toJson (t : Table μ (Option UInt64)) : String :=
  JsonValue.writeObject (t.entries.map fun (m, value) ↦ (Metric.name m, toString value.toNat))

def word64? (j : JsonValue) : Option UInt64 := (j.nat? UInt64.size).map UInt64.ofNat

/-- The last of several values for one metric counts. -/
def Table.ofJson? (j : JsonValue) : Option (Table μ (Option UInt64)) := do
  (← j.members?).foldlM
    (fun table (key, value) ↦ do
      return table.put (← Metric.ofName? (String.ofList key)) (← word64? value))
    Table.empty

def Table.describe (t : Table μ (Option UInt64)) : String :=
  let write (m : μ) (value : UInt64) := Metric.label m ++ ": " ++ toString value.toNat
  "\x7b" ++ ", ".intercalate (t.entries.map fun (m, value) ↦ write m value) ++ "\x7d"

end Tables

def Snapshot.toJson (s : Snapshot) : String :=
  JsonValue.writeObject [("counts", s.counts.toJson), ("times", s.times.toJson)]

def Aggregate.toJson (a : Aggregate) : String :=
  JsonValue.writeObject
    [("member_count", toString a.memberCount.toNat),
      ("contributors", toString a.contributors.toNat),
      ("counts", a.counts.toJson), ("times", a.times.toJson)]

def Snapshot.ofJson? (j : JsonValue) : Option Snapshot := do
  match ← j.record? ["counts", "times"] with
  | [counts, times] => return ⟨← Table.ofJson? counts, ← Table.ofJson? times⟩
  | _ => none

def Aggregate.ofJson? (j : JsonValue) : Option Aggregate := do
  match ← j.record? ["member_count", "contributors", "counts", "times"] with
  | [memberCount, contributors, counts, times] =>
    let memberCount := UInt16.ofNat (← memberCount.nat? UInt16.size)
    return ⟨memberCount, ← word64? contributors, ← Table.ofJson? counts, ← Table.ofJson? times⟩
  | _ => none

def Snapshot.parse? (text : String) : Option Snapshot := do
  ofJson? (← JsonValue.parse? text.toList)

def Aggregate.parse? (text : String) : Option Aggregate := do
  ofJson? (← JsonValue.parse? text.toList)

def Snapshot.describe (s : Snapshot) : String :=
  "Snapshot \x7b counts: " ++ s.counts.describe ++ ", times: " ++ s.times.describe ++ " \x7d"

def Recorder.describe (r : Recorder) : String :=
  "StatisticsRecorder \x7b snapshot: " ++ r.snapshot.describe ++ " \x7d"

end GroupKey
