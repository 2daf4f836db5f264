import GroupKey.Statistics.Recorder

/-!
# Aggregates

The statistics of several members of one run.  Counters are added up, start markers keep the
earliest and end markers the latest value.
-/

namespace GroupKey

structure Aggregate where
  memberCount : UInt16
  contributors : UInt64
  counts : Counts
  times : Times
  deriving DecidableEq

namespace Aggregate

def empty (memberCount : UInt16) : Aggregate := ⟨memberCount, 0, .empty, .empty⟩

def addCount : Option UInt64 → Option UInt64 → Option UInt64
  | some x, some y => some (x + y)
  | some x, none => some x
  | none, y => y

def widenTime (m : TimeMetric) : Option UInt64 → Option UInt64 → Option UInt64
  | some x, some y => some (if m.isStart then min x y else max x y)
  | some x, none => some x
  | none, y => y

/-- The cells of two tables merged, in a way that depends on the metric. -/
def merge {μ : Type} [DecidableEq μ] [Metric μ]
    (f : μ → Option UInt64 → Option UInt64 → Option UInt64) (x y : Table μ (Option UInt64)) :
    Table μ (Option UInt64) :=
  .ofCells fun m ↦ f m (x.get? m) (y.get? m)

def absorb (a : Aggregate) (s : Snapshot) : Aggregate :=
  { a with
    contributors := a.contributors + 1
    counts := merge (fun _ ↦ addCount) a.counts s.counts
    times := merge widenTime a.times s.times }

def absorbAll (a : Aggregate) (ss : List Snapshot) : Aggregate := ss.foldl absorb a

theorem get?_merge {μ : Type} [DecidableEq μ] [Metric μ]
    (f : μ → Option UInt64 → Option UInt64 → Option UInt64) (x y : Table μ (Option UInt64))
    (m : μ) : (merge f x y).get? m = f m (x.get? m) (y.get? m) :=
  Table.cell_ofCells _ m

/-- Every expected member has contributed. -/
def isComplete (a : Aggregate) : Bool := a.memberCount.toNat ≤ a.contributors.toNat

def header : List String :=
  CountMetric.all.map CountMetric.name ++ TimeMetric.all.map TimeMetric.name

/-- An absent count is zero, an absent time an empty cell. -/
def cells (a : Aggregate) : List String :=
  CountMetric.all.map (fun m ↦ toString ((a.counts.get? m).getD 0).toNat) ++
    TimeMetric.all.map fun m ↦ ((a.times.get? m).map fun t ↦ toString t.toNat).getD ""

/-- A header line and one line of values. -/
def toCsv (a : Aggregate) : String :=
  ",".intercalate header ++ "\n" ++ ",".intercalate a.cells ++ "\n"

end Aggregate

end GroupKey
