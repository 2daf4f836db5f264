import GroupKey.Statistics.Table

/-!
# Recording

A recorder turns measurements into counters, which wrap at sixty-four bits, and into points in
time, of which only the first is kept.  A snapshot holds values for some of the metrics; one taken
from a recorder holds every counter.
-/

namespace GroupKey

structure Snapshot where
  counts : Counts
  times : Times
  deriving DecidableEq

namespace Snapshot

def count (s : Snapshot) (m : CountMetric) : UInt64 := (s.counts.get? m).getD 0

def time? (s : Snapshot) (m : TimeMetric) : Option UInt64 := s.times.get? m

end Snapshot

/-- A count that wraps. -/
structure Counter where
  value : UInt64 := 0
  deriving DecidableEq

namespace Counter

def increment (c : Counter) : Counter := ⟨c.value + 1⟩

def incrementBy (c : Counter) (n : UInt64) : Counter := ⟨c.value + n⟩

def describe (c : Counter) : String := "Counter(" ++ toString c.value.toNat ++ ")"

end Counter

structure Recorder where
  counters : Table CountMetric Counter
  times : Times
  deriving DecidableEq

namespace Recorder

def empty : Recorder := ⟨.ofCells fun _ ↦ {}, .empty⟩

def count (r : Recorder) (m : CountMetric) : UInt64 := (r.counters.cell m).value

def time? (r : Recorder) (m : TimeMetric) : Option UInt64 := r.times.get? m

def increment (r : Recorder) (m : CountMetric) : Recorder :=
  { r with counters := r.counters.setCell m (r.counters.cell m).increment }

def add (r : Recorder) (m : CountMetric) (n : UInt64) : Recorder :=
  { r with counters := r.counters.setCell m ((r.counters.cell m).incrementBy n) }

/-- Keeps the time, unless there is one for this metric. -/
def stamp (r : Recorder) (m : TimeMetric) (time : UInt64) : Recorder :=
  match r.time? m with
  | some _ => r
  | none => { r with times := r.times.put m time }

def record (r : Recorder) (now : UInt64) : Measurement → Recorder
  | .count m => r.increment m
  | .mark m => r.stamp m now

def recordAll (r : Recorder) (now : UInt64) (ms : List Measurement) : Recorder :=
  ms.foldl (fun r m ↦ r.record now m) r

def snapshot (r : Recorder) : Snapshot := ⟨.ofCells fun m ↦ some (r.count m), r.times⟩

theorem count_empty (m : CountMetric) : empty.count m = 0 := by
  simp [count, empty, Table.cell_ofCells]

theorem count_increment (r : Recorder) (m k : CountMetric) :
    (r.increment m).count k = r.count k + if m = k then 1 else 0 := by
  unfold count increment
  rw [Table.cell_setCell]
  split
  · next same =>
    subst same
    rfl
  · exact (UInt64.add_zero _).symm

/-- Times are kept apart from counts. -/
theorem count_stamp (r : Recorder) (m : TimeMetric) (time : UInt64) (k : CountMetric) :
    (r.stamp m time).count k = r.count k := by
  unfold stamp
  split
  · rfl
  · rfl

/-- A measurement counts for the counter that it names. -/
theorem count_record (r : Recorder) (now : UInt64) (made : Measurement) (k : CountMetric) :
    (r.record now made).count k = r.count k + if made = .count k then 1 else 0 := by
  cases made with
  | count m => simpa [record] using r.count_increment m k
  | mark m => simpa [record] using r.count_stamp m now k

end Recorder

/-- Where measurements go.  Counting several at once is counting them one by one, unless a sink
knows better. -/
structure Sink (σ : Type) where
  count : CountMetric → σ → σ
  mark : TimeMetric → σ → σ
  countBy : CountMetric → Nat → σ → σ := fun m n s ↦ Nat.repeat (count m) n s

namespace Sink

def silent (σ : Type) : Sink σ := { count := fun _ s ↦ s, mark := fun _ s ↦ s }

/-- Forwards to a recorder at a fixed time, one measurement at a time. -/
def recording (now : UInt64) : Sink Recorder :=
  { count := fun m r ↦ r.increment m, mark := fun m r ↦ r.stamp m now }

end Sink

end GroupKey
