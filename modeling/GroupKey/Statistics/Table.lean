import GroupKey.Statistics.Metric

/-!
# Tables over metrics

A table has one cell for each metric of a kind.  Tables of values, in which a cell may be empty, are
what snapshots and aggregates consist of.
-/

namespace GroupKey

/-- One cell for each metric. -/
structure Table (μ : Type) [DecidableEq μ] [Metric μ] (α : Type) where
  cells : Vector α (Metric.count μ)

namespace Table

variable {μ α : Type} [DecidableEq μ] [Metric μ]

instance [DecidableEq α] : DecidableEq (Table μ α) := fun t u ↦
  decidable_of_iff (t.cells = u.cells) ⟨fun same ↦ by cases t; cases u; simp_all, congrArg cells⟩

def cell (t : Table μ α) (m : μ) : α := t.cells[Metric.index m]

def ofCells (f : μ → α) : Table μ α := ⟨Vector.ofFn fun i ↦ f (Metric.atIndex i)⟩

def setCell (t : Table μ α) (m : μ) (a : α) : Table μ α := ⟨t.cells.set (Metric.index m) a⟩

/-- Tables are the same if all cells are. -/
theorem ext {t u : Table μ α} (same : ∀ m, t.cell m = u.cell m) : t = u := by
  obtain ⟨v⟩ := t
  obtain ⟨w⟩ := u
  congr
  apply Vector.ext
  intro i i_lt
  simpa [cell] using same (Metric.atIndex ⟨i, i_lt⟩)

theorem cell_ofCells (f : μ → α) (m : μ) : (ofCells f).cell m = f m := by
  simp [cell, ofCells]

/-- A cell that is set is changed, and no other. -/
theorem cell_setCell (t : Table μ α) (m : μ) (a : α) (k : μ) :
    (t.setCell m a).cell k = if m = k then a else t.cell k := by
  by_cases same : m = k
  · subst same
    simp [cell, setCell]
  · have apart : (Metric.index m).val ≠ (Metric.index k).val := fun equal ↦
      same (Metric.index_injective (Fin.ext equal))
    simp [cell, setCell, same, apart]

/-! ## Values -/

/-- A table without values. -/
def empty : Table μ (Option UInt64) := ofCells fun _ ↦ none

def get? (t : Table μ (Option UInt64)) (m : μ) : Option UInt64 := t.cell m

def put (t : Table μ (Option UInt64)) (m : μ) (value : UInt64) : Table μ (Option UInt64) :=
  t.setCell m (some value)

/-- The values that are present, in the order of the metrics. -/
def entries (t : Table μ (Option UInt64)) : List (μ × UInt64) :=
  Metric.all.filterMap fun m ↦ (t.get? m).map fun value ↦ (m, value)

theorem get?_empty (m : μ) : (empty : Table μ (Option UInt64)).get? m = none :=
  cell_ofCells _ m

theorem get?_put (t : Table μ (Option UInt64)) (m : μ) (value : UInt64) (k : μ) :
    (t.put m value).get? k = if m = k then some value else t.get? k :=
  t.cell_setCell m (some value) k

end Table

/-- One optional value for each counter. -/
abbrev Counts := Table CountMetric (Option UInt64)

/-- One optional value for each point in time. -/
abbrev Times := Table TimeMetric (Option UInt64)

end GroupKey
