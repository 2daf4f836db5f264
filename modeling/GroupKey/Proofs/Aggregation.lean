import GroupKey.Statistics.Aggregate
import GroupKey.Proofs.Tables
import Mathlib.Data.List.Perm.Basic

/-!
# Aggregates do not depend on an order

An aggregate adds up what the members of a run counted and widens the time that they recorded.  Both
are done cell by cell with an operation that commutes and associates, so it does not matter in which
order members hand in what they have.  A table that is written from an aggregate shows every cell
under the name of its metric.
-/

namespace GroupKey

/-- The values taken together by an operation, if there are any. -/
def fuse {α : Type} (f : α → α → α) : List α → Option α
  | [] => none
  | x :: xs => some (xs.foldl f x)

section Fuse

variable {α β : Type} {f : α → α → α} {g : β → Option α}

theorem foldl_merge_some (bs : List β) (x : α) :
    bs.foldl (fun cell b ↦ Option.merge f cell (g b)) (some x) =
      some ((bs.filterMap g).foldl f x) := by
  induction bs generalizing x with
  | nil => rfl
  | cons b bs ih =>
    cases here : g b with
    | none => simpa [here] using ih x
    | some y => simpa [here] using ih (f x y)

/-- To merge cells one after the other is to fuse the values that are there. -/
theorem foldl_merge (bs : List β) :
    bs.foldl (fun cell b ↦ Option.merge f cell (g b)) none = fuse f (bs.filterMap g) := by
  induction bs with
  | nil => rfl
  | cons b bs ih =>
    cases here : g b with
    | none => simpa [here] using ih
    | some y => simpa [here, fuse] using foldl_merge_some bs y

/-- Cells may be empty, so the order of two of them does not matter only if it does not matter to
the values either. -/
theorem merge_right_comm (swap : ∀ x y z, f (f x y) z = f (f x z) y)
    (comm : ∀ x y, f x y = f y x) (x y z : Option α) :
    (x.merge f y).merge f z = (x.merge f z).merge f y := by
  cases x with
  | none =>
    cases y <;> cases z <;> simp [comm]
  | some x => cases y <;> cases z <;> simp [swap]

/-- What respects one step of taking together respects all of them. -/
theorem map_fuse {γ : Type} {h : α → γ} {f' : γ → γ → γ}
    (hom : ∀ x y, h (f x y) = f' (h x) (h y)) (l : List α) :
    (fuse f l).map h = fuse f' (l.map h) := by
  cases l with
  | nil => rfl
  | cons x l =>
    have folded : (l.map h).foldl f' (h x) = h (l.foldl f x) := by
      rw [List.foldl_map]
      exact List.foldl_hom h fun x y ↦ (hom x y).symm
    simp [fuse, folded]

end Fuse

/-- In two rows that are made from one list, the cell under a key is the one made with it. -/
theorem lookup_zip_map {α κ β : Type} [DecidableEq κ] {key : α → κ} {f : α → β} {l : List α}
    (distinct : (l.map key).Nodup) {a : α} (here : a ∈ l) :
    ((l.map key).zip (l.map f)).lookup (key a) = some (f a) := by
  induction l with
  | nil => cases here
  | cons b l ih =>
    obtain ⟨fresh, distinct⟩ := List.nodup_cons.mp distinct
    rw [List.map_cons, List.map_cons, List.zip_cons_cons]
    obtain rfl | here := List.mem_cons.mp here
    · exact List.lookup_cons_self
    · have apart : key a ≠ key b := fun same ↦ fresh (same ▸ List.mem_map_of_mem here)
      rw [List.lookup_cons, beq_eq_false_iff_ne.mpr apart]
      exact ih distinct here

theorem add_swap (x y z : UInt64) : x + y + z = x + z + y := by
  rw [UInt64.add_assoc, UInt64.add_comm y z, ← UInt64.add_assoc]

/-- Words add up to the sum of their numbers as long as that fits. -/
theorem toNat_foldl_add (l : List UInt64) (x : UInt64)
    (fits : x.toNat + (l.map UInt64.toNat).sum < UInt64.size) :
    (l.foldl (· + ·) x).toNat = x.toNat + (l.map UInt64.toNat).sum := by
  induction l generalizing x with
  | nil => simp
  | cons y l ih =>
    rw [List.map_cons, List.sum_cons, ← Nat.add_assoc] at fits
    -- No sum on the way is more than the last one.
    have added : (x + y).toNat = x.toNat + y.toNat := by
      rw [UInt64.toNat_add]
      exact Nat.mod_eq_of_lt (Nat.lt_of_le_of_lt (Nat.le_add_right _ _) fits)
    rw [List.foldl_cons, List.map_cons, List.sum_cons, ← Nat.add_assoc, ih, added]
    rwa [added]

/-- Without any cell there is no sum, not even zero. -/
theorem map_toNat_fuse_add {l : List UInt64} (fits : (l.map UInt64.toNat).sum < UInt64.size) :
    (fuse (· + ·) l).map UInt64.toNat =
      if l = [] then none else some (l.map UInt64.toNat).sum := by
  cases l with
  | nil => rfl
  | cons x l => simpa [fuse] using toNat_foldl_add l x fits

theorem fuse_eq_min? (l : List Nat) : fuse min l = l.min? := by
  cases l <;> rfl

theorem fuse_eq_max? (l : List Nat) : fuse max l = l.max? := by
  cases l <;> rfl

namespace Aggregate

/-- Counts are taken together by adding them. -/
theorem addCount_eq : addCount = Option.merge (· + ·) := by
  funext x y
  cases x <;> cases y <;> rfl

/-- Which of two points in time an aggregate keeps. -/
def keepTime (m : TimeMetric) (x y : UInt64) : UInt64 := if m.isStart then min x y else max x y

/-- Times are taken together by keeping the earlier start or the later end. -/
theorem widenTime_eq : widenTime = fun m ↦ Option.merge (keepTime m) := by
  funext m x y
  cases x <;> cases y <;> rfl

theorem toNat_keepTime (m : TimeMetric) (x y : UInt64) :
    (keepTime m x y).toNat = if m.isStart then min x.toNat y.toNat else max x.toNat y.toNat := by
  unfold keepTime
  split
  · exact UInt64.toNat_min x y
  · exact UInt64.toNat_max x y

theorem keepTime_comm (m : TimeMetric) (x y : UInt64) : keepTime m x y = keepTime m y x := by
  apply UInt64.toNat_inj.mp
  rw [toNat_keepTime, toNat_keepTime]
  split <;> omega

/-- Which of three times is kept does not depend on who came first. -/
theorem keepTime_swap (m : TimeMetric) (x y z : UInt64) :
    keepTime m (keepTime m x y) z = keepTime m (keepTime m x z) y := by
  apply UInt64.toNat_inj.mp
  simp only [toNat_keepTime]
  split <;> omega

/-! ## Any order -/

section Tables

variable {μ : Type} [DecidableEq μ] [Metric μ] {f : μ → UInt64 → UInt64 → UInt64}

theorem merge_swap (swap : ∀ m x y z, f m (f m x y) z = f m (f m x z) y)
    (comm : ∀ m x y, f m x y = f m y x) (x y z : Table μ (Option UInt64)) :
    merge (fun m ↦ Option.merge (f m)) (merge (fun m ↦ Option.merge (f m)) x y) z =
      merge (fun m ↦ Option.merge (f m)) (merge (fun m ↦ Option.merge (f m)) x z) y := by
  apply Table.ext
  intro m
  change (merge _ _ z).get? m = (merge _ _ y).get? m
  simp only [get?_merge]
  exact merge_right_comm (swap m) (comm m) _ _ _

/-- A cell of tables that are merged one after the other fuses the values they have there. -/
theorem get?_foldl_merge (tables : List (Table μ (Option UInt64))) (m : μ) :
    (tables.foldl (merge fun m ↦ Option.merge (f m)) .empty).get? m =
      fuse (f m) (tables.filterMap fun t ↦ t.get? m) := by
  calc
    _ = tables.foldl (fun cell t ↦ Option.merge (f m) cell (t.get? m)) (Table.empty.get? m) :=
      (List.foldl_hom (fun t : Table μ (Option UInt64) ↦ t.get? m) fun t u ↦
        (get?_merge (fun m ↦ Option.merge (f m)) t u m).symm).symm
    _ = _ := by
      rw [Table.get?_empty]
      exact foldl_merge tables

end Tables

/-- Two snapshots may be absorbed in either order. -/
theorem absorb_right_comm (a : Aggregate) (s s' : Snapshot) :
    (a.absorb s).absorb s' = (a.absorb s').absorb s := by
  have counts := merge_swap (fun _ : CountMetric ↦ add_swap) (fun _ ↦ UInt64.add_comm)
    a.counts s.counts s'.counts
  have times := merge_swap keepTime_swap keepTime_comm a.times s.times s'.times
  simp only [absorb, addCount_eq, widenTime_eq]
  exact congr (congrArg (Aggregate.mk _ _) counts) times

/-- Snapshots may be absorbed in any order. -/
theorem absorbAll_perm (a : Aggregate) {ss ss' : List Snapshot} (perm : ss'.Perm ss) :
    a.absorbAll ss' = a.absorbAll ss := by
  have : RightCommutative absorb := ⟨absorb_right_comm⟩
  exact perm.foldl_eq a

end Aggregate

/-- The values that snapshots have for a counter. -/
def countsIn (ss : List Snapshot) (m : CountMetric) : List UInt64 :=
  ss.filterMap fun s ↦ s.counts.get? m

/-- The values that snapshots have for a point in time. -/
def timesIn (ss : List Snapshot) (m : TimeMetric) : List UInt64 :=
  ss.filterMap fun s ↦ s.times.get? m

namespace Aggregate

theorem counts_absorbAll (a : Aggregate) (ss : List Snapshot) :
    (a.absorbAll ss).counts =
      (ss.map Snapshot.counts).foldl (merge fun _ ↦ Option.merge (· + ·)) a.counts := by
  rw [List.foldl_map, ← addCount_eq]
  exact (List.foldl_hom Aggregate.counts fun _ _ ↦ rfl).symm

theorem times_absorbAll (a : Aggregate) (ss : List Snapshot) :
    (a.absorbAll ss).times =
      (ss.map Snapshot.times).foldl (merge fun m ↦ Option.merge (keepTime m)) a.times := by
  rw [List.foldl_map, ← widenTime_eq]
  exact (List.foldl_hom Aggregate.times fun _ _ ↦ rfl).symm

/-- Each count is taken together from the snapshots that have it. -/
theorem get?_counts_absorbAll (n : UInt16) (ss : List Snapshot) (m : CountMetric) :
    ((empty n).absorbAll ss).counts.get? m = fuse (· + ·) (countsIn ss m) := by
  rw [counts_absorbAll, empty, get?_foldl_merge, List.filterMap_map]
  rfl

/-- Each time is taken together from the snapshots that have it. -/
theorem get?_times_absorbAll (n : UInt16) (ss : List Snapshot) (m : TimeMetric) :
    ((empty n).absorbAll ss).times.get? m = fuse (keepTime m) (timesIn ss m) := by
  rw [times_absorbAll, empty, get?_foldl_merge, List.filterMap_map]
  rfl

theorem memberCount_absorbAll (a : Aggregate) (ss : List Snapshot) :
    (a.absorbAll ss).memberCount = a.memberCount := by
  induction ss generalizing a with
  | nil => rfl
  | cons s ss ih => exact ih (a.absorb s)

/-- Every snapshot counts as one contributor. -/
theorem contributors_absorbAll (a : Aggregate) (ss : List Snapshot) :
    (a.absorbAll ss).contributors = a.contributors + UInt64.ofNat ss.length := by
  induction ss generalizing a with
  | nil => exact (UInt64.add_zero _).symm
  | cons s ss ih =>
    calc
      _ = a.contributors + 1 + UInt64.ofNat ss.length := ih (a.absorb s)
      _ = _ := by
        rw [List.length_cons, UInt64.ofNat_add, UInt64.add_assoc, UInt64.add_comm 1]
        rfl

/-! ## Tables -/

/-- The cells of a text in which each line ends with a line feed and commas stand between cells. -/
def tableOf (text : String) : List (List String) :=
  (text.toList.splitOn '\n').dropLast.map fun line ↦ (line.splitOn ',').map String.ofList

/-- Neither a comma nor a line feed is part of a cell. -/
def Plain (cell : String) : Prop := ',' ∉ cell.toList ∧ '\n' ∉ cell.toList

theorem plain_toString (n : Nat) : Plain (toString n) := by
  have digits {c : Char} (here : c ∈ (toString n).toList) : c.isDigit = true := by
    rw [Nat.toString_eq_ofList_toDigits, String.toList_ofList] at here
    exact Nat.isDigit_of_mem_toDigits (by decide) (by decide) here
  exact ⟨fun comma ↦ absurd (digits comma) (by decide), fun feed ↦ absurd (digits feed) (by decide)⟩

section Lines

variable {cells : List String} (plain : ∀ cell ∈ cells, Plain cell)

include plain

theorem not_mem_line : '\n' ∉ [','].intercalate (cells.map String.toList) := by
  induction cells with
  | nil => simp
  | cons first cells ih =>
    obtain ⟨first_plain, rest_plain⟩ := List.forall_mem_cons.mp plain
    cases cells with
    | nil => simpa using first_plain.2
    | cons second cells =>
      rw [List.map_cons, List.map_cons, List.intercalate_cons_cons]
      simp only [List.mem_append, not_or]
      exact ⟨⟨first_plain.2, by decide⟩, ih rest_plain⟩

/-- A line of cells without commas is split into the cells it was made of. -/
theorem splitOn_line (nonempty : cells ≠ []) :
    (([','].intercalate (cells.map String.toList)).splitOn ',').map String.ofList = cells := by
  have commas : ∀ cell ∈ cells.map String.toList, ',' ∉ cell :=
    List.forall_mem_map.mpr fun cell here ↦ (plain cell here).1
  rw [List.splitOn_intercalate ',' commas (by simpa using nonempty)]
  simp

end Lines

/-- Two lines of cells without commas are read as two rows. -/
theorem tableOf_lines {first second : List String} (first_plain : ∀ cell ∈ first, Plain cell)
    (second_plain : ∀ cell ∈ second, Plain cell) (first_ne : first ≠ []) (second_ne : second ≠ []) :
    tableOf (",".intercalate first ++ "\n" ++ ",".intercalate second ++ "\n") =
      [first, second] := by
  let line (cells : List String) : List Char := [','].intercalate (cells.map String.toList)
  have text : (",".intercalate first ++ "\n" ++ ",".intercalate second ++ "\n").toList =
      ['\n'].intercalate [line first, line second, []] := by
    simp [line, List.intercalate]
  have ends : ∀ l ∈ [line first, line second, []], '\n' ∉ l := by
    simp [line, not_mem_line first_plain, not_mem_line second_plain]
  have lines := List.splitOn_intercalate '\n' ends (List.cons_ne_nil _ _)
  unfold tableOf
  rw [text, lines]
  simp [line, splitOn_line first_plain first_ne, splitOn_line second_plain second_ne]

/-- What stands in a column, in the order of the columns. -/
def columns : List (CountMetric ⊕ TimeMetric) :=
  CountMetric.all.map .inl ++ TimeMetric.all.map .inr

def columnName : CountMetric ⊕ TimeMetric → String := Sum.elim CountMetric.name TimeMetric.name

def cellIn (a : Aggregate) : CountMetric ⊕ TimeMetric → String :=
  Sum.elim (fun m ↦ toString ((a.counts.get? m).getD 0).toNat) fun m ↦
    ((a.times.get? m).map fun t ↦ toString t.toNat).getD ""

theorem mem_columns (column : CountMetric ⊕ TimeMetric) : column ∈ columns := by
  cases column with
  | inl m => exact List.mem_append_left _ (List.mem_map_of_mem (Metric.mem_all m))
  | inr m => exact List.mem_append_right _ (List.mem_map_of_mem (Metric.mem_all m))

theorem header_eq : header = columns.map columnName := rfl

theorem cells_eq (a : Aggregate) : a.cells = columns.map a.cellIn := by
  simp [cells, columns, cellIn]

/-- No two columns have the same name. -/
theorem nodup_header : header.Nodup := by decide

theorem plain_columnName (column : CountMetric ⊕ TimeMetric) : Plain (columnName column) := by
  rcases column with m | m <;> cases m <;> exact ⟨by decide, by decide⟩

theorem plain_cellIn (a : Aggregate) (column : CountMetric ⊕ TimeMetric) :
    Plain (a.cellIn column) := by
  cases column with
  | inl m => exact plain_toString _
  | inr m =>
    cases here : a.times.get? m with
    | none =>
      simp only [cellIn, Sum.elim_inr, here]
      exact ⟨by decide, by decide⟩
    | some t =>
      simp only [cellIn, Sum.elim_inr, here]
      exact plain_toString _

/-- The file holds the names of the columns and below them the cells. -/
theorem tableOf_toCsv (a : Aggregate) : tableOf a.toCsv = [header, a.cells] := by
  apply tableOf_lines
  · rw [header_eq]
    exact List.forall_mem_map.mpr fun column _ ↦ plain_columnName column
  · rw [cells_eq]
    exact List.forall_mem_map.mpr fun column _ ↦ a.plain_cellIn column
  · exact List.cons_ne_nil _ _
  · exact List.cons_ne_nil _ _

/-- Under the name of a column stands its cell. -/
theorem lookup_cells (a : Aggregate) (column : CountMetric ⊕ TimeMetric) :
    (header.zip a.cells).lookup (columnName column) = some (a.cellIn column) := by
  have distinct := nodup_header
  rw [header_eq] at distinct ⊢
  rw [cells_eq]
  exact lookup_zip_map distinct (mem_columns column)

/-- A row shows an aggregate under the header: each count, with zero for an absent one, and each
point in time, with an empty cell for an absent one. -/
structure ShownBy (a : Aggregate) (row : List String) : Prop where
  width : row.length = header.length
  counts : ∀ m : CountMetric,
    (header.zip row).lookup m.name = some (toString ((a.counts.get? m).getD 0).toNat)
  times : ∀ m : TimeMetric,
    (header.zip row).lookup m.name =
      some (((a.times.get? m).map fun t ↦ toString t.toNat).getD "")

theorem shownBy_cells (a : Aggregate) : a.ShownBy a.cells where
  width := by rw [header_eq, cells_eq, List.length_map, List.length_map]
  counts m := a.lookup_cells (.inl m)
  times m := a.lookup_cells (.inr m)

end Aggregate

/-- However the snapshots of a run are ordered, as long as their counts do not add up to more than a
word, the aggregate has all of them for contributors, the sum of what they have for each counter,
the earliest of their start markers and the latest of their end markers, and nothing for what none
of them has.  Its table has one row, where the cell under the name of a metric shows its value. -/
theorem aggregates_ignore_order (n : UInt16) (ss : List Snapshot)
    (fits : ∀ m, ((countsIn ss m).map UInt64.toNat).sum < UInt64.size) :
    ∃ a, (∀ ss', ss'.Perm ss → (Aggregate.empty n).absorbAll ss' = a) ∧
      a.memberCount = n ∧
      a.contributors = UInt64.ofNat ss.length ∧
      (ss.length < UInt64.size → a.contributors.toNat = ss.length) ∧
      (∀ m, (a.counts.get? m).map UInt64.toNat =
        if countsIn ss m = [] then none else some ((countsIn ss m).map UInt64.toNat).sum) ∧
      (∀ m, m ≠ .durationEnd →
        (a.times.get? m).map UInt64.toNat = ((timesIn ss m).map UInt64.toNat).min?) ∧
      (a.times.get? .durationEnd).map UInt64.toNat =
        ((timesIn ss .durationEnd).map UInt64.toNat).max? ∧
      Aggregate.header.Nodup ∧
      ∃ row, Aggregate.tableOf a.toCsv = [Aggregate.header, row] ∧ a.ShownBy row := by
  have all : ((Aggregate.empty n).absorbAll ss).contributors = UInt64.ofNat ss.length := by
    rw [Aggregate.contributors_absorbAll]
    exact UInt64.zero_add _
  refine ⟨(Aggregate.empty n).absorbAll ss, fun ss' perm ↦ Aggregate.absorbAll_perm _ perm,
    Aggregate.memberCount_absorbAll _ ss, all, fun few ↦ ?_, fun m ↦ ?_, fun m start ↦ ?_, ?_,
    Aggregate.nodup_header, _, Aggregate.tableOf_toCsv _, Aggregate.shownBy_cells _⟩
  · rw [all]
    exact UInt64.toNat_ofNat_of_lt' few
  · rw [Aggregate.get?_counts_absorbAll]
    exact map_toNat_fuse_add (fits m)
  · have earlier : ∀ x y, (Aggregate.keepTime m x y).toNat = min x.toNat y.toNat := by
      simp [Aggregate.toNat_keepTime, TimeMetric.isStart, start]
    rw [Aggregate.get?_times_absorbAll, map_fuse earlier, fuse_eq_min?]
  · have later : ∀ x y, (Aggregate.keepTime .durationEnd x y).toNat = max x.toNat y.toNat := by
      simp [Aggregate.toNat_keepTime, TimeMetric.isStart]
    rw [Aggregate.get?_times_absorbAll, map_fuse later, fuse_eq_max?]

namespace Pair

/-- The statistics of a member that did not see the end. -/
def early : Snapshot :=
  ⟨Table.empty.put .find 3, (Table.empty.put .durationStart 400).put .keyAgreementStart 450⟩

def late : Snapshot :=
  ⟨(Table.empty.put .find 4).put .offer 1,
    (Table.empty.put .durationStart 100).put .durationEnd 500⟩

end Pair

/-- The two of a pair in the other order: one counter that both have, one that one has, one that
none has, the earlier start, and the end that one of them saw. -/
theorem aggregates_ignore_order_pair :
    (∀ m, ((countsIn [Pair.early, Pair.late] m).map UInt64.toNat).sum < UInt64.size) ∧
    ∃ a, a = (Aggregate.empty 2).absorbAll [Pair.late, Pair.early] ∧ a.contributors.toNat = 2 ∧
      (a.counts.get? .find).map UInt64.toNat = some 7 ∧
      (a.counts.get? .offer).map UInt64.toNat = some 1 ∧
      (a.counts.get? .finish).map UInt64.toNat = none ∧
      (a.times.get? .durationStart).map UInt64.toNat = some 100 ∧
      (a.times.get? .durationEnd).map UInt64.toNat = some 500 ∧
      ∃ row, Aggregate.tableOf a.toCsv = [Aggregate.header, row] ∧ a.ShownBy row := by
  have fits : ∀ m, ((countsIn [Pair.early, Pair.late] m).map UInt64.toNat).sum < UInt64.size := by
    intro m
    cases m <;> decide
  obtain ⟨a, order, -, -, contributors, counts, starts, ends, -, table⟩ :=
    aggregates_ignore_order 2 [Pair.early, Pair.late] fits
  refine ⟨fits, a, (order _ (List.Perm.swap _ _ _)).symm, contributors (by decide),
    (counts .find).trans ?_, (counts .offer).trans ?_, (counts .finish).trans ?_,
    (starts .durationStart nofun).trans ?_, ends.trans ?_, table⟩
  · decide
  · decide
  · decide
  · decide
  · decide

end GroupKey
