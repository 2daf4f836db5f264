import GroupKey.Proofs.JsonText
import GroupKey.Proofs.Tables
import GroupKey.Statistics.Text

/-!
# Statistics are what their text says

A table holds its present values only, in the order of the metrics, and is read into one that is
empty at first.  Since the names of metrics tell them apart, every value comes back to where it was,
and what was absent stays absent.
-/

namespace GroupKey

/-- Every metric is found under its own name. -/
theorem Metric.ofName?_name {μ : Type} [DecidableEq μ] [Metric μ] (m : μ) :
    ofName? (name m) = some m :=
  (find?_eq_some_iff_of_nodup nodup_names).mpr ⟨mem_all m, rfl⟩

namespace JsonValue

/-- The digits of a number are read back as the number. -/
theorem decimalValue_toDigits (n : Nat) : Digits.decimalValue (Nat.toDigits 10 n) = n := by
  have value : Nat.ofDigitChars 10 (Nat.toDigits 10 n) 0 = n := Nat.ofDigitChars_ten_toDigits
  rwa [Nat.ofDigitChars_eq_foldl] at value

theorem nat?_toDigits {bound n : Nat} (inside : n < bound) :
    nat? bound (.number (Nat.toDigits 10 n)) = some n := by
  have digits : (Nat.toDigits 10 n).all Char.isDigit :=
    List.all_eq_true.mpr fun _ listed ↦
      Nat.isDigit_of_mem_toDigits (by decide) (by decide) listed
  simp [nat?, digits, decimalValue_toDigits, inside]

/-- An object is read as its members, in their order. -/
theorem members?_object {α : Type} (l : List α) (key : α → List Char) (value : α → JsonValue) :
    members? (.object (l.map fun x ↦ (some (key x), value x))) =
      some (l.map fun x ↦ (key x, value x)) := by
  rw [members?, List.mapM_map]
  exact List.mapM_pure

end JsonValue

theorem word64?_toDigits (value : UInt64) :
    word64? (.number (Nat.toDigits 10 value.toNat)) = some value := by
  rw [word64?, JsonValue.nat?_toDigits value.toNat_lt_size, Option.map_some, UInt64.ofNat_toNat]

/-! ## Tables -/

namespace Table

variable {μ : Type} [DecidableEq μ] [Metric μ]

/-- The value of an object that holds one number for every entry. -/
def jsonValue (t : Table μ (Option UInt64)) : JsonValue :=
  .object (t.entries.map fun entry ↦
    (some (Metric.name entry.1).toList, .number (Nat.toDigits 10 entry.2.toNat)))

theorem reads_toJson (t : Table μ (Option UInt64)) : JsonValue.Reads t.toJson t.jsonValue :=
  .object t.entries (fun entry ↦ Metric.name entry.1) (fun entry ↦ toString entry.2.toNat)
    (fun entry ↦ .number (Nat.toDigits 10 entry.2.toNat)) fun entry _ ↦ .number entry.2.toNat

/-- Entering the present values of one table for some metrics leaves a second table what it has for
the others. -/
theorem get?_foldl_put (source target : Table μ (Option UInt64)) (metrics : List μ) (k : μ) :
    ((metrics.filterMap fun m ↦ (source.get? m).map fun value ↦ (m, value)).foldl
        (fun t entry ↦ t.put entry.1 entry.2) target).get? k =
      if k ∈ metrics then (source.get? k).or (target.get? k) else target.get? k := by
  induction metrics generalizing target with
  | nil => rfl
  | cons m metrics ih =>
    cases found : source.get? m with
    | none =>
      rw [List.filterMap_cons_none (by rw [found, Option.map_none]), ih]
      by_cases same : k = m
      · subst same
        simp [found]
      · simp [same]
    | some value =>
      rw [List.filterMap_cons_some (by rw [found, Option.map_some]), List.foldl_cons, ih, get?_put]
      by_cases same : k = m
      · subst same
        simp [found]
      · simp [same, Ne.symm same]

/-- A table put together from its entries is the table. -/
theorem foldl_put_entries (t : Table μ (Option UInt64)) :
    t.entries.foldl (fun t entry ↦ t.put entry.1 entry.2) empty = t := by
  apply ext
  intro m
  refine (get?_foldl_put t empty Metric.all m).trans ?_
  rw [if_pos (Metric.mem_all m), get?_empty, Option.or_none, get?]

/-- A table is read back from its value, whichever metrics it has. -/
theorem ofJson?_jsonValue (t : Table μ (Option UInt64)) : ofJson? t.jsonValue = some t := by
  rw [ofJson?, jsonValue, JsonValue.members?_object]
  refine (List.foldlM_map ..).trans ?_
  simp only [String.ofList_toList, Metric.ofName?_name, word64?_toDigits]
  exact List.foldlM_pure.trans (congrArg some t.foldl_put_entries)

end Table

/-! ## Snapshots and aggregates -/

/-- The value that the text of a snapshot is read as. -/
def Snapshot.jsonValue (s : Snapshot) : JsonValue :=
  .object [(some "counts".toList, s.counts.jsonValue),
    (some "times".toList, s.times.jsonValue)]

/-- The value that the text of an aggregate is read as. -/
def Aggregate.jsonValue (a : Aggregate) : JsonValue :=
  .object [(some "member_count".toList, .number (Nat.toDigits 10 a.memberCount.toNat)),
    (some "contributors".toList, .number (Nat.toDigits 10 a.contributors.toNat)),
    (some "counts".toList, a.counts.jsonValue),
    (some "times".toList, a.times.jsonValue)]

/-- An object of members that are listed with the values they are read as. -/
theorem reads_fields (fields : List (String × String × JsonValue))
    (each : ∀ field ∈ fields, JsonValue.Reads field.2.1 field.2.2) :
    JsonValue.Reads (JsonValue.writeObject (fields.map fun field ↦ (field.1, field.2.1)))
      (.object (fields.map fun field ↦ (some field.1.toList, field.2.2))) :=
  .object fields (fun field ↦ field.1) (fun field ↦ field.2.1) (fun field ↦ field.2.2) each

theorem Snapshot.reads_toJson (s : Snapshot) : JsonValue.Reads s.toJson s.jsonValue := by
  refine reads_fields
    [("counts", s.counts.toJson, s.counts.jsonValue),
      ("times", s.times.toJson, s.times.jsonValue)] ?_
  simpa using ⟨s.counts.reads_toJson, s.times.reads_toJson⟩

theorem Aggregate.reads_toJson (a : Aggregate) : JsonValue.Reads a.toJson a.jsonValue := by
  refine reads_fields
    [("member_count", toString a.memberCount.toNat,
        .number (Nat.toDigits 10 a.memberCount.toNat)),
      ("contributors", toString a.contributors.toNat,
        .number (Nat.toDigits 10 a.contributors.toNat)),
      ("counts", a.counts.toJson, a.counts.jsonValue),
      ("times", a.times.toJson, a.times.jsonValue)] ?_
  simp only [List.forall_mem_cons, List.not_mem_nil, false_implies, implies_true, and_true]
  exact ⟨.number _, .number _, a.counts.reads_toJson, a.times.reads_toJson⟩

theorem Snapshot.ofJson?_jsonValue (s : Snapshot) : ofJson? s.jsonValue = some s := by
  have fields : s.jsonValue.record? ["counts", "times"] =
      some [s.counts.jsonValue,
        s.times.jsonValue] := by
    simp [jsonValue, JsonValue.record?, JsonValue.members?]
  simp [ofJson?, fields, Table.ofJson?_jsonValue]

theorem Aggregate.ofJson?_jsonValue (a : Aggregate) : ofJson? a.jsonValue = some a := by
  have fields : a.jsonValue.record? ["member_count", "contributors", "counts", "times"] =
      some [.number (Nat.toDigits 10 a.memberCount.toNat),
        .number (Nat.toDigits 10 a.contributors.toNat),
        a.counts.jsonValue,
        a.times.jsonValue] := by
    simp [jsonValue, JsonValue.record?, JsonValue.members?]
  have count := JsonValue.nat?_toDigits a.memberCount.toNat_lt_size
  simp [ofJson?, fields, count, word64?_toDigits, Table.ofJson?_jsonValue]

/-- A snapshot is read back from its text. -/
theorem Snapshot.parse?_toJson (s : Snapshot) : parse? s.toJson = some s := by
  rw [parse?, JsonValue.parse?_of_reads s.reads_toJson]
  exact s.ofJson?_jsonValue

/-- An aggregate is read back from its text. -/
theorem Aggregate.parse?_toJson (a : Aggregate) : parse? a.toJson = some a := by
  rw [parse?, JsonValue.parse?_of_reads a.reads_toJson]
  exact a.ofJson?_jsonValue

/-- Whatever a snapshot or an aggregate holds, its text is read back as just that; so different
statistics have different texts, and no text is that of a snapshot and of an aggregate. -/
theorem statistics_read_back :
    (∀ s : Snapshot, Snapshot.parse? s.toJson = some s) ∧
    (∀ a : Aggregate, Aggregate.parse? a.toJson = some a) ∧
    Function.Injective Snapshot.toJson ∧
    Function.Injective Aggregate.toJson ∧
    ∀ (s : Snapshot) (a : Aggregate), s.toJson ≠ a.toJson := by
  refine ⟨Snapshot.parse?_toJson, Aggregate.parse?_toJson, ?_, ?_, ?_⟩
  · intro s t same
    have read := congrArg Snapshot.parse? same
    rw [s.parse?_toJson, t.parse?_toJson] at read
    exact Option.some.inj read
  · intro a b same
    have read := congrArg Aggregate.parse? same
    rw [a.parse?_toJson, b.parse?_toJson] at read
    exact Option.some.inj read
  · intro s a same
    have read := JsonValue.parse?_of_reads s.reads_toJson
    rw [same, JsonValue.parse?_of_reads a.reads_toJson] at read
    simp [Snapshot.jsonValue, Aggregate.jsonValue] at read

end GroupKey
