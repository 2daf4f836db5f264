import GroupKey.DirectoryMaps
import Mathlib.Data.List.Nodup
import Mathlib.Data.Set.Card

/-!
# Tables in which no key occurs twice

A directory is one list, and both of its lookups search it.  They behave as two maps that are
always updated together, since no endpoint and no id is entered twice.
-/

namespace GroupKey

section Keys

variable {α κ : Type} [DecidableEq κ] {key : α → κ} {l : List α}

/-- Where keys are distinct, a search for a key finds the one that has it. -/
theorem find?_eq_some_iff_of_nodup (distinct : (l.map key).Nodup) {k : κ} {a : α} :
    (l.find? fun x ↦ key x = k) = some a ↔ a ∈ l ∧ key a = k := by
  constructor
  · intro found
    exact ⟨List.mem_of_find?_eq_some found, by simpa using List.find?_some found⟩
  · rintro ⟨here, rfl⟩
    have listed : (l.find? fun x ↦ key x = key a).isSome :=
      List.find?_isSome.mpr ⟨a, here, by simp⟩
    obtain ⟨b, found⟩ := Option.isSome_iff_exists.mp listed
    have same : key b = key a := by simpa using List.find?_some found
    rw [found, List.inj_on_of_nodup_map distinct (List.mem_of_find?_eq_some found) here same]

/-- Without repetition there are as many keys as entries. -/
theorem encard_of_nodup {l : List κ} (distinct : l.Nodup) :
    {k | k ∈ l}.encard = (l.length : ℕ∞) := by
  rw [← List.coe_toFinset, Set.encard_coe_eq_coe_finsetCard, List.toFinset_card_of_nodup distinct]

end Keys

/-! ## Directories -/

namespace Directory

variable {d : Directory} {endpoint other : Endpoint} {id : Nat} {value : PublicValue}

theorem isSome_idOf?_iff :
    (d.idOf? endpoint).isSome ↔ endpoint ∈ d.entries.map DirectoryEntry.endpoint := by
  rw [Option.isSome_iff_ne_none, Ne, idOf?_eq_none_iff, Bool.not_eq_false, containsEndpoint_iff,
    List.mem_map]

theorem isSome_publicOf?_iff :
    (d.publicOf? id).isSome ↔ id ∈ d.entries.map DirectoryEntry.id := by
  rw [Option.isSome_iff_ne_none, Ne, publicOf?_eq_none_iff, Bool.not_eq_false, containsId_iff,
    List.mem_map]

/-- An entry is made if neither its endpoint nor its id is in use. -/
theorem record_fst_iff :
    (d.record endpoint id value).1 = true ↔ d.idOf? endpoint = none ∧ d.publicOf? id = none := by
  rw [idOf?_eq_none_iff, publicOf?_eq_none_iff, record]
  split
  · next known => simp [known]
  · next unknown =>
    split
    · next taken => simp [taken]
    · next free => simp [unknown, free]

/-- A fact that is new in both respects is appended. -/
theorem record_of_made (made : (d.record endpoint id value).1 = true) :
    (d.record endpoint id value).2 = ⟨d.entries ++ [⟨endpoint, id, value⟩]⟩ := by
  rcases d.record_cases endpoint id value with ⟨-, kept⟩ | ⟨-, -, done⟩
  · rw [kept] at made
    cases made
  · rw [done]

/-- A fact about somebody known changes nothing. -/
theorem record_of_refused (refused : (d.record endpoint id value).1 = false) :
    (d.record endpoint id value).2 = d := by
  rcases d.record_cases endpoint id value with ⟨-, kept⟩ | ⟨-, -, done⟩
  · rw [kept]
  · rw [done] at refused
    cases refused

/-- By endpoint, a new fact is one more value of the lookup. -/
theorem idOf?_record_of_made (made : (d.record endpoint id value).1 = true) :
    (d.record endpoint id value).2.idOf? = Function.update d.idOf? endpoint (some id) := by
  obtain ⟨unknown, -⟩ := record_fst_iff.mp made
  funext other
  rw [record_of_made made, idOf?, List.find?_append, Option.map_or]
  by_cases same : other = endpoint
  · subst same
    rw [← idOf?, unknown]
    simp
  · rw [Function.update_of_ne same]
    simp [idOf?, Ne.symm same]

/-- By id, a new fact is one more value of the lookup. -/
theorem publicOf?_record_of_made (made : (d.record endpoint id value).1 = true) :
    (d.record endpoint id value).2.publicOf? = Function.update d.publicOf? id (some value) := by
  obtain ⟨-, unknown⟩ := record_fst_iff.mp made
  funext other
  rw [record_of_made made, publicOf?, find?, List.find?_append, Option.map_or]
  by_cases same : other = id
  · subst same
    rw [← find?, ← publicOf?, unknown]
    simp
  · rw [Function.update_of_ne same]
    simp [publicOf?, find?, Ne.symm same]

theorem containsEndpoint_record_eq_false (unknown : d.containsEndpoint other = false)
    (differs : other ≠ endpoint) :
    (d.record endpoint id value).2.containsEndpoint other = false := by
  refine Bool.eq_false_iff.mpr fun known ↦ ?_
  obtain ⟨e, listed, rfl⟩ := containsEndpoint_iff.mp known
  rcases mem_record listed with old | rfl
  · exact Bool.eq_false_iff.mp unknown (containsEndpoint_iff.mpr ⟨e, old, rfl⟩)
  · exact differs rfl

/-- No endpoint and no id has two entries. -/
structure OneToOne (d : Directory) : Prop where
  endpoints : (d.entries.map DirectoryEntry.endpoint).Nodup
  ids : (d.entries.map DirectoryEntry.id).Nodup

theorem oneToOne_empty : empty.OneToOne := ⟨List.nodup_nil, List.nodup_nil⟩

/-- The check on both sides keeps both sides free of repetition. -/
theorem OneToOne.record (oneToOne : d.OneToOne) (endpoint : Endpoint) (id : Nat)
    (value : PublicValue) : (d.record endpoint id value).2.OneToOne := by
  cases made : (d.record endpoint id value).1 with
  | false =>
    rw [record_of_refused made]
    exact oneToOne
  | true =>
    obtain ⟨endpoint_free, id_free⟩ := record_fst_iff.mp made
    rw [← Option.not_isSome_iff_eq_none, isSome_idOf?_iff] at endpoint_free
    rw [← Option.not_isSome_iff_eq_none, isSome_publicOf?_iff] at id_free
    rw [record_of_made made]
    refine ⟨?_, ?_⟩
    · rw [List.map_append, List.map_singleton, ← List.concat_eq_append]
      exact oneToOne.endpoints.concat endpoint_free
    · rw [List.map_append, List.map_singleton, ← List.concat_eq_append]
      exact oneToOne.ids.concat id_free

theorem OneToOne.idOf?_eq_some_iff (oneToOne : d.OneToOne) :
    d.idOf? endpoint = some id ↔ ∃ e ∈ d.entries, e.endpoint = endpoint ∧ e.id = id := by
  rw [idOf?, Option.map_eq_some_iff]
  simp only [find?_eq_some_iff_of_nodup oneToOne.endpoints, and_assoc]

/-- The lookups of a directory: ids of distinct endpoints differ, the ids in use are the ones with a
public value, and so both lookups know as many keys as there are entries. -/
structure Consistent (d : Directory) : Prop where
  injective : ∀ e e' i, d.idOf? e = some i → d.idOf? e' = some i → e = e'
  image : ∀ i, (∃ e, d.idOf? e = some i) ↔ (d.publicOf? i).isSome
  endpoints : {e | (d.idOf? e).isSome}.encard = d.size
  ids : {i | (d.publicOf? i).isSome}.encard = d.size
  highest : ∀ i, d.highestId? = some i ↔
    (d.publicOf? i).isSome ∧ ∀ j, (d.publicOf? j).isSome → j ≤ i
  missing : ∀ first bound, (d.missing first bound).Pairwise (· < ·) ∧
    ∀ i, i ∈ d.missing first bound ↔ first ≤ i ∧ i < bound ∧ d.publicOf? i = none

/-- Lists without repetition answer lookups like two maps that agree. -/
theorem OneToOne.consistent (oneToOne : d.OneToOne) : d.Consistent where
  injective e e' i first second := by
    obtain ⟨x, x_mem, rfl, rfl⟩ := idOf?_eq_some first
    obtain ⟨y, y_mem, rfl, same⟩ := idOf?_eq_some second
    rw [List.inj_on_of_nodup_map oneToOne.ids y_mem x_mem same]
  image i := by
    rw [isSome_publicOf?_iff, List.mem_map]
    constructor
    · rintro ⟨e, found⟩
      obtain ⟨x, listed, -, same⟩ := idOf?_eq_some found
      exact ⟨x, listed, same⟩
    · rintro ⟨x, listed, same⟩
      exact ⟨x.endpoint, oneToOne.idOf?_eq_some_iff.mpr ⟨x, listed, rfl, same⟩⟩
  endpoints := by
    simp only [isSome_idOf?_iff]
    rw [encard_of_nodup oneToOne.endpoints, List.length_map, size]
  ids := by
    simp only [isSome_publicOf?_iff]
    rw [encard_of_nodup oneToOne.ids, List.length_map, size]
  highest i := by
    simp only [isSome_publicOf?_iff]
    exact (List.max?_eq_some_iff : (d.entries.map DirectoryEntry.id).max? = some i ↔ _)
  missing first bound := by
    refine ⟨List.Pairwise.filter _ (List.pairwise_lt_range' ..), fun i ↦ ?_⟩
    rw [Directory.missing, List.mem_filter, mem_idsBelow, publicOf?_eq_none_iff, and_assoc]
    simp

end Directory

/-! ## Two maps in step -/

namespace DirectoryMaps

variable {m : DirectoryMaps} {endpoint : Endpoint} {id : Nat} {value : PublicValue}

/-- Records one entry after the other. -/
def recordAll (m : DirectoryMaps) (facts : List DirectoryEntry) : DirectoryMaps :=
  facts.foldl (fun m e ↦ (m.record e.endpoint e.id e.publicValue).2) m

/-- The two maps are one to one: ids of distinct endpoints differ, and the ids of the endpoints are
the ones with a public value. -/
structure Consistent (m : DirectoryMaps) : Prop where
  injective : ∀ e e' i, m.idOf? e = some i → m.idOf? e' = some i → e = e'
  image : ∀ i, (∃ e, m.idOf? e = some i) ↔ (m.publicOf? i).isSome
  size : m.byEndpoint.size = m.byId.size
  highest : ∀ i, m.highestId? = some i ↔
    (m.publicOf? i).isSome ∧ ∀ j, (m.publicOf? j).isSome → j ≤ i
  missing : ∀ first bound, (m.missing first bound).Pairwise (· < ·) ∧
    ∀ i, i ∈ m.missing first bound ↔ first ≤ i ∧ i < bound ∧ m.publicOf? i = none

theorem containsId_eq : m.containsId id = (m.publicOf? id).isSome :=
  Std.TreeMap.contains_eq_isSome_getElem?

theorem containsEndpoint_eq : m.containsEndpoint endpoint = (m.idOf? endpoint).isSome :=
  Std.HashMap.contains_eq_isSome_getElem?

theorem record_fst_iff :
    (m.record endpoint id value).1 = true ↔ m.idOf? endpoint = none ∧ m.publicOf? id = none := by
  rw [record, containsEndpoint_eq, containsId_eq]
  cases m.idOf? endpoint <;> cases m.publicOf? id <;> simp

theorem record_of_made (made : (m.record endpoint id value).1 = true) :
    (m.record endpoint id value).2 = ⟨m.byId.insert id value, m.byEndpoint.insert endpoint id⟩ := by
  obtain ⟨unknown, free⟩ := record_fst_iff.mp made
  simp [record, containsEndpoint_eq, containsId_eq, unknown, free]

theorem record_of_refused (refused : (m.record endpoint id value).1 = false) :
    (m.record endpoint id value).2 = m := by
  unfold record at refused ⊢
  split at refused
  · next known => rw [if_pos known]
  · next unknown =>
    split at refused
    · next taken => rw [if_neg unknown, if_pos taken]
    · cases refused

theorem idOf?_record_of_made (made : (m.record endpoint id value).1 = true) :
    (m.record endpoint id value).2.idOf? = Function.update m.idOf? endpoint (some id) := by
  funext other
  rw [record_of_made made, idOf?, Std.HashMap.getElem?_insert, Function.update_apply]
  simp only [beq_iff_eq, idOf?, @eq_comm _ other]

theorem publicOf?_record_of_made (made : (m.record endpoint id value).1 = true) :
    (m.record endpoint id value).2.publicOf? = Function.update m.publicOf? id (some value) := by
  funext other
  rw [record_of_made made, publicOf?, Std.TreeMap.getElem?_insert, Function.update_apply]
  simp only [Std.LawfulEqCmp.compare_eq_iff_eq, publicOf?, @eq_comm _ other]

/-- The highest id is the last key of the ordered map. -/
theorem highestId?_eq_some_iff :
    m.highestId? = some id ↔
      (m.publicOf? id).isSome ∧ ∀ other, (m.publicOf? other).isSome → other ≤ id := by
  rw [highestId?, Std.TreeMap.maxKey?_eq_some_iff_mem_and_forall]
  simp only [← Std.TreeMap.contains_iff_mem, Std.TreeMap.contains_eq_isSome_getElem?, publicOf?,
    Nat.isLE_compare]

theorem mem_missing {first bound : Nat} :
    id ∈ m.missing first bound ↔ first ≤ id ∧ id < bound ∧ m.publicOf? id = none := by
  rw [missing, List.mem_filter, Directory.mem_idsBelow, containsId_eq, and_assoc]
  simp

end DirectoryMaps

namespace Directory

variable {d : Directory} {m : DirectoryMaps}

/-- The maps answer like the directory. -/
structure Mapped (d : Directory) (m : DirectoryMaps) : Prop where
  idOf? : m.idOf? = d.idOf?
  publicOf? : m.publicOf? = d.publicOf?
  endpoints : m.byEndpoint.size = d.size
  ids : m.byId.size = d.size

/-- At first neither side knows anybody. -/
theorem mapped_empty : empty.Mapped .empty where
  idOf? := funext fun _ ↦ Std.HashMap.getElem?_empty
  publicOf? := funext fun _ ↦ Std.TreeMap.getElem?_emptyc
  endpoints := Std.HashMap.size_empty
  ids := Std.TreeMap.size_emptyc

/-- The two maps make an entry when the list does. -/
theorem Mapped.record_fst (mapped : d.Mapped m) (endpoint : Endpoint) (id : Nat)
    (value : PublicValue) :
    (m.record endpoint id value).1 = (d.record endpoint id value).1 := by
  rw [Bool.eq_iff_iff, DirectoryMaps.record_fst_iff, record_fst_iff, mapped.idOf?,
    mapped.publicOf?]

/-- One call of the maps does what one call of the list does. -/
theorem Mapped.record (mapped : d.Mapped m) (endpoint : Endpoint) (id : Nat)
    (value : PublicValue) :
    (d.record endpoint id value).2.Mapped (m.record endpoint id value).2 := by
  have same := mapped.record_fst endpoint id value
  cases made : (d.record endpoint id value).1 with
  | false =>
    rw [record_of_refused made, DirectoryMaps.record_of_refused (same.trans made)]
    exact mapped
  | true =>
    have both := same.trans made
    obtain ⟨unknown, free⟩ := DirectoryMaps.record_fst_iff.mp both
    have more : (d.record endpoint id value).2.size = d.size + 1 := by
      simp [record_of_made made, size]
    refine ⟨?_, ?_, ?_, ?_⟩
    · rw [DirectoryMaps.idOf?_record_of_made both, idOf?_record_of_made made, mapped.idOf?]
    · rw [DirectoryMaps.publicOf?_record_of_made both, publicOf?_record_of_made made,
        mapped.publicOf?]
    · rw [DirectoryMaps.record_of_made both, Std.HashMap.size_insert, mapped.endpoints, more,
        if_neg]
      rw [← Std.HashMap.contains_iff_mem, ← DirectoryMaps.containsEndpoint,
        DirectoryMaps.containsEndpoint_eq, unknown]
      simp
    · rw [DirectoryMaps.record_of_made both, Std.TreeMap.size_insert, mapped.ids, more, if_neg]
      rw [← DirectoryMaps.containsId, DirectoryMaps.containsId_eq, free]
      simp

/-- What holds of the list holds of the maps. -/
theorem Consistent.maps (consistent : d.Consistent) (mapped : d.Mapped m) : m.Consistent where
  injective := mapped.idOf? ▸ consistent.injective
  image := by
    rw [mapped.idOf?, mapped.publicOf?]
    exact consistent.image
  size := mapped.endpoints.trans mapped.ids.symm
  highest _ := DirectoryMaps.highestId?_eq_some_iff
  missing _ _ := ⟨List.Pairwise.filter _ (List.pairwise_lt_range' ..),
    fun _ ↦ DirectoryMaps.mem_missing⟩

end Directory

end GroupKey
