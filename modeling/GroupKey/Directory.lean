import GroupKey.Endpoint
import GroupKey.KeyExchange

/-!
# The directory of assigned members

Who holds which id and what each contributed.  An entry is made once: neither its endpoint nor its
id can be claimed again.
-/

namespace GroupKey

structure DirectoryEntry where
  endpoint : Endpoint
  id : Nat
  publicValue : PublicValue
  deriving DecidableEq, Repr

/-- Entries in the order they were made. -/
structure Directory where
  entries : List DirectoryEntry
  deriving DecidableEq, Repr

namespace Directory

def empty : Directory := ⟨[]⟩

def find? (d : Directory) (id : Nat) : Option DirectoryEntry := d.entries.find? fun e ↦ e.id = id

def publicOf? (d : Directory) (id : Nat) : Option PublicValue :=
  (d.find? id).map DirectoryEntry.publicValue

def idOf? (d : Directory) (endpoint : Endpoint) : Option Nat :=
  (d.entries.find? fun e ↦ e.endpoint = endpoint).map DirectoryEntry.id

def containsId (d : Directory) (id : Nat) : Bool := d.entries.any fun e ↦ e.id = id

def containsEndpoint (d : Directory) (endpoint : Endpoint) : Bool :=
  d.entries.any fun e ↦ e.endpoint = endpoint

/-- Makes an entry, unless its endpoint or its id is already in the directory, and tells whether it
did. -/
def record (d : Directory) (endpoint : Endpoint) (id : Nat) (value : PublicValue) :
    Bool × Directory :=
  if d.containsEndpoint endpoint then (false, d)
  else if d.containsId id then (false, d)
  else (true, ⟨d.entries ++ [⟨endpoint, id, value⟩]⟩)

theorem containsEndpoint_iff {d : Directory} {endpoint : Endpoint} :
    d.containsEndpoint endpoint = true ↔ ∃ e ∈ d.entries, e.endpoint = endpoint := by
  simp [containsEndpoint]

theorem containsId_iff {d : Directory} {id : Nat} :
    d.containsId id = true ↔ ∃ e ∈ d.entries, e.id = id := by
  simp [containsId]

/-- Values are missing for the ids that nobody is recorded under. -/
theorem publicOf?_eq_none_iff {d : Directory} {id : Nat} :
    d.publicOf? id = none ↔ d.containsId id = false := by
  rw [publicOf?, Option.map_eq_none_iff, find?, List.find?_eq_none, containsId, List.any_eq_false]

theorem idOf?_eq_none_iff {d : Directory} {endpoint : Endpoint} :
    d.idOf? endpoint = none ↔ d.containsEndpoint endpoint = false := by
  rw [idOf?, Option.map_eq_none_iff, List.find?_eq_none, containsEndpoint, List.any_eq_false]

theorem publicOf?_eq_some {d : Directory} {id : Nat} {value : PublicValue}
    (found : d.publicOf? id = some value) :
    ∃ e ∈ d.entries, e.id = id ∧ e.publicValue = value := by
  obtain ⟨e, here, rfl⟩ := Option.map_eq_some_iff.mp found
  exact ⟨e, List.mem_of_find?_eq_some here, by simpa using List.find?_some here, rfl⟩

theorem idOf?_eq_some {d : Directory} {endpoint : Endpoint} {id : Nat}
    (found : d.idOf? endpoint = some id) :
    ∃ e ∈ d.entries, e.endpoint = endpoint ∧ e.id = id := by
  obtain ⟨e, here, rfl⟩ := Option.map_eq_some_iff.mp found
  exact ⟨e, List.mem_of_find?_eq_some here, by simpa using List.find?_some here, rfl⟩

/-- Either the endpoint or the id is taken, or the entry is made. -/
theorem record_cases (d : Directory) (endpoint : Endpoint) (id : Nat) (value : PublicValue) :
    ((∃ e ∈ d.entries, e.endpoint = endpoint ∨ e.id = id) ∧
      d.record endpoint id value = (false, d)) ∨
    d.containsEndpoint endpoint = false ∧ d.containsId id = false ∧
      d.record endpoint id value = (true, ⟨d.entries ++ [⟨endpoint, id, value⟩]⟩) := by
  cases known : d.containsEndpoint endpoint with
  | true =>
    obtain ⟨e, listed, same⟩ := containsEndpoint_iff.mp known
    exact .inl ⟨⟨e, listed, .inl same⟩, by simp [record, known]⟩
  | false =>
    cases taken : d.containsId id with
    | true =>
      obtain ⟨e, listed, same⟩ := containsId_iff.mp taken
      exact .inl ⟨⟨e, listed, .inr same⟩, by simp [record, taken]⟩
    | false => exact .inr ⟨rfl, rfl, by simp [record, known, taken]⟩

/-- Recording adds the fact that it is given, and no other. -/
theorem mem_record {d : Directory} {e : DirectoryEntry} {endpoint : Endpoint} {id : Nat}
    {value : PublicValue} (here : e ∈ (d.record endpoint id value).2.entries) :
    e ∈ d.entries ∨ e = ⟨endpoint, id, value⟩ := by
  rcases d.record_cases endpoint id value with ⟨-, kept⟩ | ⟨-, -, made⟩
  · rw [kept] at here
    exact .inl here
  · rw [made] at here
    simpa using here

/-- What was recorded stays recorded. -/
theorem subset_record (d : Directory) (endpoint : Endpoint) (id : Nat) (value : PublicValue) :
    d.entries ⊆ (d.record endpoint id value).2.entries := by
  rcases d.record_cases endpoint id value with ⟨-, kept⟩ | ⟨-, -, made⟩
  · rw [kept]
    exact List.Subset.refl _
  · rw [made]
    exact List.subset_append_left ..

/-- Afterwards the endpoint or the id is taken, if not by this entry then by an older one. -/
theorem record_takes (d : Directory) (endpoint : Endpoint) (id : Nat) (value : PublicValue) :
    ∃ e ∈ (d.record endpoint id value).2.entries, e.endpoint = endpoint ∨ e.id = id := by
  rcases d.record_cases endpoint id value with ⟨taken, kept⟩ | ⟨-, -, made⟩
  · rw [kept]
    exact taken
  · rw [made]
    exact ⟨⟨endpoint, id, value⟩, by simp, .inl rfl⟩

def highestId? (d : Directory) : Option Nat := (d.entries.map DirectoryEntry.id).max?

def size (d : Directory) : Nat := d.entries.length

/-- The ids from `first` on that lie below `bound`. -/
def idsBelow (first bound : Nat) : List Nat := List.range' first (bound - first)

@[simp] theorem mem_idsBelow {first bound id : Nat} :
    id ∈ idsBelow first bound ↔ first ≤ id ∧ id < bound := by
  simp only [idsBelow, List.mem_range'_1]
  omega

/-- The ids from `first` on and below `bound` that nobody is recorded for, in ascending order. -/
def missing (d : Directory) (first bound : Nat) : List Nat :=
  (idsBelow first bound).filter fun id ↦ !d.containsId id

/-- Where no id is missing, somebody is recorded under each. -/
theorem containsId_of_missing_eq_nil {d : Directory} {first bound id : Nat}
    (complete : d.missing first bound = []) (above : first ≤ id) (below : id < bound) :
    d.containsId id = true := by
  have kept := List.filter_eq_nil_iff.mp complete id (mem_idsBelow.mpr ⟨above, below⟩)
  simpa using kept

end Directory

end GroupKey
