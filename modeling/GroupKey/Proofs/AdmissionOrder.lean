import GroupKey.Proofs.World
import Mathlib.Data.List.Nodup

/-!
# The order of admission

Ids are handed out one at a time: the opener takes the first, and every other member is the heir of
the member before it.  The order in which the members were let in is stored nowhere, but it decides
every seat, every hand-over and every entry of every directory.
-/

namespace GroupKey

variable {ι : Type}

/-- The order gives the id to the member. -/
def Listed (order : List ι) (i : ι) (id : Nat) : Prop := 0 < id ∧ order[id - 1]? = some i

namespace Listed

variable {order order' : List ι} {i j : ι} {id id' : Nat}

theorem le_length (listed : Listed order i id) : id ≤ order.length := by
  obtain ⟨positive, found⟩ := listed
  obtain ⟨short, -⟩ := List.getElem?_eq_some_iff.mp found
  omega

theorem mem (listed : Listed order i id) : i ∈ order := List.mem_of_getElem? listed.2

theorem member_eq (here : Listed order i id) (there : Listed order j id) : i = j :=
  Option.some.inj (here.2.symm.trans there.2)

theorem id_eq (nodup : order.Nodup) (here : Listed order i id) (there : Listed order i id') :
    id = id' := by
  have short := here.le_length
  have positive := here.1
  have positive' := there.1
  have same : id - 1 = id' - 1 :=
    (List.getElem?_inj (by omega) nodup).mp (here.2.trans there.2.symm)
  omega

theorem exists_member (positive : 0 < id) (short : id ≤ order.length) : ∃ i, Listed order i id :=
  ⟨order[id - 1], positive, List.getElem?_eq_getElem (by omega)⟩

theorem exists_id (here : i ∈ order) : ∃ id, Listed order i id := by
  obtain ⟨k, found⟩ := List.getElem?_of_mem here
  exact ⟨k + 1, Nat.succ_pos k, found⟩

theorem mono (grows : order <+: order') (listed : Listed order i id) : Listed order' i id := by
  obtain ⟨more, rfl⟩ := grows
  refine ⟨listed.1, ?_⟩
  rw [List.getElem?_append_left]
  · exact listed.2
  · have := listed.1
    have := listed.le_length
    omega

theorem append (listed : Listed order i id) (j : ι) : Listed (order ++ [j]) i id :=
  listed.mono (List.prefix_append order [j])

theorem append_self (order : List ι) (i : ι) : Listed (order ++ [i]) i (order.length + 1) :=
  ⟨Nat.succ_pos _, by simp⟩

theorem of_append (listed : Listed (order ++ [j]) i id) (old : id ≤ order.length) :
    Listed order i id := by
  refine ⟨listed.1, ?_⟩
  have found := listed.2
  rwa [List.getElem?_append_left] at found
  have := listed.1
  omega

end Listed

namespace Roster

variable {g : Roster ι} {kx : KeyExchange} {w w' : World ι} {i j k : ι} {cause : Input}
  {said : List Outgoing} {c d : Chain} {order order' : List ι}

/-- A directory entry names a member of the order, its id and its value. -/
def Names (g : Roster ι) (order : List ι) (e : DirectoryEntry) (j : ι) : Prop :=
  Listed order j e.id ∧ e.endpoint = g.endpoint j ∧ e.publicValue = g.publicValue j

/-- What the order says about one member. -/
structure Placed (g : Roster ι) (order : List ι) (i : ι) (c : Chain) : Prop where
  seat : ∀ s, c.seat = some s → Listed order i s.id
  keys : ∀ s, c.seat = some s →
    0 < s.keysComputed ∧ s.id + s.keysComputed ≤ order.length + 1
  handOver : ∀ h, c.handOver = some h → ∃ s j, c.seat = some s ∧ Listed order j (s.id + 1) ∧
    h.response.newSponsor = ⟨g.endpoint j, UInt16.ofNat (s.id + 1), g.publicValue j⟩ ∧
    h.response.predecessorPublic = g.publicValue i
  handedOver : ∀ s, c.seat = some s → s.id < order.length → c.handOver.isSome
  directory : ∀ e ∈ c.directory.entries, ∃ j, g.Names order e j
  own : c.seat.isSome → ∃ e ∈ c.directory.entries, e.endpoint = g.endpoint i
  pending : ∀ p ∈ c.pending, ∃ j, p = ⟨g.endpoint j, g.publicValue j⟩

/-- The members were let in in this order.  Only the newest may still have to take its seat. -/
structure Ordered (g : Roster ι) (w : World ι) (order : List ι) : Prop where
  nodup : order.Nodup
  short : order.length ≤ g.size
  opener : ∀ i, Listed order i 1 → i = g.opener
  seated : ∀ i id, Listed order i id → id = 1 ∨ id < order.length → (w.members i).seat.isSome
  placed : ∀ i, g.Placed order i (w.members i)

theorem ordered_world (g : Roster ι) : g.Ordered g.world [] where
  nodup := List.nodup_nil
  short := Nat.zero_le _
  opener i listed := by simp [Listed] at listed
  seated i id listed := by simp [Listed] at listed
  placed i :=
    { seat := by simp [world, member]
      keys := by simp [world, member]
      handOver := by simp [world, member]
      handedOver := by simp [world, member]
      directory := by simp [world, member, Directory.empty]
      own := by simp [world, member]
      pending := by simp [world, member] }

theorem Ordered.toNat_ofNat (ordered : g.Ordered w order) {id : Nat} (listed : Listed order i id) :
    (UInt16.ofNat id).toNat = id :=
  g.toNat_ofNat (Nat.le_trans listed.le_length ordered.short)

theorem Ordered.id_le_size (ordered : g.Ordered w order) {s : Seat}
    (seat : (w.members i).seat = some s) : 0 < s.id ∧ s.id ≤ g.size := by
  have listed := (ordered.placed i).seat s seat
  exact ⟨listed.1, Nat.le_trans listed.le_length ordered.short⟩

/-- Nobody else has the same id. -/
theorem Ordered.member_eq (ordered : g.Ordered w order) {s t : Seat}
    (here : (w.members i).seat = some s) (there : (w.members j).seat = some t)
    (same : s.id = t.id) : i = j := by
  have listed := (ordered.placed i).seat s here
  rw [same] at listed
  exact listed.member_eq ((ordered.placed j).seat t there)

/-- An open member holds the highest id that was given. -/
theorem Ordered.last_of_isOpen (sound : g.Sound w) (ordered : g.Ordered w order) {s : Seat}
    (seat : (w.members i).seat = some s) (isOpen : (w.members i).isOpen) :
    s.id = order.length ∧ s.keysComputed = 1 ∧ s.id < g.size := by
  have placed := ordered.placed i
  have listed := placed.seat s seat
  have keys := placed.keys s seat
  have upper := listed.le_length
  have last : s.id = order.length := by
    by_contra other
    have handed := placed.handedOver s seat (by omega)
    rw [(sound.coherent i).handOver_eq_none isOpen] at handed
    cases handed
  simp only [Chain.isOpen, seat, sound.size] at isOpen
  simp only [Option.any_some, Bool.and_eq_true, decide_eq_true_eq] at isOpen
  exact ⟨last, by omega, isOpen.2⟩

/-- A member has no more values to add than there are members, so once it is complete it stays
complete. -/
theorem Ordered.isComplete (ordered : g.Ordered w order) (sound : g.Sound w)
    (advances : Chain.Advances c (w.members i)) (complete : c.isComplete) :
    (w.members i).isComplete := by
  obtain ⟨s, seat, all⟩ := Chain.isComplete_iff.mp complete
  obtain ⟨s', seat', same, more⟩ := advances.seat s seat
  obtain ⟨-, few⟩ := (ordered.placed i).keys s' seat'
  have short := ordered.short
  have upper := ordered.id_le_size seat'
  have size : c.size = g.size := by
    rw [← sound.size i, Chain.size, Chain.size, advances.config]
  refine Chain.isComplete_iff.mpr ⟨s', seat', ?_⟩
  rw [sound.size]
  omega

/-- Everybody but the opener follows a member that has a seat and has handed over. -/
theorem Ordered.predecessor (ordered : g.Ordered w order) {id : Nat} (listed : Listed order i id)
    (later : id ≠ 1) : ∃ j s h, (w.members j).seat = some s ∧ s.id + 1 = id ∧
      (w.members j).handOver = some h := by
  have positive := listed.1
  have short := listed.le_length
  have earlier : 0 < id - 1 ∧ id - 1 < order.length := by omega
  obtain ⟨j, before⟩ := Listed.exists_member earlier.1 (Nat.le_of_lt earlier.2)
  have seated := ordered.seated j _ before (.inr earlier.2)
  obtain ⟨s, seat⟩ := Option.isSome_iff_exists.mp seated
  have id_eq := before.id_eq ordered.nodup ((ordered.placed j).seat s seat)
  have handed := (ordered.placed j).handedOver s seat (by omega)
  obtain ⟨h, handOver⟩ := Option.isSome_iff_exists.mp handed
  exact ⟨j, s, h, seat, by omega, handOver⟩

/-! ## Admission as members see it -/

/-- The id that a member was let in with.  The opener takes the first one, and everybody else is the
heir of the member before. -/
def AdmittedAs (g : Roster ι) (w : World ι) (i : ι) (id : Nat) : Prop :=
  (id = 1 ∧ i = g.opener ∧ (w.members i).seat.isSome) ∨
    ∃ j s, (w.members j).seat = some s ∧ id = s.id + 1 ∧
      (w.members j).heir? = some (g.endpoint i)

theorem Ordered.listed_of_heir? (ordered : g.Ordered w order) {e : Endpoint}
    (heir : (w.members i).heir? = some e) :
    ∃ s j, (w.members i).seat = some s ∧ Listed order j (s.id + 1) ∧ e = g.endpoint j := by
  obtain ⟨h, handOver, rfl⟩ := Option.map_eq_some_iff.mp heir
  obtain ⟨s, j, seat, listed, named, -⟩ := (ordered.placed i).handOver h handOver
  rw [named]
  exact ⟨s, j, seat, listed, rfl⟩

theorem Ordered.admittedAs_iff (ordered : g.Ordered w order) {id : Nat} :
    g.AdmittedAs w i id ↔ Listed order i id := by
  constructor
  · rintro (⟨rfl, rfl, seated⟩ | ⟨j, s, seat, rfl, heir⟩)
    · obtain ⟨s, seat⟩ := Option.isSome_iff_exists.mp seated
      have listed := (ordered.placed g.opener).seat s seat
      obtain ⟨first, here⟩ :=
        Listed.exists_member Nat.one_pos (Nat.le_trans listed.1 listed.le_length)
      rwa [ordered.opener first here] at here
    · obtain ⟨t, k, same, listed, endpoint⟩ := ordered.listed_of_heir? heir
      rw [seat] at same
      cases same
      rwa [g.endpoint_injective endpoint]
  · intro listed
    by_cases first : id = 1
    · subst first
      exact .inl ⟨rfl, ordered.opener i listed, ordered.seated i 1 listed (.inl rfl)⟩
    · obtain ⟨j, s, h, seat, next, handOver⟩ := ordered.predecessor listed first
      have heir : (w.members j).heir? = some h.response.newSponsor.endpoint := by
        rw [Chain.heir?, handOver, Option.map_some]
      obtain ⟨t, k, same, there, endpoint⟩ := ordered.listed_of_heir? heir
      rw [seat] at same
      cases same
      rw [next] at there
      rw [endpoint, there.member_eq listed] at heir
      exact .inr ⟨j, s, seat, next.symm, heir⟩

theorem Ordered.listed_of_memberId? (ordered : g.Ordered w order) {id : Nat}
    (named : (w.members i).memberId? = some id) : Listed order i id := by
  obtain ⟨s, seat, rfl⟩ := Option.map_eq_some_iff.mp named
  exact (ordered.placed i).seat s seat

theorem Ordered.memberId?_eq (ordered : g.Ordered w order) {id : Nat}
    (listed : Listed order i id) (seated : (w.members i).seat.isSome) :
    (w.members i).memberId? = some id := by
  obtain ⟨s, seat⟩ := Option.isSome_iff_exists.mp seated
  have id_eq := listed.id_eq ordered.nodup ((ordered.placed i).seat s seat)
  rw [Chain.memberId?, seat, id_eq]
  rfl

/-- The ids in use have no gap. -/
theorem Ordered.ids (ordered : g.Ordered w order) :
    ∃ k ≤ g.size, ∀ id, (∃ i, (w.members i).memberId? = some id) ↔ 1 ≤ id ∧ id ≤ k := by
  -- All members of the order are seated, or all but the newest.
  suffices bound : ∃ k ≤ order.length, ∀ i id, Listed order i id →
      ((w.members i).seat.isSome ↔ id ≤ k) by
    obtain ⟨k, short, seated⟩ := bound
    refine ⟨k, Nat.le_trans short ordered.short, fun id ↦ ⟨?_, ?_⟩⟩
    · rintro ⟨i, named⟩
      have listed := ordered.listed_of_memberId? named
      have here : (w.members i).seat.isSome := by
        obtain ⟨s, seat, -⟩ := Option.map_eq_some_iff.mp named
        simp [seat]
      exact ⟨listed.1, (seated i id listed).mp here⟩
    · rintro ⟨positive, below⟩
      obtain ⟨i, listed⟩ := Listed.exists_member positive (Nat.le_trans below short)
      exact ⟨i, ordered.memberId?_eq listed ((seated i id listed).mpr below)⟩
  by_cases newest : ∃ i, Listed order i order.length ∧ (w.members i).seat.isNone
  · obtain ⟨i, last, absent⟩ := newest
    refine ⟨order.length - 1, Nat.sub_le _ _, fun j id listed ↦ ⟨fun seated ↦ ?_, fun below ↦ ?_⟩⟩
    · have short := listed.le_length
      suffices other : id ≠ order.length by omega
      rintro rfl
      rw [listed.member_eq last] at seated
      simp [Option.isNone_iff_eq_none.mp absent] at seated
    · apply ordered.seated j id listed
      have := last.1
      omega
  · refine ⟨order.length, Nat.le_refl _, fun j id listed ↦ ⟨fun _ ↦ listed.le_length, fun _ ↦ ?_⟩⟩
    by_cases last : id = order.length
    · subst last
      by_contra absent
      exact newest ⟨j, listed, by simpa using absent⟩
    · have := listed.le_length
      exact ordered.seated j id listed (.inr (by omega))

/-- A hand-over names its sender and the next in the order. -/
theorem Ordered.response (ordered : g.Ordered w order) {r : Response}
    (vouches : (w.members j).Vouches (.response r)) :
    ∃ s k, (w.members j).seat = some s ∧ Listed order k (s.id + 1) ∧
      r.newSponsor.endpoint = g.endpoint k ∧ r.newSponsor.id.toNat = s.id + 1 ∧
      r.newSponsor.publicValue = g.publicValue k ∧ r.predecessorPublic = g.publicValue j := by
  obtain ⟨h, handOver, rfl⟩ := vouches
  obtain ⟨s, k, seat, listed, named, own⟩ := (ordered.placed j).handOver h handOver
  rw [named]
  exact ⟨s, k, seat, listed, rfl, ordered.toNat_ofNat listed, rfl, own⟩

/-- A newcomer is given the id that it has in the order. -/
theorem Ordered.listed_of_response (sound : g.Sound w) (ordered : g.Ordered w order) {r : Response}
    {source : Endpoint} (hears : w.Hears i (.message (.response r) source))
    (own : r.newSponsor.endpoint = g.endpoint i) : Listed order i r.newSponsor.id.toNat := by
  obtain ⟨j, -, -, vouches⟩ := sound.heard hears
  obtain ⟨s, k, -, listed, endpoint, id, -⟩ := ordered.response vouches
  obtain rfl := g.endpoint_injective (own.symm.trans endpoint)
  rw [id]
  exact listed

/-- Whatever a member learns is true. -/
theorem Ordered.told (sound : g.Sound w) (ordered : g.Ordered w order) (hears : w.Hears i cause)
    {endpoint : Endpoint} {id : Nat} {value : PublicValue}
    (tells : Chain.Tells cause endpoint id value) : ∃ j, g.Names order ⟨endpoint, id, value⟩ j := by
  rcases tells with ⟨phase, service, held, rfl, rfl⟩ | ⟨r, rfl, rfl, rfl⟩ |
    ⟨r, source, rfl, rfl, rfl, rfl⟩
  · obtain ⟨j, -, source, own, s, seat, named⟩ := sound.heard hears
    have listed := (ordered.placed j).seat s seat
    refine ⟨j, ?_, source, own.trans (by rw [sound.keys]; rfl)⟩
    rw [named, ordered.toNat_ofNat listed]
    exact listed
  · obtain ⟨j, -, source, vouches⟩ := sound.heard hears
    obtain ⟨s, k, seat, -, -, id, -, own⟩ := ordered.response vouches
    refine ⟨j, ?_, source, own⟩
    rw [id]
    exact (ordered.placed j).seat s seat
  · obtain ⟨j, -, -, vouches⟩ := sound.heard hears
    obtain ⟨s, k, -, listed, endpoint, id, value, -⟩ := ordered.response vouches
    refine ⟨k, ?_, endpoint, value⟩
    rw [id]
    exact listed

theorem Placed.append (placed : g.Placed order k c) (j : ι)
    (idle : ∀ s, c.seat = some s → s.id ≠ order.length) : g.Placed (order ++ [j]) k c where
  seat s seat := (placed.seat s seat).append j
  keys s seat := by
    obtain ⟨positive, short⟩ := placed.keys s seat
    rw [List.length_append]
    exact ⟨positive, by omega⟩
  handOver h handOver := by
    obtain ⟨s, heir, seat, listed, named⟩ := placed.handOver h handOver
    exact ⟨s, heir, seat, listed.append j, named⟩
  handedOver s seat _ := by
    apply placed.handedOver s seat
    have := idle s seat
    have := (placed.seat s seat).le_length
    omega
  directory e here := by
    obtain ⟨named, listed, same⟩ := placed.directory e here
    exact ⟨named, listed.append j, same⟩
  own := placed.own
  pending := placed.pending

theorem Placed.directory_record (placed : g.Placed order i c) {endpoint : Endpoint} {id : Nat}
    {value : PublicValue} (true_ : ∃ j, g.Names order ⟨endpoint, id, value⟩ j) :
    ∀ e ∈ (c.directory.record endpoint id value).2.entries, ∃ j, g.Names order e j := by
  intro e here
  rcases Directory.mem_record here with old | rfl
  · exact placed.directory e old
  · exact true_

/-- A member that records itself under its own id has an entry afterwards. -/
theorem Placed.own_record (placed : g.Placed order i c) {id : Nat} (listed : Listed order i id) :
    ∃ e ∈ (c.directory.record (g.endpoint i) id (g.publicValue i)).2.entries,
      e.endpoint = g.endpoint i := by
  obtain ⟨e, here, taken⟩ :=
    Directory.record_takes c.directory (g.endpoint i) id (g.publicValue i)
  refine ⟨e, here, ?_⟩
  rcases taken with same | same
  · exact same
  · obtain ⟨j, there, endpoint, -⟩ := placed.directory_record ⟨i, listed, rfl, rfl⟩ e here
    rw [same] at there
    rw [endpoint, there.member_eq listed]

/-- The newest member takes its seat. -/
theorem Placed.sit (placed : g.Placed order i c) (endpoint : c.endpoint = g.endpoint i)
    (keys : c.keys = g.keys i) (idle : c.handOver = none) {s : Seat}
    (listed : Listed order i s.id) (one : s.keysComputed = 1) (last : order.length ≤ s.id) :
    g.Placed order i
      { c with
        seat := some s
        directory := (c.directory.record c.endpoint s.id c.keys.publicValue).2 } where
  seat := by
    rintro _ ⟨⟩
    exact listed
  keys := by
    rintro _ ⟨⟩
    rw [one]
    exact ⟨Nat.one_pos, Nat.succ_le_succ listed.le_length⟩
  handOver := by simp [idle]
  handedOver := by
    rintro _ ⟨⟩ early
    exact absurd early (Nat.not_lt.mpr last)
  directory := by
    rw [endpoint, keys]
    exact placed.directory_record ⟨i, listed, rfl, rfl⟩
  own _ := by
    rw [endpoint, keys]
    exact placed.own_record listed
  pending := placed.pending

/-- The newest member lets the next one in. -/
theorem Placed.enrol (placed : g.Placed order i c) {s new : Seat} {rest : List Candidate}
    {response : Response} (seat : c.seat = some s) (last : s.id = order.length)
    (same : new.id = s.id) (two : new.keysComputed = 2) (part : rest ⊆ c.pending)
    (named : response.newSponsor = ⟨g.endpoint j, UInt16.ofNat (s.id + 1), g.publicValue j⟩)
    (own : response.predecessorPublic = g.publicValue i) :
    g.Placed (order ++ [j]) i
      { c with
        pending := rest
        seat := some new
        directory := (c.directory.record (g.endpoint j) (s.id + 1) (g.publicValue j)).2
        handOver := some { response } } := by
  have listed := placed.seat s seat
  have next : Listed (order ++ [j]) j (s.id + 1) := last ▸ Listed.append_self order j
  refine
    { seat := ?_, keys := ?_, handOver := ?_, handedOver := fun _ _ _ ↦ rfl
      directory := ?_, own := fun _ ↦ ?_, pending := fun p here ↦ placed.pending p (part here) }
  · rintro _ ⟨⟩
    rw [same]
    exact listed.append j
  · rintro _ ⟨⟩
    rw [same, two, last, List.length_append]
    exact ⟨Nat.two_pos, Nat.le_refl _⟩
  · rintro _ ⟨⟩
    rw [← same] at next named
    exact ⟨new, j, rfl, next, named, own⟩
  · intro e here
    rcases Directory.mem_record here with old | rfl
    · obtain ⟨known, truly, equal⟩ := placed.directory e old
      exact ⟨known, truly.append j, equal⟩
    · exact ⟨j, next, rfl, rfl⟩
  · obtain ⟨e, here, equal⟩ := placed.own (by simp [seat])
    exact ⟨e, Directory.subset_record _ _ _ _ here, equal⟩

theorem Placed.reseat (placed : g.Placed order i c) {s new : Seat} (seat : c.seat = some s)
    (same : new.id = s.id)
    (keys : 0 < new.keysComputed ∧ new.id + new.keysComputed ≤ order.length + 1) :
    g.Placed order i { c with seat := some new } := by
  refine { placed with seat := ?_, keys := ?_, handOver := ?_, handedOver := ?_, own := ?_ }
  · rintro _ ⟨⟩
    rw [same]
    exact placed.seat s seat
  · rintro _ ⟨⟩
    exact keys
  · intro h handOver
    obtain ⟨_, heir, before, named⟩ := placed.handOver h handOver
    rw [seat] at before
    cases before
    rw [← same] at named
    exact ⟨new, heir, rfl, named⟩
  · rintro _ ⟨⟩ early
    rw [same] at early
    exact placed.handedOver s seat early
  · exact fun _ ↦ placed.own (by simp [seat])

/-- A sponsor that knows everyone before itself has no member among its strangers. -/
theorem Ordered.not_mem_of_unknown (sound : g.Sound w) (ordered : g.Ordered w order) {s : Seat}
    (seat : (w.members i).seat = some s) (isOpen : (w.members i).isOpen)
    (known : (w.members i).gapsBelow = [])
    (unknown : (w.members i).directory.containsEndpoint (g.endpoint j) = false) : j ∉ order := by
  intro here
  have placed := ordered.placed i
  obtain ⟨last, -, -⟩ := ordered.last_of_isOpen sound seat isOpen
  obtain ⟨id, listed⟩ := Listed.exists_id here
  suffices recorded : ∃ e ∈ (w.members i).directory.entries, e.endpoint = g.endpoint j by
    rw [Directory.containsEndpoint_iff.mpr recorded] at unknown
    cases unknown
  by_cases own : id = s.id
  · rw [own] at listed
    rw [listed.member_eq (placed.seat s seat)]
    exact placed.own (by simp [seat])
  · have upper := listed.le_length
    have below : id < s.id := by omega
    rw [Chain.gapsBelow, seat] at known
    have there := Directory.containsId_of_missing_eq_nil known listed.1 below
    obtain ⟨e, entry, rfl⟩ := Directory.containsId_iff.mp there
    obtain ⟨named, truly, endpoint, -⟩ := placed.directory e entry
    refine ⟨e, entry, ?_⟩
    rw [endpoint, truly.member_eq listed]

variable [DecidableEq ι]

theorem Ordered.keep (ordered : g.Ordered w order) (advances : Chain.Advances (w.members i) d)
    (placed : g.Placed order i d) : g.Ordered (w.act i said d) order where
  nodup := ordered.nodup
  short := ordered.short
  opener := ordered.opener
  seated k id listed early := by
    have before := ordered.seated k id listed early
    by_cases same : k = i
    · subst same
      rw [World.act_self]
      exact advances.isSome_seat before
    · rw [World.act_of_ne same]
      exact before
  placed := World.act_forall (p := g.Placed order) placed fun k _ ↦ ordered.placed k

/-- The newest member lets somebody in, or the opener is the first. -/
theorem Ordered.append (ordered : g.Ordered w order) (advances : Chain.Advances (w.members i) d)
    (room : order.length < g.size) (fresh : j ∉ order)
    (turn : Listed order i order.length ∨ order = [] ∧ j = i ∧ i = g.opener)
    (seated : d.seat.isSome) (placed : g.Placed (order ++ [j]) i d) :
    g.Ordered (w.act i said d) (order ++ [j]) where
  nodup := by
    rw [List.nodup_append]
    refine ⟨ordered.nodup, List.nodup_singleton j, ?_⟩
    rintro k old _ new rfl
    exact fresh (List.mem_singleton.mp new ▸ old)
  short := by
    rw [List.length_append]
    exact room
  opener k first := by
    rcases turn with last | ⟨rfl, rfl, opens⟩
    · exact ordered.opener k (first.of_append last.1)
    · rw [← opens]
      exact first.member_eq (Listed.append_self [] j)
  seated k id listed early := by
    by_cases same : k = i
    · subst same
      rw [World.act_self]
      exact seated
    · rw [World.act_of_ne same]
      rw [List.length_append, List.length_singleton] at early
      rcases turn with last | ⟨rfl, rfl, -⟩
      · have := last.1
        have old := listed.of_append (by omega)
        apply ordered.seated k id old
        have : id ≠ order.length := by
          rintro rfl
          exact same (old.member_eq last)
        omega
      · have positive := listed.1
        obtain rfl : id = 1 := by
          rw [List.length_nil] at early
          omega
        exact absurd (listed.member_eq (Listed.append_self [] j)) same
  placed := by
    refine World.act_forall (p := g.Placed (order ++ [j])) placed fun k other ↦ ?_
    apply (ordered.placed k).append
    intro s seat last
    have listed := (ordered.placed k).seat s seat
    rcases turn with newest | ⟨rfl, -, -⟩
    · rw [last] at listed
      exact other (listed.member_eq newest)
    · exact absurd listed.mem List.not_mem_nil

/-- A move keeps the order or adds one member at its end. -/
theorem Ordered.act (sound : g.Sound w) (ordered : g.Ordered w order) (hears : w.Hears i cause)
    (move : Chain.Move kx cause (w.members i) said d) :
    ∃ order', order <+: order' ∧ g.Ordered (w.act i said d) order' := by
  have advances := move.advances (sound.coherent i)
  have placed := ordered.placed i
  have keep (placed : g.Placed order i d) :
      ∃ order', order <+: order' ∧ g.Ordered (w.act i said d) order' :=
    ⟨order, List.prefix_rfl, ordered.keep advances placed⟩
  cases move with
  | learn endpoint id value told =>
    apply keep
    unfold Chain.learn
    split
    · exact placed
    · refine { placed with
        directory := placed.directory_record (ordered.told sound hears told)
        own := fun seated ↦ ?_
        pending := fun p here ↦ placed.pending p (List.mem_of_mem_filter here) }
      obtain ⟨e, here, same⟩ := placed.own seated
      exact ⟨e, Directory.subset_record _ _ _ _ here, same⟩
  | confirm seen =>
    apply keep
    refine { placed with handOver := fun h handOver ↦ ?_, handedOver := fun s seat early ↦ ?_ }
    · obtain ⟨h', before, rfl⟩ := Option.map_eq_some_iff.mp handOver
      exact placed.handOver h' before
    · simpa [Chain.confirm] using placed.handedOver s seat early
  | enqueue service value source asked =>
    apply keep
    unfold Chain.enqueue
    split
    · exact placed
    · refine { placed with pending := fun p here ↦ ?_ }
      rcases List.mem_append.mp here with old | new
      · exact placed.pending p old
      · subst asked
        obtain ⟨j, -, rfl, own⟩ := sound.heard hears
        rw [List.mem_singleton.mp new, own, sound.keys]
        exact ⟨j, rfl⟩
  | forget pending part =>
    exact keep { placed with pending := fun p here ↦ placed.pending p (part.subset here) }
  | openGroup first chosen free =>
    have opens := sound.opener_of_chosen chosen
    have idle := (sound.coherent i).handOver_eq_none_of_free free
    have empty : order = [] := by
      by_contra other
      obtain ⟨j, listed⟩ := Listed.exists_member Nat.one_pos (List.length_pos_iff.mpr other)
      have seated := ordered.seated j 1 listed (.inl rfl)
      rw [ordered.opener j listed, ← opens, free] at seated
      cases seated
    subst empty
    have grown : g.Placed [i] i (w.members i) := placed.append i (by simp [free])
    have sits := grown.sit (s := (w.members i).openingSeat) (sound.endpoint i) (sound.keys i) idle
      (Listed.append_self [] i) rfl (Nat.le_refl 1)
    exact ⟨[i], List.nil_prefix, ordered.append advances g.size_pos List.not_mem_nil
      (.inr ⟨rfl, rfl, opens⟩) rfl sits⟩
  | takeSeat r source s named own value count free running granted =>
    subst named
    rw [sound.endpoint] at own
    have idle := (sound.coherent i).handOver_eq_none_of_free free
    have listed := ordered.listed_of_response sound hears own
    obtain ⟨root, rootPublic, -, -, rfl⟩ := Chain.firstSeat_eq_ok granted
    have last : order.length ≤ r.newSponsor.id.toNat := by
      by_contra early
      have seated := ordered.seated i _ listed (.inr (Nat.not_le.mp early))
      rw [free] at seated
      cases seated
    apply keep
    apply placed.sit (sound.endpoint i) (sound.keys i) idle
    · exact listed
    · rfl
    · exact last
  | resign s seat last => exact keep (placed.reseat seat rfl (placed.keys s seat))
  | enrol s new candidate rest before seat isOpen known queue unknown granted =>
    obtain ⟨j, rfl⟩ := placed.pending candidate (queue.subset (List.mem_cons_self ..))
    have fresh := ordered.not_mem_of_unknown sound seat isOpen known unknown
    obtain ⟨last, one, below⟩ := ordered.last_of_isOpen sound seat isOpen
    obtain ⟨tree, -, -, rfl⟩ := Chain.seatAfter_eq_ok granted
    have turn : Listed order i order.length := last ▸ placed.seat s seat
    have own : ((w.members i).responseFor (s.id + 1) ⟨g.endpoint j, g.publicValue j⟩
        before).predecessorPublic = g.publicValue i := congrArg KeyPair.publicValue (sound.keys i)
    exact ⟨order ++ [j], List.prefix_append _ _, ordered.append advances (last ▸ below) fresh
      (.inl turn) rfl (placed.enrol seat last rfl (congrArg Nat.succ one)
        (List.sublist_of_cons_sublist queue).subset rfl own)⟩
  | extend s value tree seat known room granted =>
    obtain ⟨e, entry, id, -⟩ := Directory.publicOf?_eq_some known
    obtain ⟨named, listed, -⟩ := placed.directory e entry
    rw [id] at listed
    exact keep (placed.reseat seat rfl ⟨Nat.succ_pos _, Nat.succ_le_succ listed.le_length⟩)
  | _ => exact keep { placed with }

/-! ## Wherever a group can get -/

theorem Reaches.ordered (reaches : g.Reaches kx w) : ∃ order, g.Ordered w order := by
  refine reaches.induction (P := fun v ↦ ∃ order, g.Ordered v order) ⟨[], g.ordered_world⟩
    (fun _ _ ⟨order, kept⟩ ↦ ⟨order, { kept with }⟩) ?_
  intro v i cause said d sound hears move ⟨order, ordered⟩
  obtain ⟨order', -, ordered'⟩ := ordered.act sound hears move
  exact ⟨order', ordered'⟩

/-- Wherever a group can get, the ids in use are the first ones and each has one holder, at most one
member can let others in, nobody is let in twice, only the heir of a member ever follows it, and all
directories are right. -/
theorem admission_in_order (reaches : g.Reaches kx w) :
    (∃ k ≤ g.size, ∀ id, (∃ i, (w.members i).memberId? = some id) ↔ 1 ≤ id ∧ id ≤ k) ∧
    (∀ i j id, (w.members i).memberId? = some id → (w.members j).memberId? = some id → i = j) ∧
    (∀ i j, (w.members i).isOpen → (w.members j).isOpen → i = j) ∧
    (∀ i id, (w.members i).memberId? = some id → g.AdmittedAs w i id) ∧
    (∀ i j e, (w.members i).heir? = some e → (w.members j).heir? = some e → i = j) ∧
    (∀ w', w.Leads kx w' → ∀ i e, (w.members i).heir? = some e →
      (w'.members i).heir? = some e ∧
      ∀ j id, (w.members i).memberId? = some id → (w'.members j).memberId? = some (id + 1) →
        g.endpoint j = e) ∧
    (∀ i e id, (w.members i).directory.idOf? e = some id →
      ∃ j, g.AdmittedAs w j id ∧ e = g.endpoint j) ∧
    (∀ i id value, (w.members i).directory.publicOf? id = some value →
      ∃ j, g.AdmittedAs w j id ∧ value = g.publicValue j) := by
  have sound := reaches.sound
  obtain ⟨order, ordered⟩ := reaches.ordered
  refine ⟨ordered.ids, ?_, ?_, ?_, ?_, ?_, ?_, ?_⟩
  · intro i j id here there
    exact (ordered.listed_of_memberId? here).member_eq (ordered.listed_of_memberId? there)
  · intro i j here there
    obtain ⟨s, seat⟩ := Chain.exists_seat_of_isOpen here
    obtain ⟨t, seat'⟩ := Chain.exists_seat_of_isOpen there
    obtain ⟨last, -⟩ := ordered.last_of_isOpen sound seat here
    obtain ⟨last', -⟩ := ordered.last_of_isOpen sound seat' there
    exact ordered.member_eq seat seat' (last.trans last'.symm)
  · intro i id named
    exact ordered.admittedAs_iff.mpr (ordered.listed_of_memberId? named)
  · intro i j e here there
    obtain ⟨s, k, seat, listed, rfl⟩ := ordered.listed_of_heir? here
    obtain ⟨t, l, seat', listed', same⟩ := ordered.listed_of_heir? there
    rw [← g.endpoint_injective same] at listed'
    have next := listed.id_eq ordered.nodup listed'
    exact ordered.member_eq seat seat' (by omega)
  · intro w' leads i e heir
    have advances := sound.advances leads i
    refine ⟨advances.heir?_eq heir, fun j id named next ↦ ?_⟩
    obtain ⟨order', ordered'⟩ := Reaches.ordered (reaches.trans leads)
    obtain ⟨s, k, seat, listed, rfl⟩ := ordered'.listed_of_heir? (advances.heir?_eq heir)
    have kept := advances.memberId?_eq named
    rw [Chain.memberId?, seat] at kept
    cases kept
    rw [(ordered'.listed_of_memberId? next).member_eq listed]
  · intro i e id found
    obtain ⟨entry, here, rfl, rfl⟩ := Directory.idOf?_eq_some found
    obtain ⟨j, listed, endpoint, -⟩ := (ordered.placed i).directory entry here
    exact ⟨j, ordered.admittedAs_iff.mpr listed, endpoint⟩
  · intro i id value found
    obtain ⟨entry, here, rfl, rfl⟩ := Directory.publicOf?_eq_some found
    obtain ⟨j, listed, -, value⟩ := (ordered.placed i).directory entry here
    exact ⟨j, ordered.admittedAs_iff.mpr listed, value⟩

theorem admission_in_order_trio : Trio.roster.Reaches Trio.exchange Trio.final ∧
    ∃ k ≤ 3, ∀ id, (∃ i, (Trio.final.members i).memberId? = some id) ↔ 1 ≤ id ∧ id ≤ k :=
  ⟨Trio.reaches, (admission_in_order Trio.reaches).1⟩

end Roster

end GroupKey
