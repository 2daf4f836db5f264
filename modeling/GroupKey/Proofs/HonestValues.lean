import GroupKey.Proofs.Agreement

/-!
# Honest values

Members that follow the protocol only ever compute with secrets that grew out of their own ones.  A
key exchange that does not fail on these can be relied on wherever a group can get, whether or not
both sides of an exchange arrive at the same secret.
-/

namespace GroupKey.Roster

variable {ι : Type} {g : Roster ι} {kx : KeyExchange} {w : World ι} {i j : ι} {cause : Input}
  {said : List Outgoing} {c d : Chain} {order : List ι}

/-- The secrets that members start from, and what these secrets agree on. -/
inductive Honest (kx : KeyExchange) (g : Roster ι) : Secret → Prop
  | own (i : ι) : Honest kx g (g.keys i).secret
  | agreed {a b met : Secret} {value : PublicValue} (here : Honest kx g a) (there : Honest kx g b)
    (published : kx.publicOf b = .ok value) (agrees : kx.agree a value = .ok met) :
    Honest kx g met

/-- No agreement of honest secrets fails. -/
def Dependable (kx : KeyExchange) (g : Roster ι) : Prop :=
  ∀ a b value, Honest kx g a → Honest kx g b → kx.publicOf b = .ok value →
    ∃ met, kx.agree a value = .ok met

/-! ## What members compute -/

/-- A member's secret is honest, and so is the one whose public value it hands over. -/
structure Genuine (kx : KeyExchange) (g : Roster ι) (c : Chain) : Prop where
  secret : ∀ s, c.seat = some s → Honest kx g s.tree.rootSecret
  stored : ∀ s value, c.seat = some s → s.tree.head.rootPublic = some value →
    kx.publicOf s.tree.rootSecret = .ok value
  published : ∀ h, c.handOver = some h → ∃ root, Honest kx g root ∧
    kx.publicOf root = .ok h.response.groupPublic

theorem genuine_member (g : Roster ι) (i : ι) : Genuine kx g (g.member i) where
  secret := by simp [member]
  stored := by simp [member]
  published := by simp [member]

theorem Genuine.sit (genuine : Genuine kx g c) {s : Seat} (secret : Honest kx g s.tree.rootSecret)
    (stored : ∀ value, s.tree.head.rootPublic = some value →
      kx.publicOf s.tree.rootSecret = .ok value) (directory : Directory) :
    Genuine kx g { c with seat := some s, directory } where
  secret := by
    rintro _ ⟨⟩
    exact secret
  stored := by
    rintro _ value ⟨⟩ here
    exact stored value here
  published := genuine.published

/-- A value of somebody else extends an honest secret to an honest secret. -/
theorem Honest.extend (matched : g.KeysMatch kx) {tree extended : KeyTree} {value : PublicValue}
    (root : Honest kx g tree.rootSecret) (own : value = g.publicValue j)
    (granted : tree.extend kx value false = .ok extended) :
    Honest kx g extended.rootSecret ∧ extended.head.rootPublic = none := by
  obtain ⟨met, agrees, rfl⟩ := KeyTree.extend_silent_eq_ok granted
  rw [own] at agrees
  exact ⟨.agreed root (.own j) (matched j) agrees, rfl⟩

theorem Genuine.act (matched : g.KeysMatch kx) (sound : g.Sound w) (ordered : g.Ordered w order)
    (genuine : ∀ j, Genuine kx g (w.members j)) (hears : w.Hears i cause)
    (move : Chain.Move kx cause (w.members i) said d) : Genuine kx g d := by
  have before := genuine i
  cases move with
  | learn endpoint id value =>
    obtain ⟨_, _, frame⟩ := Chain.learn_frame (w.members i) endpoint id value
    rw [frame]
    exact { before with }
  | confirm =>
    refine { before with published := fun h handOver ↦ ?_ }
    obtain ⟨h', old, rfl⟩ := Option.map_eq_some_iff.mp handOver
    exact before.published h' old
  | enqueue service value source =>
    obtain ⟨_, frame⟩ := Chain.enqueue_frame (w.members i) ⟨source, value⟩
    rw [frame]
    exact { before with }
  | openGroup first chosen free =>
    have secret : (w.members i).openingSeat.tree.rootSecret = (g.keys i).secret :=
      congrArg KeyPair.secret (sound.keys i)
    refine before.sit ?_ ?_ _
    · rw [secret]
      exact .own i
    · rintro _ ⟨⟩
      rw [secret, sound.keys]
      exact matched i
  | takeSeat r source s named own value count free running granted =>
    subst named
    obtain ⟨secret, rootPublic, agrees, published, rfl⟩ := Chain.firstSeat_eq_ok granted
    obtain ⟨j, -, -, vouches⟩ := sound.heard hears
    obtain ⟨h, handOver, rfl⟩ := vouches
    obtain ⟨root, honest, public_⟩ := (genuine j).published h handOver
    rw [sound.keys] at agrees
    refine before.sit ?_ ?_ _
    · exact .agreed (.own i) honest public_ agrees
    · rintro _ ⟨⟩
      exact published
  | resign s seat last =>
    refine before.sit ?_ ?_ _
    · exact before.secret s seat
    · exact fun value ↦ before.stored s value seat
  | enrol s new candidate rest value seat isOpen known queue unknown granted =>
    obtain ⟨tree, public_, extended, rfl⟩ := Chain.seatAfter_eq_ok granted
    obtain ⟨j, rfl⟩ := (ordered.placed i).pending candidate (queue.subset (List.mem_cons_self ..))
    have root := before.secret s seat
    obtain ⟨honest, fresh⟩ := root.extend matched rfl extended
    refine ⟨?_, ?_, ?_⟩
    · rintro _ ⟨⟩
      exact honest
    · rintro _ other ⟨⟩ here
      rw [fresh] at here
      cases here
    · rintro _ ⟨⟩
      refine ⟨s.tree.rootSecret, root, ?_⟩
      exact KeyTree.publicOf_rootSecret (fun other ↦ before.stored s other seat) public_
  | extend s value tree seat known room granted =>
    obtain ⟨e, entry, -, rfl⟩ := Directory.publicOf?_eq_some known
    obtain ⟨j, -, -, own⟩ := (ordered.placed i).directory e entry
    obtain ⟨honest, fresh⟩ := (before.secret s seat).extend matched own granted
    refine before.sit honest ?_ _
    intro other here
    rw [fresh] at here
    cases here
  | _ => exact { before with }

/-- The key exchange accepts whatever a member has recorded. -/
theorem Ordered.agrees (ordered : g.Ordered w order) (matched : g.KeysMatch kx)
    (dependable : g.Dependable kx) {e : DirectoryEntry}
    (entry : e ∈ (w.members i).directory.entries) {a : Secret} (honest : Honest kx g a) :
    ∃ met, kx.agree a e.publicValue = .ok met ∧ Honest kx g met := by
  obtain ⟨j, -, -, own⟩ := (ordered.placed i).directory e entry
  obtain ⟨met, agrees⟩ := dependable a _ _ honest (.own j) (matched j)
  rw [own]
  exact ⟨met, agrees, .agreed honest (.own j) (matched j) agrees⟩

variable [DecidableEq ι]

theorem Reaches.genuine (matched : g.KeysMatch kx) (reaches : g.Reaches kx w) :
    ∀ i, Genuine kx g (w.members i) := by
  suffices both : (∃ order, g.Ordered w order) ∧ ∀ i, Genuine kx g (w.members i) from both.2
  refine reaches.induction
    (P := fun v ↦ (∃ order, g.Ordered v order) ∧ ∀ i, Genuine kx g (v.members i))
    ⟨⟨[], g.ordered_world⟩, g.genuine_member⟩ ?_ ?_
  · intro v i input ⟨⟨order, ordered⟩, genuine⟩
    exact ⟨⟨order, { ordered with }⟩, genuine⟩
  · intro v i cause said d sound hears move ⟨⟨order, ordered⟩, genuine⟩
    obtain ⟨order', -, ordered'⟩ := ordered.act sound hears move
    refine ⟨⟨order', ordered'⟩, World.act_forall (p := fun _ ↦ Genuine kx g) ?_ ?_⟩
    · exact Genuine.act matched sound ordered genuine hears move
    · exact fun j _ ↦ genuine j

end GroupKey.Roster
