import GroupKey.Proofs.AdmissionOrder
import Mathlib.Tactic.Choose

/-!
# Agreement on the group secret

The members reach the group secret on different ways: the opener starts from its own secret, a
newcomer agrees with the public value of the group before it, and everybody adds later values one
by one.  The order of admission alone decides which secret stands after which member, so all of
them meet.
-/

namespace GroupKey

variable {ι : Type}

/-- A stored public value that is right makes the public value of the root right. -/
theorem KeyTree.publicOf_rootSecret {kx : KeyExchange} {t : KeyTree} {value : PublicValue}
    (stored : ∀ other, t.head.rootPublic = some other → kx.publicOf t.rootSecret = .ok other)
    (known : t.rootPublic kx = .ok value) : kx.publicOf t.rootSecret = .ok value := by
  unfold KeyTree.rootPublic at known
  cases here : t.head.rootPublic with
  | none =>
    rw [here] at known
    exact known
  | some other =>
    rw [here] at known
    rw [stored other here]
    exact known

namespace Roster

variable {g : Roster ι} {kx : KeyExchange} {w w' : World ι} {i j k : ι} {cause : Input}
  {said : List Outgoing} {c d : Chain} {order order' : List ι}

/-- The group's secret after a number of admissions: first the opener's own, then what the secret
before and the newcomer's value agree on. -/
inductive Root (kx : KeyExchange) (g : Roster ι) (admitted : ι → Nat → Prop) : Nat → Secret → Prop
  | opener : Root kx g admitted 1 (g.keys g.opener).secret
  | next {n : Nat} {i : ι} {before after : Secret} (root : Root kx g admitted n before)
    (newcomer : admitted i (n + 1)) (agreed : kx.agree before (g.publicValue i) = .ok after) :
    Root kx g admitted (n + 1) after

namespace Root

variable {admitted admitted' : ι → Nat → Prop} {m n : Nat} {secret secret' : Secret}

theorem pos (root : Root kx g admitted n secret) : 0 < n := by
  cases root with
  | opener => exact Nat.one_pos
  | next => exact Nat.succ_pos _

theorem mono (grows : ∀ i n, admitted i n → admitted' i n) (root : Root kx g admitted n secret) :
    Root kx g admitted' n secret := by
  induction root with
  | opener => exact .opener
  | next _ newcomer agreed ih => exact .next ih (grows _ _ newcomer) agreed

/-- One newcomer for each id means one secret for each id. -/
theorem unique (alone : ∀ i j n, admitted i n → admitted j n → i = j)
    (here : Root kx g admitted n secret) (there : Root kx g admitted n secret') :
    secret = secret' := by
  induction here generalizing secret' with
  | opener =>
    cases there with
    | opener => rfl
    | next root => exact absurd root.pos (Nat.lt_irrefl 0)
  | next root newcomer agreed ih =>
    cases there with
    | opener => exact absurd root.pos (Nat.lt_irrefl 0)
    | next root' newcomer' agreed' =>
      rw [ih root', alone _ _ _ newcomer newcomer', agreed'] at agreed
      exact Except.ok.inj agreed.symm

/-- The secrets before a secret exist. -/
theorem earlier (root : Root kx g admitted n secret) (positive : 0 < m) (le : m ≤ n) :
    ∃ before, Root kx g admitted m before := by
  induction root with
  | opener =>
    obtain rfl : m = 1 := Nat.le_antisymm le positive
    exact ⟨_, .opener⟩
  | @next n i before after root newcomer agreed ih =>
    rcases Nat.le_succ_iff.mp le with early | rfl
    · exact ih early
    · exact ⟨after, .next root newcomer agreed⟩

end Root

/-- The secret at the head of a member's tree is the group's after the last value in the tree, and
the public value it hands over is that of the secret at its own admission. -/
structure Agreed (kx : KeyExchange) (g : Roster ι) (order : List ι) (c : Chain) : Prop where
  secret : ∀ s, c.seat = some s →
    Root kx g (Listed order) (s.id + s.keysComputed - 1) s.tree.rootSecret
  stored : ∀ s value, c.seat = some s → s.tree.head.rootPublic = some value →
    kx.publicOf s.tree.rootSecret = .ok value
  published : ∀ h, c.handOver = some h → ∃ s root, c.seat = some s ∧ 2 ≤ s.keysComputed ∧
    Root kx g (Listed order) s.id root ∧ kx.publicOf root = .ok h.response.groupPublic

theorem agreed_member (g : Roster ι) (i : ι) : Agreed kx g order (g.member i) where
  secret := by simp [member]
  stored := by simp [member]
  published := by simp [member]

theorem Agreed.mono (agreed : Agreed kx g order c) (grows : order <+: order') :
    Agreed kx g order' c where
  secret s seat := (agreed.secret s seat).mono fun _ _ ↦ Listed.mono grows
  stored := agreed.stored
  published h handOver := by
    obtain ⟨s, root, seat, two, known, same⟩ := agreed.published h handOver
    exact ⟨s, root, seat, two, known.mono fun _ _ ↦ Listed.mono grows, same⟩

theorem Agreed.rootPublic (agreed : Agreed kx g order c) {s : Seat} {value : PublicValue}
    (seat : c.seat = some s) (known : s.tree.rootPublic kx = .ok value) :
    kx.publicOf s.tree.rootSecret = .ok value :=
  KeyTree.publicOf_rootSecret (fun other ↦ agreed.stored s other seat) known

/-- The order of admission that the group is in, and everybody's agreement with it. -/
def InAgreement (kx : KeyExchange) (g : Roster ι) (w : World ι) (order : List ι) : Prop :=
  g.Ordered w order ∧ ∀ i, Agreed kx g order (w.members i)

/-- Every admission so far has its secret. -/
theorem InAgreement.root (agreement : InAgreement kx g w order) {id : Nat}
    (listed : Listed order i id) : ∃ secret, Root kx g (Listed order) id secret := by
  obtain ⟨ordered, agreed⟩ := agreement
  by_cases first : id = 1
  · subst first
    exact ⟨_, .opener⟩
  · obtain ⟨j, s, h, seat, next, handOver⟩ := ordered.predecessor listed first
    obtain ⟨t, -, same, two, -⟩ := (agreed j).published h handOver
    rw [seat] at same
    cases same
    exact ((agreed j).secret s seat).earlier listed.1 (by omega)

/-- Whoever is complete has the secret that stands after the last admission. -/
theorem InAgreement.groupSecret (sound : g.Sound w) (agreement : InAgreement kx g w order)
    {K : Secret} (known : (w.members i).groupSecret? = some K) :
    Root kx g (Listed order) g.size K := by
  obtain ⟨ordered, agreed⟩ := agreement
  obtain ⟨complete, s, seat, rfl⟩ := Chain.groupSecret?_eq_some.mp known
  obtain ⟨_, same, all⟩ := Chain.isComplete_iff.mp complete
  rw [seat] at same
  cases same
  rw [sound.size] at all
  have upper := ordered.id_le_size seat
  have last : s.id + s.keysComputed - 1 = g.size := by omega
  have root := (agreed i).secret s seat
  rwa [last] at root

/-! ## One move -/

theorem Agreed.reseat (agreed : Agreed kx g order c) {s new : Seat} (seat : c.seat = some s)
    (same : new.id = s.id) (more : s.keysComputed ≤ new.keysComputed)
    (secret : Root kx g (Listed order) (new.id + new.keysComputed - 1) new.tree.rootSecret)
    (stored : ∀ value, new.tree.head.rootPublic = some value →
      kx.publicOf new.tree.rootSecret = .ok value) :
    Agreed kx g order { c with seat := some new } where
  secret := by
    rintro _ ⟨⟩
    exact secret
  stored := by
    rintro _ value ⟨⟩ here
    exact stored value here
  published h handOver := by
    obtain ⟨_, root, before, two, known, published⟩ := agreed.published h handOver
    rw [seat] at before
    cases before
    rw [← same] at known
    exact ⟨new, root, rfl, Nat.le_trans two more, known, published⟩

theorem agreed_of_sit (idle : c.handOver = none) {s : Seat} {directory : Directory}
    (secret : Root kx g (Listed order) (s.id + s.keysComputed - 1) s.tree.rootSecret)
    (stored : ∀ value, s.tree.head.rootPublic = some value →
      kx.publicOf s.tree.rootSecret = .ok value) :
    Agreed kx g order { c with seat := some s, directory } where
  secret := by
    rintro _ ⟨⟩
    exact secret
  stored := by
    rintro _ value ⟨⟩ here
    exact stored value here
  published := by simp [idle]

/-- A newcomer computes the secret from its side, and the group's secret is defined from the
other. -/
theorem root_of_response (commutes : kx.Commutes) (matched : g.KeysMatch kx) (sound : g.Sound w)
    (ordered : g.Ordered w order) (agreed : ∀ j, Agreed kx g order (w.members j)) {r : Response}
    {source : Endpoint} (hears : w.Hears i (.message (.response r) source))
    (own : r.newSponsor.endpoint = g.endpoint i) {secret : Secret}
    (granted : kx.agree (g.keys i).secret r.groupPublic = .ok secret) :
    Root kx g (Listed order) r.newSponsor.id.toNat secret := by
  have listed := ordered.listed_of_response sound hears own
  obtain ⟨j, -, -, vouches⟩ := sound.heard hears
  obtain ⟨s, -, seat, -, -, id, -⟩ := ordered.response vouches
  obtain ⟨h, handOver, rfl⟩ := vouches
  obtain ⟨_, root, same, -, known, published⟩ := (agreed j).published h handOver
  rw [seat] at same
  cases same
  rw [id] at listed ⊢
  have met : kx.agree root (g.publicValue i) = .ok secret := by
    rw [← commutes _ _ _ _ (matched i) published]
    exact granted
  exact .next known listed met

theorem Agreed.act (commutes : kx.Commutes) (matched : g.KeysMatch kx) (sound : g.Sound w)
    (ordered : g.Ordered w order) (agreed : ∀ j, Agreed kx g order (w.members j))
    (hears : w.Hears i cause) (move : Chain.Move kx cause (w.members i) said d)
    (grows : order <+: order') (placed : g.Placed order' i d) : Agreed kx g order' d := by
  have before := (agreed i).mono grows
  cases move with
  | learn endpoint id value =>
    obtain ⟨_, _, frame⟩ := Chain.learn_frame (w.members i) endpoint id value
    rw [frame]
    exact { before with }
  | confirm =>
    refine { before with published := fun h handOver ↦ ?_ }
    obtain ⟨h', old, rfl⟩ := Option.map_eq_some_iff.mp handOver
    exact before.published h' old
  | enqueue service value source =>
    obtain ⟨_, frame⟩ := Chain.enqueue_frame (w.members i) ⟨source, value⟩
    rw [frame]
    exact { before with }
  | openGroup first chosen free =>
    have opens := sound.opener_of_chosen chosen
    have secret : (w.members i).openingSeat.tree.rootSecret = (g.keys i).secret :=
      congrArg KeyPair.secret (sound.keys i)
    apply agreed_of_sit ((sound.coherent i).handOver_eq_none_of_free free)
    · rw [secret, opens]
      exact .opener
    · rintro _ ⟨⟩
      rw [secret, sound.keys]
      exact matched i
  | takeSeat r source s named own value count free running granted =>
    subst named
    rw [sound.endpoint] at own
    obtain ⟨secret, rootPublic, agreed_, public_, rfl⟩ := Chain.firstSeat_eq_ok granted
    rw [sound.keys] at agreed_
    have root := root_of_response commutes matched sound ordered agreed hears own agreed_
    apply agreed_of_sit ((sound.coherent i).handOver_eq_none_of_free free)
    · exact root.mono fun _ _ ↦ Listed.mono grows
    · rintro _ ⟨⟩
      exact public_
  | resign s seat last =>
    exact before.reseat seat rfl (Nat.le_refl _) (before.secret s seat)
      fun value ↦ before.stored s value seat
  | enrol s new candidate rest value seat isOpen known queue unknown granted =>
    obtain ⟨tree, public_, extended, rfl⟩ := Chain.seatAfter_eq_ok granted
    obtain ⟨secret, agreed_, rfl⟩ := KeyTree.extend_silent_eq_ok extended
    obtain ⟨-, one, -⟩ := ordered.last_of_isOpen sound seat isOpen
    obtain ⟨_, j, same, listed, named, -⟩ := placed.handOver _ rfl
    cases same
    have root := before.secret s seat
    rw [one, Nat.add_sub_cancel] at root
    have value_eq : candidate.publicValue = g.publicValue j :=
      congrArg NewSponsor.publicValue named
    rw [value_eq] at agreed_
    refine ⟨?_, ?_, ?_⟩
    · rintro _ ⟨⟩
      rw [one]
      exact .next root listed agreed_
    · rintro _ _ ⟨⟩ ⟨⟩
    · rintro _ ⟨⟩
      exact ⟨_, s.tree.rootSecret, rfl, Nat.succ_le_succ (Nat.le_of_eq one.symm), root,
        before.rootPublic seat public_⟩
  | extend s value tree seat known room granted =>
    obtain ⟨secret, agreed_, rfl⟩ := KeyTree.extend_silent_eq_ok granted
    obtain ⟨e, entry, id, rfl⟩ := Directory.publicOf?_eq_some known
    obtain ⟨j, listed, -, value_eq⟩ := (ordered.placed i).directory e entry
    obtain ⟨positive, -⟩ := (ordered.placed i).keys s seat
    have next : s.id + (s.keysComputed + 1) - 1 = s.id + s.keysComputed - 1 + 1 := by omega
    rw [value_eq] at agreed_
    refine before.reseat seat rfl (Nat.le_succ _) ?_ (by rintro _ ⟨⟩)
    rw [next]
    refine .next (before.secret s seat) ?_ agreed_
    rw [Nat.sub_add_cancel (by omega), ← id]
    exact listed.mono grows
  | _ => exact { before with }

variable [DecidableEq ι]

theorem InAgreement.act (commutes : kx.Commutes) (matched : g.KeysMatch kx) (sound : g.Sound w)
    (agreement : InAgreement kx g w order) (hears : w.Hears i cause)
    (move : Chain.Move kx cause (w.members i) said d) :
    ∃ order', InAgreement kx g (w.act i said d) order' := by
  obtain ⟨ordered, agreed⟩ := agreement
  obtain ⟨order', grows, ordered'⟩ := ordered.act sound hears move
  have placed := ordered'.placed i
  rw [World.act_self] at placed
  have here := Agreed.act commutes matched sound ordered agreed hears move grows placed
  exact ⟨order', ordered', World.act_forall (p := fun _ ↦ Agreed kx g order') here
    fun j _ ↦ (agreed j).mono grows⟩

theorem Reaches.inAgreement (commutes : kx.Commutes) (matched : g.KeysMatch kx)
    (reaches : g.Reaches kx w) : ∃ order, InAgreement kx g w order := by
  refine reaches.induction (P := fun v ↦ ∃ order, InAgreement kx g v order)
    ⟨[], g.ordered_world, fun i ↦ g.agreed_member i⟩
    (fun _ _ ⟨order, ordered, agreed⟩ ↦ ⟨order, { ordered with }, agreed⟩) ?_
  intro v i cause said d sound hears move ⟨order, agreement⟩
  exact agreement.act commutes matched sound hears move

/-! ## Agreement in every run -/

theorem AdmittedAs.leads (sound : g.Sound w) (leads : w.Leads kx w') {id : Nat}
    (admitted : g.AdmittedAs w i id) : g.AdmittedAs w' i id := by
  rcases admitted with ⟨first, opens, seated⟩ | ⟨j, s, seat, next, heir⟩
  · exact .inl ⟨first, opens, (sound.advances leads i).isSome_seat seated⟩
  · obtain ⟨s', seat', same, -⟩ := (sound.advances leads j).seat s seat
    rw [← same] at next
    exact .inr ⟨j, s', seat', next, (sound.advances leads j).heir?_eq heir⟩

/-- In every run there is one secret after each admission, whatever the order in which messages and
deadlines come.  All trees stand at the secret of their newest value, so whoever reports a group
secret reports the last of these, and goes on reporting it. -/
theorem one_secret_in_every_run (commutes : kx.Commutes) (matched : g.KeysMatch kx)
    {run : Nat → World ι} (runs : g.Runs kx run) :
    ∃ root : Nat → Secret,
      (∀ n i, ((run n).members i).groupSecret? = none ∨
        ((run n).members i).groupSecret? = some (root g.size)) ∧
      (∀ m n i, m ≤ n → ((run m).members i).groupSecret? = some (root g.size) →
        ((run n).members i).groupSecret? = some (root g.size)) ∧
      (∀ n i s, ((run n).members i).seat = some s →
        s.tree.rootSecret = root (s.id + s.keysComputed - 1)) ∧
      root 1 = (g.keys g.opener).secret ∧
      ∀ n i j, 1 ≤ j → g.AdmittedAs (run n) i (j + 1) →
        kx.agree (root j) (g.publicValue i) = .ok (root (j + 1)) := by
  have sound (n : Nat) : g.Sound (run n) := (runs.reaches n).sound
  choose order agreement using fun n ↦ (runs.reaches n).inAgreement commutes matched
  -- An admission in one state is one in all later states, so the run as a whole has one newcomer
  -- for each id.
  let admitted (i : ι) (id : Nat) : Prop := ∃ n, g.AdmittedAs (run n) i id
  have alone (i j : ι) (id : Nat) (here : admitted i id) (there : admitted j id) : i = j := by
    obtain ⟨m, here⟩ := here
    obtain ⟨n, there⟩ := there
    have ordered := (agreement (max m n)).1
    have left := here.leads (sound m) (runs.leads (Nat.le_max_left m n))
    have right := there.leads (sound n) (runs.leads (Nat.le_max_right m n))
    exact (ordered.admittedAs_iff.mp left).member_eq (ordered.admittedAs_iff.mp right)
  have lift {n id : Nat} {secret : Secret} (root : Root kx g (Listed (order n)) id secret) :
      Root kx g admitted id secret :=
    root.mono fun i id listed ↦ ⟨n, (agreement n).1.admittedAs_iff.mpr listed⟩
  have chosen (id : Nat) : ∃ secret, ∀ other, Root kx g admitted id other → other = secret := by
    by_cases known : ∃ secret, Root kx g admitted id secret
    · obtain ⟨secret, root⟩ := known
      exact ⟨secret, fun other there ↦ there.unique alone root⟩
    · exact ⟨(g.keys g.opener).secret, fun other there ↦ absurd ⟨other, there⟩ known⟩
  choose root root_eq using chosen
  have reported {n : Nat} {i : ι} {K : Secret}
      (known : ((run n).members i).groupSecret? = some K) : K = root g.size :=
    root_eq _ _ (lift ((agreement n).groupSecret (sound n) known))
  refine ⟨root, ?_, ?_, ?_, ?_, ?_⟩
  · intro n i
    cases known : ((run n).members i).groupSecret? with
    | none => exact .inl rfl
    | some K => exact .inr (by rw [reported known])
  · intro m n i later known
    have complete := (Chain.groupSecret?_eq_some.mp known).1
    have advances := (sound m).advances (runs.leads later) i
    have still := (agreement n).1.isComplete (sound n) advances complete
    obtain ⟨K, found⟩ := Option.isSome_iff_exists.mp (Chain.isSome_groupSecret?.mpr still)
    rw [found, reported found]
  · intro n i s seat
    exact root_eq _ _ (lift (((agreement n).2 i).secret s seat))
  · exact (root_eq _ _ .opener).symm
  · intro n i j positive newcomer
    have listed := (agreement n).1.admittedAs_iff.mp newcomer
    obtain ⟨after, there⟩ := (agreement n).root listed
    cases there with
    | opener => exact absurd positive (Nat.not_succ_le_zero 0)
    | next before listed' agreed =>
      rw [← listed.member_eq listed'] at agreed
      rw [← root_eq _ _ (lift before), ← root_eq _ _ (lift (.next before listed agreed))]
      exact agreed

theorem one_secret_in_trio : ∃ K, ∀ i, (Trio.final.members i).groupSecret? = some K := by
  have runs := runs_play Trio.admits
  obtain ⟨root, reported, -⟩ := one_secret_in_every_run Trio.commutes Trio.keysMatch runs
  have known : ∀ i, (Trio.final.members i).groupSecret? ≠ none := by
    decide +kernel
  refine ⟨root 3, fun i ↦ ?_⟩
  have here := reported Trio.script.length i
  rw [List.take_length] at here
  exact here.resolve_left (known i)

end Roster

end GroupKey
