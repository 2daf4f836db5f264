import GroupKey.Proofs.Reactions

/-!
# What moves keep

A member never takes back what it has done: its seat, the keys it has computed, its hand-over and
its part in the token round only grow.  So a message stays true of its sender once it was sent.
-/

namespace GroupKey.Chain

variable {kx : KeyExchange} {cause : Input} {c d e : Chain} {said : List Outgoing}

theorem memberId?_of_seat {s : Seat} (seat : c.seat = some s) : c.memberId? = some s.id := by
  rw [memberId?, seat, Option.map_some]

theorem isClosing_of_farewells {acks : List Endpoint} (farewells : c.farewells = some acks) :
    c.isClosing := by
  rw [isClosing, farewells, Option.isSome_some]

/-- Only members let anybody in. -/
theorem exists_seat_of_isOpen (isOpen : c.isOpen) : ∃ s, c.seat = some s := by
  cases seat : c.seat with
  | none => simp [Chain.isOpen, seat] at isOpen
  | some s => exact ⟨s, rfl⟩

/-- What holds in every state of a member, whatever it receives. -/
structure Coherent (c : Chain) : Prop where
  handedOver : c.handOver.isSome → ∃ s, c.seat = some s ∧ s.sponsor = false
  armed : c.agenda.isArmed .synchToken → c.token.passed
  taken : c.token.taken → c.token.passed

/-- Whoever handed over had a seat to hand over. -/
theorem Coherent.handOver_eq_none_of_free (coherent : c.Coherent) (free : c.seat = none) :
    c.handOver = none := by
  cases handOver : c.handOver with
  | none => rfl
  | some h =>
    obtain ⟨s, seat, -⟩ := coherent.handedOver (by simp [handOver])
    rw [free] at seat
    cases seat

/-- Whoever still lets somebody in has not handed over. -/
theorem Coherent.handOver_eq_none (coherent : c.Coherent) (isOpen : c.isOpen) :
    c.handOver = none := by
  cases handOver : c.handOver with
  | none => rfl
  | some h =>
    obtain ⟨s, seat, idle⟩ := coherent.handedOver (by simp [handOver])
    simp [Chain.isOpen, seat, idle] at isOpen

/-- Whoever handed its role over keeps its seat and stays without the role. -/
theorem Move.handedOver (move : Move kx cause c said d)
    (resigned : c.handOver.isSome → ∃ s, c.seat = some s ∧ s.sponsor = false) :
    d.handOver.isSome → ∃ s, d.seat = some s ∧ s.sponsor = false := by
  cases move with
  | learn endpoint id value =>
    obtain ⟨_, _, frame⟩ := learn_frame c endpoint id value
    rw [frame]
    exact resigned
  | enqueue service value source =>
    obtain ⟨_, frame⟩ := enqueue_frame c ⟨source, value⟩
    rw [frame]
    exact resigned
  | confirm =>
    refine fun some_ ↦ resigned ?_
    simpa [Chain.confirm] using some_
  | openGroup _ _ free | takeSeat _ _ _ _ _ _ _ free =>
    intro some_
    obtain ⟨s, seat, -⟩ := resigned some_
    rw [free] at seat
    cases seat
  | resign s => exact fun _ ↦ ⟨_, rfl, rfl⟩
  | enrol s new candidate rest before seat isOpen known queue unknown granted =>
    obtain ⟨tree, -, -, rfl⟩ := seatAfter_eq_ok granted
    exact fun _ ↦ ⟨_, rfl, rfl⟩
  | extend s value tree seat =>
    intro some_
    obtain ⟨other, same, idle⟩ := resigned some_
    rw [seat] at same
    cases same
    exact ⟨_, rfl, idle⟩
  | _ => exact resigned

/-- A token is repeated only after it was passed on, and no move takes that back. -/
theorem Coherent.move (coherent : c.Coherent) (move : Move kx cause c said d) : d.Coherent := by
  have handedOver := move.handedOver coherent.handedOver
  have token : (d.agenda.isArmed .synchToken → d.token.passed) ∧
      (d.token.taken → d.token.passed) := by
    obtain ⟨-, armed, taken⟩ := coherent
    cases move with
    | plan agenda grounds => exact ⟨fun here ↦ (grounds _ here).elim armed id, taken⟩
    | learn endpoint id value =>
      obtain ⟨_, _, frame⟩ := learn_frame c endpoint id value
      rw [frame]
      exact ⟨armed, taken⟩
    | enqueue service value source =>
      obtain ⟨_, frame⟩ := enqueue_frame c ⟨source, value⟩
      rw [frame]
      exact ⟨armed, taken⟩
    | pass => exact ⟨fun _ ↦ rfl, fun _ ↦ rfl⟩
    | seeTaken passed => exact ⟨armed, fun _ ↦ passed⟩
    | _ => exact ⟨armed, taken⟩
  exact ⟨handedOver, token.1, token.2⟩

theorem isComplete_iff :
    c.isComplete ↔ ∃ s, c.seat = some s ∧ s.keysComputed = c.size - s.id + 1 := by
  cases seat : c.seat <;> simp [isComplete, seat]

/-- The group secret is the root of a tree that has every contribution. -/
theorem groupSecret?_eq_some {K : Secret} :
    c.groupSecret? = some K ↔
      c.isComplete ∧ ∃ s, c.seat = some s ∧ s.tree.rootSecret = K := by
  by_cases complete : c.isComplete <;> simp [groupSecret?, complete, tree?]

theorem isSome_groupSecret? : c.groupSecret?.isSome ↔ c.isComplete := by
  constructor
  · intro known
    obtain ⟨K, found⟩ := Option.isSome_iff_exists.mp known
    exact (groupSecret?_eq_some.mp found).1
  · intro complete
    obtain ⟨s, seat, -⟩ := isComplete_iff.mp complete
    rw [groupSecret?_eq_some.mpr ⟨complete, s, seat, rfl⟩]
    rfl

/-! ## Growth -/

/-- One state of a member may come after another. -/
structure Advances (c d : Chain) : Prop where
  config : d.config = c.config
  endpoint : d.endpoint = c.endpoint
  keys : d.keys = c.keys
  seat : ∀ s, c.seat = some s →
    ∃ s', d.seat = some s' ∧ s'.id = s.id ∧ s.keysComputed ≤ s'.keysComputed
  handOver : ∀ h, c.handOver = some h →
    ∃ h', d.handOver = some h' ∧ h'.response = h.response ∧ (h.confirmed → h'.confirmed)
  held : c.token.held → d.token.held
  passed : c.token.passed → d.token.passed
  taken : c.token.taken → d.token.taken
  closing : c.isClosing → d.isClosing
  finished : c.finished → d.finished

theorem Advances.refl (c : Chain) : Advances c c :=
  ⟨rfl, rfl, rfl, fun s seat ↦ ⟨s, seat, rfl, Nat.le_refl _⟩, fun h some_ ↦ ⟨h, some_, rfl, id⟩,
    id, id, id, id, id⟩

/-- Growth adds up, since each field only says what stays. -/
theorem Advances.trans (first : Advances c d) (second : Advances d e) : Advances c e where
  config := second.config.trans first.config
  endpoint := second.endpoint.trans first.endpoint
  keys := second.keys.trans first.keys
  seat s seat := by
    obtain ⟨s', seat', id', keys'⟩ := first.seat s seat
    obtain ⟨s'', seat'', id'', keys''⟩ := second.seat s' seat'
    exact ⟨s'', seat'', id''.trans id', Nat.le_trans keys' keys''⟩
  handOver h handOver := by
    obtain ⟨h', handOver', same', confirmed'⟩ := first.handOver h handOver
    obtain ⟨h'', handOver'', same'', confirmed''⟩ := second.handOver h' handOver'
    exact ⟨h'', handOver'', same''.trans same', confirmed'' ∘ confirmed'⟩
  held := second.held ∘ first.held
  passed := second.passed ∘ first.passed
  taken := second.taken ∘ first.taken
  closing := second.closing ∘ first.closing
  finished := second.finished ∘ first.finished

theorem Advances.isSome_seat (advances : Advances c d) (seated : c.seat.isSome) :
    d.seat.isSome := by
  obtain ⟨s, seat⟩ := Option.isSome_iff_exists.mp seated
  obtain ⟨s', seat', -⟩ := advances.seat s seat
  simp [seat']

theorem Advances.memberId?_eq (advances : Advances c d) {id : Nat}
    (named : c.memberId? = some id) : d.memberId? = some id := by
  obtain ⟨s, seat, rfl⟩ := Option.map_eq_some_iff.mp named
  obtain ⟨s', seat', same, -⟩ := advances.seat s seat
  rw [memberId?, seat', Option.map_some, same]

/-- The heir is chosen once. -/
theorem Advances.heir?_eq (advances : Advances c d) {e : Endpoint} (heir : c.heir? = some e) :
    d.heir? = some e := by
  obtain ⟨h, handOver, rfl⟩ := Option.map_eq_some_iff.mp heir
  obtain ⟨h', handOver', same, -⟩ := advances.handOver h handOver
  rw [heir?, handOver', Option.map_some, same]

/-- The configuration is fixed when the member is created. -/
theorem Move.config_eq (move : Move kx cause c said d) : d.config = c.config := by
  cases move with
  | learn endpoint id value =>
    obtain ⟨_, _, frame⟩ := learn_frame c endpoint id value
    rw [frame]
  | enqueue service value source =>
    obtain ⟨_, frame⟩ := enqueue_frame c ⟨source, value⟩
    rw [frame]
  | _ => rfl

/-- A member keeps its position, and its keys do not get fewer. -/
theorem Move.reseats (move : Move kx cause c said d) {s : Seat} (seat : c.seat = some s) :
    ∃ s', d.seat = some s' ∧ s'.id = s.id ∧ s.keysComputed ≤ s'.keysComputed := by
  have same : ∃ s', c.seat = some s' ∧ s'.id = s.id ∧ s.keysComputed ≤ s'.keysComputed :=
    ⟨s, seat, rfl, Nat.le_refl _⟩
  cases move with
  | learn endpoint id value =>
    obtain ⟨_, _, frame⟩ := learn_frame c endpoint id value
    rw [frame]
    exact same
  | enqueue service value source =>
    obtain ⟨_, frame⟩ := enqueue_frame c ⟨source, value⟩
    rw [frame]
    exact same
  | openGroup _ _ free | takeSeat _ _ _ _ _ _ _ free =>
    rw [free] at seat
    cases seat
  | resign _ here =>
    cases seat.symm.trans here
    exact ⟨_, rfl, rfl, Nat.le_refl _⟩
  | enrol _ _ _ _ _ here _ _ _ _ granted =>
    obtain ⟨tree, -, -, rfl⟩ := seatAfter_eq_ok granted
    cases seat.symm.trans here
    exact ⟨_, rfl, rfl, Nat.le_succ _⟩
  | extend _ _ _ here =>
    cases seat.symm.trans here
    exact ⟨_, rfl, rfl, Nat.le_succ _⟩
  | _ => exact same

/-- Every move of a coherent member is growth. -/
theorem Move.advances (move : Move kx cause c said d) (coherent : c.Coherent) : Advances c d := by
  have same : Advances c { d with
      config := c.config, endpoint := c.endpoint, keys := c.keys, handOver := c.handOver
      token := c.token, farewells := c.farewells, finished := c.finished } :=
    { Advances.refl c with seat := fun _ ↦ move.reseats }
  cases move with
  | learn endpoint id value =>
    obtain ⟨_, _, frame⟩ := learn_frame c endpoint id value
    rw [frame]
    exact { Advances.refl c with }
  | confirm =>
    refine { same with handOver := fun h handOver ↦ ⟨{ h with confirmed := true }, ?_, rfl, ?_⟩ }
    · simp [Chain.confirm, handOver]
    · simp
  | enqueue service value source =>
    obtain ⟨_, frame⟩ := enqueue_frame c ⟨source, value⟩
    rw [frame]
    exact { Advances.refl c with }
  | enrol _ _ _ _ _ _ isOpen =>
    exact { same with handOver := by simp [coherent.handOver_eq_none isOpen] }
  | hold => exact { same with held := fun _ ↦ rfl }
  | pass => exact { same with passed := fun _ ↦ rfl }
  | seeTaken => exact { same with taken := fun _ ↦ rfl }
  | close => exact { same with closing := fun _ ↦ rfl }
  | acknowledge => exact { same with closing := fun _ ↦ rfl }
  | finish => exact { same with finished := fun _ ↦ rfl }
  | bowOut => exact { same with finished := fun _ ↦ rfl }
  | _ => exact { same with }

/-- A hand-over is made, or confirmed by evidence, or left alone. -/
theorem Move.handOver_cases (move : Move kx cause c said d) :
    d.handOver = c.handOver ∨ (c.SeesHandOver cause ∧ d.handOver = c.confirm.handOver) ∨
      ∃ r, d.handOver = some { response := r } := by
  cases move with
  | learn endpoint id value =>
    obtain ⟨_, _, frame⟩ := learn_frame c endpoint id value
    rw [frame]
    exact .inl rfl
  | enqueue service value source =>
    obtain ⟨_, frame⟩ := enqueue_frame c ⟨source, value⟩
    rw [frame]
    exact .inl rfl
  | confirm seen => exact .inr (.inl ⟨seen, rfl⟩)
  | enrol => exact .inr (.inr ⟨_, rfl⟩)
  | _ => exact .inl rfl

/-- The three marks of the token are made one at a time, each with its reason. -/
theorem Move.token_cases (move : Move kx cause c said d) :
    d.token = c.token ∨
      (∃ target source s, cause = .message (.token target) source ∧ c.seat = some s ∧
        target.toNat = s.id ∧ d.token = { c.token with held := true }) ∨
      (∃ s, c.seat = some s ∧ c.isComplete ∧ (c.token.held ∨ c.size ≤ s.id) ∧
        d.token = { c.token with passed := true }) ∨
      (c.token.passed ∧ c.SeesToken cause ∧ d.token = { c.token with taken := true }) := by
  cases move with
  | learn endpoint id value =>
    obtain ⟨_, _, frame⟩ := learn_frame c endpoint id value
    rw [frame]
    exact .inl rfl
  | enqueue service value source =>
    obtain ⟨_, frame⟩ := enqueue_frame c ⟨source, value⟩
    rw [frame]
    exact .inl rfl
  | hold target source s sent seat own =>
    exact .inr (.inl ⟨target, source, s, sent, seat, own, rfl⟩)
  | pass s seat complete turn => exact .inr (.inr (.inl ⟨s, seat, complete, turn, rfl⟩))
  | seeTaken passed seen => exact .inr (.inr (.inr ⟨passed, seen, rfl⟩))
  | _ => exact .inl rfl

/-- What a move does to the end of the run: nothing, or it opens the farewells, writes one down, or
ends the run with or without them. -/
theorem Move.end_cases (move : Move kx cause c said d) :
    (d.farewells = c.farewells ∧ d.finished = c.finished) ∨
      (∃ s, c.seat = some s ∧ s.id = c.size ∧ c.token.held ∧ c.finished = false ∧
        d.farewells = some [] ∧ d.finished = false) ∨
      (∃ source acks, cause = .message .finishAck source ∧ c.farewells = some acks ∧
        c.finished = false ∧ d.farewells = some (acks.insert source) ∧ d.finished = false) ∨
      (c.MayFinish cause ∧ d.farewells = c.farewells) ∨
      ((∃ source, cause = .message .finish source) ∧ d.farewells = none) := by
  cases move with
  | learn endpoint id value =>
    obtain ⟨_, _, frame⟩ := learn_frame c endpoint id value
    rw [frame]
    exact .inl ⟨rfl, rfl⟩
  | enqueue service value source =>
    obtain ⟨_, frame⟩ := enqueue_frame c ⟨source, value⟩
    rw [frame]
    exact .inl ⟨rfl, rfl⟩
  | close s seat last held still running =>
    exact .inr (.inl ⟨s, seat, last, held, running, rfl, running⟩)
  | acknowledge source acks sent closing running =>
    exact .inr (.inr (.inl ⟨source, acks, sent, closing, running, rfl, running⟩))
  | finish running may => exact .inr (.inr (.inr (.inl ⟨may, rfl⟩)))
  | bowOut source sent seated running still =>
    exact .inr (.inr (.inr (.inr ⟨⟨source, sent⟩, still⟩)))
  | _ => exact .inl ⟨rfl, rfl⟩

/-! ## Truth of messages -/

/-- What a message says about its sender, for good. -/
def Vouches (c : Chain) : Message → Prop
  | .find _ => True
  | .offer _ => c.seat.isSome
  | .request _ value => value = c.keys.publicValue
  | .response r => ∃ h, c.handOver = some h ∧ h.response = r
  | .infoRequest phase _ _ => c.seat.isSome ∧ (phase = .synch → c.token.held)
  | .infoResponse _ _ id value =>
    value = c.keys.publicValue ∧ ∃ s, c.seat = some s ∧ id = UInt16.ofNat s.id
  | .token target =>
    c.token.passed ∧ ∃ s, c.seat = some s ∧ target = UInt16.ofNat (successor s.id c.size)
  | .finish => c.isClosing
  | .finishAck => c.seat.isSome ∧ c.finished
  | .distributed _ => False

/-- What a member may say is true of it when it says it. -/
theorem MaySay.vouches {m : Message} (may : c.MaySay m) : c.Vouches m := by
  cases m with
  | find service => trivial
  | offer service =>
    obtain ⟨s, seat⟩ := exists_seat_of_isOpen may.2
    simp [Vouches, seat]
  | request service value => exact may.2.2
  | response r => exact may
  | infoRequest phase service ids => exact may.2.1
  | infoResponse phase service id value => exact may.2
  | token target => exact may
  | finish => exact may
  | finishAck => exact may.elim
  | distributed body => exact may.elim

/-- Whatever leaves a member is true of the state that it leaves behind. -/
theorem Move.vouches (move : Move kx cause c said d) : ∀ o ∈ said, d.Vouches o.message := by
  intro o here
  cases move with
  | say target m may =>
    obtain rfl := List.mem_singleton.mp here
    exact may.vouches
  | bowOut source sent seated =>
    obtain rfl := List.mem_singleton.mp here
    exact ⟨seated, rfl⟩
  | _ => cases here

/-- What a message tells about its sender stays true while the sender advances. -/
theorem Vouches.advance {m : Message} (vouches : c.Vouches m) (advances : Advances c d) :
    d.Vouches m := by
  cases m with
  | find service => trivial
  | offer service => exact advances.isSome_seat vouches
  | request service value => rw [Vouches, advances.keys]; exact vouches
  | response r =>
    obtain ⟨h, handOver, rfl⟩ := vouches
    obtain ⟨h', handOver', same, -⟩ := advances.handOver h handOver
    exact ⟨h', handOver', same⟩
  | infoRequest phase service ids =>
    exact ⟨advances.isSome_seat vouches.1, fun synch ↦ advances.held (vouches.2 synch)⟩
  | infoResponse phase service id value =>
    obtain ⟨own, s, seat, named⟩ := vouches
    obtain ⟨s', seat', same, -⟩ := advances.seat s seat
    exact ⟨by rw [advances.keys]; exact own, s', seat', by rw [same]; exact named⟩
  | token target =>
    obtain ⟨passed, s, seat, named⟩ := vouches
    obtain ⟨s', seat', same, -⟩ := advances.seat s seat
    exact ⟨advances.passed passed, s', seat', by rw [same, size, advances.config]; exact named⟩
  | finish => exact advances.closing vouches
  | finishAck => exact ⟨advances.isSome_seat vouches.1, advances.finished vouches.2⟩
  | distributed body => exact vouches.elim

/-- Only assigned members send what shows a seat. -/
theorem Vouches.seated {m : Message} (vouches : c.Vouches m) (shows : ShowsSeat m)
    (coherent : c.Coherent) : c.seat.isSome := by
  cases m with
  | offer service => exact vouches
  | response r =>
    obtain ⟨h, handOver, -⟩ := vouches
    obtain ⟨s, seat, -⟩ := coherent.handedOver (by simp [handOver])
    simp [seat]
  | infoRequest phase service ids => exact vouches.1
  | infoResponse phase service id value =>
    obtain ⟨-, s, seat, -⟩ := vouches
    simp [seat]
  | token target =>
    obtain ⟨-, s, seat, -⟩ := vouches
    simp [seat]
  | _ => exact shows.elim

end GroupKey.Chain
