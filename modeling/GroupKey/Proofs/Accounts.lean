import GroupKey.Proofs.Moves

/-!
# Accounts

A member tells its application what becomes of it: that it has a position, whom it let in, each key
it computed, the group key and the end.  The account of a turn is how the member stands in it and
what was told so far.  Each thing that happens to a member keeps the two together, and most of what
it does leaves the account alone.
-/

namespace GroupKey

def Effect.event? : Effect → Option Event
  | emit e => some e
  | _ => none

/-- The number of keys that an event reports. -/
def Event.keys? : Event → Option Nat
  | keyComputed keys _ => some keys
  | _ => none

/-- The id that an event reports to be given away, and to whom. -/
def Event.admission? : Event → Option (Nat × Endpoint)
  | admitted id endpoint => some (id, endpoint)
  | _ => none

/-- Events that count for nothing. -/
def Event.Aside : Event → Prop
  | tokenReceived _ => True
  | failed _ => True
  | _ => False

/-- How many events of a kind there are. -/
def tally (told : List Event) (kind : String) : Nat := told.countP fun e ↦ e.name = kind

/-- Events are counted one by one. -/
theorem tally_append (told more : List Event) (kind : String) :
    tally (told ++ more) kind = tally told kind + tally more kind :=
  List.countP_append

/-- What is told once at most. -/
def milestones : List String :=
  ["Assigned", "BecameSponsor", "Admitted", "GroupKeyEstablished", "Finished"]

namespace Turn

variable {σ : Type}

/-- The events that leave a turn. -/
def events (t : Turn σ) : List Event := t.effects.filterMap Effect.event?

/-- The ids that are given away in a turn, and to whom. -/
def admissions (t : Turn σ) : List (Nat × Endpoint) := t.events.filterMap Event.admission?

@[simp] theorem events_emit (t : Turn σ) (e : Event) : (t.emit e).events = t.events ++ [e] := by
  simp [emit, act, events, Effect.event?]

/-- An effect that tells nothing adds nothing to what was told. -/
theorem events_act (t : Turn σ) {e : Effect} (silent : e.event? = none) :
    (t.act e).events = t.events := by
  simp [act, events, silent]

@[simp] theorem events_count (t : Turn σ) (m : CountMetric) : (t.count m).events = t.events := rfl

@[simp] theorem events_mark (t : Turn σ) (m : TimeMetric) : (t.mark m).events = t.events := rfl

@[simp] theorem events_modify (t : Turn σ) (f : σ → σ) : (t.modify f).events = t.events := rfl

@[simp] theorem events_multicast (t : Turn σ) (m : Message) : (t.multicast m).events = t.events :=
  events_act (t.count _) rfl

@[simp] theorem events_unicast (t : Turn σ) (target : Endpoint) (m : Message) :
    (t.unicast target m).events = t.events :=
  events_act (t.count _) rfl

section Agenda

variable [Busy σ]

/-- Deadlines tell nothing, whether they are set or not. -/
@[simp] theorem events_schedule (t : Turn σ) (task : Task) :
    (t.schedule task).events = t.events := by
  unfold schedule
  split
  · rfl
  · exact events_act (t.setAgenda _) rfl

@[simp] theorem events_scheduleAfter (t : Turn σ) (task : Task) (delay : Nat) :
    (t.scheduleAfter task delay).events = t.events :=
  events_act (t.setAgenda _) rfl

@[simp] theorem events_cancel (t : Turn σ) (task : Task) : (t.cancel task).events = t.events := by
  unfold cancel
  split
  · exact events_act (t.setAgenda _) rfl
  · rfl

@[simp] theorem events_disarm (t : Turn σ) (task : Task) : (t.disarm task).events = t.events := rfl

@[simp] theorem events_keepSending (t : Turn σ) (task : Task) (target : Option Endpoint)
    (m : Message) : (t.keepSending task target m).events = t.events := by
  unfold keepSending
  split
  · rfl
  · cases target <;> simp [send]

end Agenda

end Turn

/-- What there is to tell about a member. -/
structure Standing where
  size : Nat
  seat : Option Seat
  handedOver : Bool
  announced : Bool
  finished : Bool

namespace Standing

def keysComputed (s : Standing) : Nat := (s.seat.map Seat.keysComputed).getD 0

/-- All contributions from the member's own on are in its tree. -/
def complete (s : Standing) : Bool :=
  s.seat.any fun seat ↦ seat.keysComputed == s.size - seat.id + 1

/-- There are as many keys as the group asks for, or more. -/
def full (s : Standing) : Bool := s.seat.any fun seat ↦ s.size - seat.id + 1 ≤ seat.keysComputed

/-- A member that is complete has all keys, and one that has too many has them as well. -/
theorem full_of_complete {s : Standing} (complete : s.complete = true) : s.full = true := by
  obtain ⟨seat, here, all⟩ := (Option.any_eq_true _ _).mp complete
  refine (Option.any_eq_true _ _).mpr ⟨seat, here, ?_⟩
  rw [beq_iff_eq] at all
  simp [all]

/-- Which milestones the member has passed. -/
def passed (s : Standing) : List Bool :=
  [s.seat.isSome, s.seat.isSome, s.handedOver, s.announced, s.finished]

/-- The events tell how the member stands. -/
structure Sums (s : Standing) (told : List Event) : Prop where
  passed : milestones.map (tally told) = s.passed.map Bool.toNat
  keys : told.filterMap Event.keys? = List.range' 1 s.keysComputed
  tree : ∀ seat, s.seat = some seat → seat.tree.length = seat.keysComputed
  heir : s.handedOver = true → ∃ seat, s.seat = some seat ∧ seat.sponsor = false

end Standing

def Chain.standing (c : Chain) : Standing :=
  ⟨c.size, c.seat, c.handOver.isSome, c.announced, c.finished⟩

/-! ## Accounts -/

/-- How a member stands in the middle of a turn, what was told so far, and whether the turn has
ended the run. -/
structure Account extends Standing where
  told : List Event
  ended : Bool

def Account.tell (a : Account) (more : List Event) : Account := { a with told := a.told ++ more }

/-- What is told in two parts is told in one. -/
theorem Account.tell_tell (a : Account) (more later : List Event) :
    (a.tell more).tell later = a.tell (more ++ later) := by
  simp [tell]

/-- The account of a turn after events of earlier turns. -/
def Turn.account (past : List Event) (t : Turn Chain) : Account where
  toStanding := t.member.standing
  told := past ++ t.events
  ended := t.effects.contains .terminate

namespace Turn

variable (past : List Event) (t : Turn Chain)

/-- A change of the state that leaves the member's standing alone leaves its account alone. -/
theorem account_modify {f : Chain → Chain} (same : (f t.member).standing = t.member.standing) :
    (t.modify f).account past = t.account past := by
  simp [account, same, events, modify]

/-- An effect that tells nothing leaves the account alone, unless it stops the run. -/
theorem account_act {e : Effect} (silent : e.event? = none) (runs : e ≠ .terminate) :
    (t.act e).account past = t.account past := by
  simp [account, act, events, silent, runs.symm]

@[simp] theorem account_emit (e : Event) :
    (t.emit e).account past = (t.account past).tell [e] := by
  simp [account, emit, act, events, Effect.event?, Account.tell]

@[simp] theorem account_multicast (m : Message) :
    (t.multicast m).account past = t.account past :=
  account_act past (t.count _) rfl nofun

@[simp] theorem account_unicast (target : Endpoint) (m : Message) :
    (t.unicast target m).account past = t.account past :=
  account_act past (t.count _) rfl nofun

@[simp] theorem account_send (target : Option Endpoint) (m : Message) :
    (t.send target m).account past = t.account past := by
  cases target
  · exact account_multicast past t m
  · exact account_unicast past t _ m

@[simp] theorem account_schedule (task : Task) :
    (t.schedule task).account past = t.account past := by
  unfold schedule
  split
  · rfl
  · exact account_act past (t.setAgenda _) rfl nofun

@[simp] theorem account_scheduleAfter (task : Task) (delay : Nat) :
    (t.scheduleAfter task delay).account past = t.account past :=
  account_act past (t.setAgenda _) rfl nofun

@[simp] theorem account_cancel (task : Task) : (t.cancel task).account past = t.account past := by
  unfold cancel
  split
  · exact account_act past (t.setAgenda _) rfl nofun
  · rfl

/-- Messages are not told. -/
@[simp] theorem account_keepSending (task : Task) (target : Option Endpoint) (m : Message) :
    (t.keepSending task target m).account past = t.account past := by
  unfold keepSending
  split
  · rfl
  · rw [account_schedule, account_send]

end Turn

namespace Chain

section Quiet

variable (past : List Event) (t : Turn Chain) (c : Chain)

/-- A confirmed hand-over is still a hand-over. -/
theorem standing_confirm : c.confirm.standing = c.standing := by
  simp [standing, confirm, size]

theorem standing_hearAssigned (source : Endpoint) :
    (c.hearAssigned source).standing = c.standing := by
  unfold hearAssigned
  split
  · exact standing_confirm c
  · rfl

@[simp] theorem account_hearAssigned (source : Endpoint) :
    (t.modify fun c ↦ c.hearAssigned source).account past = t.account past :=
  Turn.account_modify past t (standing_hearAssigned t.member source)

theorem standing_learn (endpoint : Endpoint) (id : Nat) (value : PublicValue) :
    (c.learn endpoint id value).standing = c.standing := by
  obtain ⟨directory, pending, learnt⟩ := learn_frame c endpoint id value
  rw [learnt]
  rfl

/-- What is learnt about others does not concern the member's own standing. -/
theorem standing_learnFrom (r : Response) (source : Endpoint) :
    (learnFrom r source c).standing = c.standing := by
  unfold learnFrom
  dsimp only
  rw [standing_learn, standing_learn]
  split
  · rw [standing_confirm, standing_hearAssigned]
  · exact standing_hearAssigned c source

theorem standing_enqueue (candidate : Candidate) : (c.enqueue candidate).standing = c.standing := by
  obtain ⟨pending, waiting⟩ := enqueue_frame c candidate
  rw [waiting]
  rfl

/-- The token is no matter of the account, as it has neither keys nor milestones. -/
@[simp] theorem account_seeTokenTaken : (seeTokenTaken t).account past = t.account past := by
  unfold seeTokenTaken
  split
  · rfl
  · rw [Turn.account_cancel]
    rfl

@[simp] theorem account_passToken : (passToken t).account past = t.account past := by
  unfold passToken
  split
  · rw [Turn.account_keepSending]
    rfl
  · rfl

@[simp] theorem account_tendToken : (tendToken t).account past = t.account past := by
  unfold tendToken
  dsimp only
  split
  · rfl
  · split
    · split <;> simp
    · split <;> simp

@[simp] theorem account_announceEnd : (announceEnd t).account past = t.account past := by
  unfold announceEnd
  rw [Turn.account_scheduleAfter, Turn.account_keepSending, Turn.account_cancel]
  rfl

@[simp] theorem account_overhearToken (target : Nat) (source : Endpoint) (s : Seat) :
    (overhearToken target source s t).account past = t.account past := by
  unfold overhearToken
  dsimp only
  split
  · rfl
  · split <;> simp

/-- An offer is sent and not told. -/
@[simp] theorem account_answerFind (service : ServiceId) :
    (answerFind service t).account past = t.account past := by
  unfold answerFind
  split <;> simp

@[simp] theorem account_answerOffer (service : ServiceId) (source : Endpoint) :
    (answerOffer service source t).account past = t.account past := by
  unfold answerOffer
  split
  · exact account_hearAssigned past t source
  · dsimp only
    rw [Turn.account_schedule]
    split <;> rfl

/-- A question shows who acts, which changes nobody's standing. -/
@[simp] theorem account_answerQuestion (phase : Phase) (service : ServiceId) (ids : List MemberId)
    (source : Endpoint) :
    (answerQuestion phase service ids source t).account past = t.account past := by
  unfold answerQuestion
  split
  · rfl
  · split
    · rfl
    · dsimp only
      split <;> split <;> simp

@[simp] theorem account_tellValue (phase : Phase) :
    (tellValue phase t).account past = t.account past := by
  unfold tellValue
  split <;> simp

end Quiet

end Chain

/-! ## Keeping the ledger -/

/-- The second seat is the first one with one more key. -/
structure Seat.Grows (s new : Seat) : Prop where
  id : new.id = s.id
  keys : new.keysComputed = s.keysComputed + 1
  nodes : new.tree.length = s.tree.length + 1

/-- A tree that takes a contribution is longer by one node, like the number of keys. -/
theorem Seat.grows_of_extend {kx : KeyExchange} {s : Seat} {value : PublicValue} {tree : KeyTree}
    (granted : s.tree.extend kx value false = .ok tree) (sponsor : Bool) :
    s.Grows { s with tree, sponsor, keysComputed := s.keysComputed + 1 } := by
  obtain ⟨root, -, rfl⟩ := KeyTree.extend_silent_eq_ok granted
  exact ⟨rfl, rfl, rfl⟩

namespace Standing.Sums

variable {s s' : Standing} {told : List Event} {seat new : Seat}

/-- The sums hold after more was told, if each milestone is passed as often as it was told and the
numbers of keys go on where they stopped. -/
theorem append (sums : s.Sums told) (more : List Event)
    (passed : s'.passed.map Bool.toNat =
      List.zipWith (· + ·) (s.passed.map Bool.toNat) (milestones.map (tally more)))
    (keys : List.range' 1 s'.keysComputed =
      List.range' 1 s.keysComputed ++ more.filterMap Event.keys?)
    (tree : ∀ seat, s'.seat = some seat → seat.tree.length = seat.keysComputed)
    (heir : s'.handedOver = true → ∃ seat, s'.seat = some seat ∧ seat.sponsor = false) :
    s'.Sums (told ++ more) where
  passed := by
    rw [passed, ← sums.passed]
    simp [milestones, tally_append]
  keys := by rw [List.filterMap_append, sums.keys, keys]
  tree := tree
  heir := heir

/-- Events that are neither milestones nor keys count for nothing. -/
theorem aside {e : Event} (sums : s.Sums told) (aside : e.Aside) : s.Sums (told ++ [e]) := by
  refine sums.append [e] ?_ ?_ sums.tree sums.heir
  all_goals cases e with
  | tokenReceived | failed =>
    simp [milestones, Standing.passed, tally, Event.name, Event.keys?]
  | _ => exact aside.elim

/-- Nobody in office has handed it over. -/
theorem handedOver_eq_false (sums : s.Sums told)
    (inOffice : ∀ seat, s.seat = some seat → seat.sponsor = true) : s.handedOver = false := by
  refine Bool.eq_false_iff.mpr fun handedOver ↦ ?_
  obtain ⟨seat, here, resigned⟩ := sums.heir handedOver
  rw [inOffice seat here] at resigned
  cases resigned

/-- A member that takes a seat is told its id, its role and its first key. -/
theorem seated (sums : s.Sums told) (free : s.seat = none) (fresh : new.keysComputed = 1)
    (one : new.tree.length = 1) (root : String) :
    ({ s with seat := some new } : Standing).Sums
      (told ++ [.assigned new.id, .becameSponsor new.id, .keyComputed new.keysComputed root]) := by
  have nobody : s.handedOver = false := sums.handedOver_eq_false (by simp [free])
  refine sums.append _ ?_ ?_ ?_ ?_
  · simp [milestones, Standing.passed, free, tally, Event.name]
  · simp only [Standing.keysComputed, free, fresh, Option.map_some, Option.map_none,
      Option.getD_some, Option.getD_none]
    rfl
  · rintro _ ⟨⟩
    rw [one, fresh]
  · simp [nobody]

/-- One key more continues the row of numbers by one. -/
theorem range_succ (here : s.seat = some seat) (grows : seat.Grows new)
    (same : s'.seat = some new) :
    List.range' 1 s'.keysComputed = List.range' 1 s.keysComputed ++ [new.keysComputed] := by
  simp [Standing.keysComputed, here, same, grows.keys, List.range'_concat, Nat.add_comm]

/-- A value that a member applies is one more key. -/
theorem extended (sums : s.Sums told) (here : s.seat = some seat) (grows : seat.Grows new)
    (same : new.sponsor = seat.sponsor) (root : String) :
    ({ s with seat := some new } : Standing).Sums
      (told ++ [.keyComputed new.keysComputed root]) := by
  refine sums.append _ ?_ (range_succ here grows rfl) ?_ fun handedOver ↦ ?_
  · simp [milestones, Standing.passed, here, tally, Event.name]
  · rintro _ ⟨⟩
    rw [grows.nodes, grows.keys, sums.tree seat here]
  · obtain ⟨_, same', resigned⟩ := sums.heir handedOver
    cases here.symm.trans same'
    exact ⟨new, rfl, same.trans resigned⟩

/-- Only a sponsor lets somebody in, so it has let nobody in before. -/
theorem enrolled (sums : s.Sums told) (here : s.seat = some seat) (inOffice : seat.sponsor = true)
    (grows : seat.Grows new) (resigned : new.sponsor = false) (id : Nat) (endpoint : Endpoint)
    (root : String) :
    ({ s with seat := some new, handedOver := true } : Standing).Sums
      (told ++ [.admitted id endpoint, .keyComputed new.keysComputed root]) := by
  have nobody : s.handedOver = false := sums.handedOver_eq_false (by simp [here, inOffice])
  refine sums.append _ ?_ (range_succ here grows rfl) ?_ fun _ ↦ ⟨new, rfl, resigned⟩
  · simp [milestones, Standing.passed, here, nobody, tally, Event.name]
  · rintro _ ⟨⟩
    rw [grows.nodes, grows.keys, sums.tree seat here]

/-- The last member gives up its role without having let anybody in. -/
theorem resigned (sums : s.Sums told) (here : s.seat = some seat) :
    ({ s with seat := some { seat with sponsor := false } } : Standing).Sums told where
  passed := by
    rw [sums.passed]
    simp [Standing.passed, here]
  keys := by
    rw [sums.keys]
    simp [Standing.keysComputed, here]
  tree := by
    rintro _ ⟨⟩
    exact sums.tree seat here
  heir _ := ⟨_, rfl, rfl⟩

/-- The group key is announced while it was not. -/
theorem announced (sums : s.Sums told) (silent : s.announced = false) (id : Option Nat)
    (root : String) :
    ({ s with announced := true } : Standing).Sums (told ++ [.groupKeyEstablished id root]) := by
  refine sums.append _ ?_ (List.append_nil _).symm sums.tree sums.heir
  simp [milestones, Standing.passed, silent, tally, Event.name]

/-- The end is told while the run lasts. -/
theorem ended (sums : s.Sums told) (running : s.finished = false) (id : Option Nat) :
    ({ s with finished := true } : Standing).Sums (told ++ [.finished id]) := by
  refine sums.append _ ?_ (List.append_nil _).symm sums.tree sums.heir
  simp [milestones, Standing.passed, running, tally, Event.name]

theorem established (sums : s.Sums told) :
    tally told "GroupKeyEstablished" = s.announced.toNat := by
  have passed := sums.passed
  simp only [milestones, Standing.passed, List.map_cons, List.cons.injEq] at passed
  exact passed.2.2.2.1

/-- Each milestone is a flag of the standing, so it was passed once or not at all. -/
theorem tally_le_one (sums : s.Sums told) {kind : String} (here : kind ∈ milestones) :
    tally told kind ≤ 1 := by
  have counted : tally told kind ∈ s.passed.map Bool.toNat := by
    rw [← sums.passed]
    exact List.mem_map_of_mem here
  obtain ⟨flag, -, same⟩ := List.mem_map.mp counted
  rw [← same]
  exact Bool.toNat_le flag

end Standing.Sums

namespace Account

variable {a : Account} {c : Chain} {s new : Seat} {e : Event}

/-- The account of a turn that began with the given member and has not ended the run.  Until a key
is added it is early, then due, and after the group key was looked for it is booked. -/
structure Sound (c : Chain) (a : Account) : Prop where
  sums : a.Sums a.told
  kept : ∀ s, c.seat = some s → ∃ s', a.seat = some s' ∧ s'.id = s.id
  running : a.finished = c.finished
  goes : a.ended = false

/-- The turn has announced nothing, and there was nothing to announce so far. -/
structure Early (c : Chain) (a : Account) : Prop extends a.Sound c where
  still : a.announced = c.announced
  current : a.announced = a.full

/-- The turn has announced nothing, but there may be something to announce. -/
structure Due (c : Chain) (a : Account) : Prop extends a.Sound c where
  still : a.announced = c.announced
  reached : a.announced = true → a.full = true
  due : a.full = true → a.announced = true ∨ a.complete = true

/-- What there is to announce was announced. -/
structure Booked (c : Chain) (a : Account) : Prop extends a.Sound c where
  current : a.announced = a.full
  known : a.announced = (c.announced || a.complete)

/-- Before anything happened nothing is overdue. -/
theorem Early.due (early : a.Early c) : a.Due c where
  toSound := early.toSound
  still := early.still
  reached announced := early.current.symm.trans announced
  due full := .inl (early.current.trans full)

/-- Where nothing has happened yet the books are right. -/
theorem Early.booked (early : a.Early c) : a.Booked c where
  toSound := early.toSound
  current := early.current
  known := by
    cases complete : a.complete with
    | false => rw [Bool.or_false, early.still]
    | true => rw [Bool.or_true, early.current, Standing.full_of_complete complete]

/-- A key that was announced before, or that is not complete yet, needs no announcement. -/
theorem Due.booked (due : a.Due c) (nothing : a.announced = true ∨ a.complete = false) :
    a.Booked c := by
  have told (complete : a.complete = true) : a.announced = true :=
    nothing.resolve_right (by simp [complete])
  refine { due.toSound with current := ?_, known := ?_ }
  · refine Bool.eq_iff_iff.mpr ⟨due.reached, fun full ↦ ?_⟩
    exact (due.due full).elim id told
  · rw [← due.still]
    refine Bool.eq_iff_iff.mpr ⟨fun announced ↦ by simp [announced], fun either ↦ ?_⟩
    exact (Bool.or_eq_true_iff.mp either).elim id told

/-- The announcement that is due puts the books right. -/
theorem Due.announce (due : a.Due c) (silent : a.announced = false) (complete : a.complete = true)
    (id : Option Nat) (root : String) :
    (({ a with announced := true } : Account).tell [.groupKeyEstablished id root]).Booked c where
  sums := due.sums.announced silent id root
  kept := due.kept
  running := due.running
  goes := due.goes
  current := (Standing.full_of_complete complete).symm
  known := by
    have same : (({ a with announced := true } : Account).tell
        [.groupKeyEstablished id root]).complete = a.complete := rfl
    rw [same, complete, Bool.or_true]
    rfl

/-- As long as keys are missing there is nothing to announce. -/
theorem Due.early (due : a.Due c) (here : a.seat = some s)
    (scarce : s.keysComputed < a.size - s.id + 1) : a.Early c := by
  have few : a.full = false := by
    simpa [Standing.full, here] using scarce
  refine { due with current := ?_ }
  rw [few]
  exact Bool.eq_false_iff.mpr fun announced ↦ by simp [due.reached announced] at few

theorem Sound.aside (sound : a.Sound c) (aside : e.Aside) : (a.tell [e]).Sound c :=
  { sound with sums := sound.sums.aside aside }

theorem Early.aside (early : a.Early c) (aside : e.Aside) : (a.tell [e]).Early c :=
  { early with toSound := early.toSound.aside aside }

theorem Due.aside (due : a.Due c) (aside : e.Aside) : (a.tell [e]).Due c :=
  { due with toSound := due.toSound.aside aside }

/-- With its first key a member has all keys only if it is the last one. -/
theorem Early.seated (early : a.Early c) (free : a.seat = none) (fresh : new.keysComputed = 1)
    (one : new.tree.length = 1) (root : String) :
    (({ a with seat := some new } : Account).tell [.assigned new.id, .becameSponsor new.id,
      .keyComputed new.keysComputed root]).Due c where
  sums := early.sums.seated free fresh one root
  kept s seat := by
    obtain ⟨s', here, -⟩ := early.kept s seat
    rw [free] at here
    cases here
  running := early.running
  goes := early.goes
  still := early.still
  reached announced := by
    have full := early.current.symm.trans announced
    simp [Standing.full, free] at full
  due full := by
    refine .inr ?_
    simp only [Standing.full, Standing.complete, Account.tell, Option.any_some, fresh,
      decide_eq_true_eq, beq_iff_eq] at full ⊢
    omega

/-- A member applies no more values than there are members, so it has all keys when it gets
enough. -/
theorem Due.extended (due : a.Due c) (here : a.seat = some s) (grows : s.Grows new)
    (same : new.sponsor = s.sponsor) (room : s.id + s.keysComputed ≤ a.size) (root : String) :
    (({ a with seat := some new } : Account).tell [.keyComputed new.keysComputed root]).Due c where
  sums := due.sums.extended here grows same root
  kept s' seat := by
    obtain ⟨_, here', id⟩ := due.kept s' seat
    cases here.symm.trans here'
    exact ⟨new, rfl, grows.id.trans id⟩
  running := due.running
  goes := due.goes
  still := due.still
  reached announced := by
    -- There is room for one more key, so not all keys were there.
    have full := due.reached announced
    simp only [Standing.full, here, Option.any_some, decide_eq_true_eq] at full
    omega
  due full := by
    refine .inr ?_
    simp only [Standing.full, Standing.complete, Account.tell, Option.any_some, grows.id,
      grows.keys, decide_eq_true_eq, beq_iff_eq] at full ⊢
    omega

/-- The token may have given a sponsor all keys, and then it was told so already. -/
theorem Early.enrolled (early : a.Early c) (here : a.seat = some s) (inOffice : s.sponsor = true)
    (grows : s.Grows new) (resigned : new.sponsor = false) (id : Nat) (endpoint : Endpoint)
    (root : String) :
    (({ a with seat := some new, handedOver := true } : Account).tell
      [.admitted id endpoint, .keyComputed new.keysComputed root]).Due c where
  sums := early.sums.enrolled here inOffice grows resigned id endpoint root
  kept s' seat := by
    obtain ⟨_, here', same⟩ := early.kept s' seat
    cases here.symm.trans here'
    exact ⟨new, rfl, grows.id.trans same⟩
  running := early.running
  goes := early.goes
  still := early.still
  reached announced := by
    have full := early.current.symm.trans announced
    simp only [Standing.full, Account.tell, here, Option.any_some, grows.id, grows.keys,
      decide_eq_true_eq] at full ⊢
    omega
  due full := by
    -- Whether the new key was the last one that was missing, or one too many.
    by_cases before : a.size - s.id + 1 ≤ s.keysComputed
    · refine .inl (early.current.trans ?_)
      simpa [Standing.full, here] using before
    · refine .inr ?_
      simp only [Standing.full, Standing.complete, Account.tell, Option.any_some, grows.id,
        grows.keys, decide_eq_true_eq, beq_iff_eq] at full ⊢
      omega

theorem Due.resigned (due : a.Due c) (here : a.seat = some s) :
    ({ a with seat := some { s with sponsor := false } } : Account).Due c where
  sums := due.sums.resigned here
  kept s' seat := by
    obtain ⟨_, here', same⟩ := due.kept s' seat
    cases here.symm.trans here'
    exact ⟨_, rfl, same⟩
  running := due.running
  goes := due.goes
  still := due.still
  reached announced := by
    have full := due.reached announced
    simpa [Standing.full, here] using full
  due full := by
    have due := due.due
    simp only [Standing.full, Standing.complete, here, Option.any_some] at due full ⊢
    exact due full

end Account

end GroupKey
