import GroupKey.Proofs.Wording

/-!
# How many keys a member computes

A member computes one key for itself and one for each member behind it.  It adds a key when it lets
somebody in as a sponsor, and when it applies a value that it learnt.  As long as sponsors apply no
values, both together add up to the members that there are.  The token breaks this: whoever it is
handed to applies values, and a sponsor that did so still lets somebody in.  Nothing else does, and
one key too many is all that comes of it.
-/

namespace GroupKey

/-- A seat of a group with keys for no more than one member too many, and for none too many unless
the token may come early. -/
structure Seat.Counted (early : Prop) (size : Nat) (s : Seat) : Prop where
  first : 1 ≤ s.id
  last : s.id ≤ size
  begun : 1 ≤ s.keysComputed
  sponsor : s.sponsor → s.id + s.keysComputed ≤ size + 1
  reach : s.id + s.keysComputed ≤ size + 2
  late : ¬ early → (s.sponsor → s.keysComputed = 1) ∧ s.id + s.keysComputed ≤ size + 1

/-- The counter has left its word: member one of the largest group let somebody in when it had all
keys already. -/
structure Seat.Overflown (size : Nat) (s : Seat) : Prop where
  largest : size + 1 = UInt16.size
  first : s.id = 1
  surplus : s.keysComputed = UInt16.size
  resigned : s.sponsor = false

namespace Seat

variable {early : Prop} {size : Nat} {s : Seat}

theorem counted_of_first (first : 1 ≤ s.id) (last : s.id ≤ size) (fresh : s.keysComputed = 1) :
    s.Counted early size :=
  ⟨first, last, by omega, fun _ ↦ by omega, by omega, fun _ ↦ ⟨fun _ ↦ fresh, by omega⟩⟩

namespace Counted

theorem resigned (counted : s.Counted early size) :
    ({ s with sponsor := false } : Seat).Counted early size :=
  ⟨counted.first, counted.last, counted.begun, nofun, counted.reach,
    fun calm ↦ ⟨nofun, (counted.late calm).2⟩⟩

/-- A sponsor that is not the last member has a key to spare. -/
theorem enrolled (counted : s.Counted early size) (sponsor : s.sponsor = true)
    (room : s.id < size) (tree : KeyTree) :
    ({ s with tree, keysComputed := s.keysComputed + 1, sponsor := false } : Seat).Counted
      early size where
  first := counted.first
  last := counted.last
  begun := Nat.le_add_left 1 _
  sponsor := nofun
  reach := by
    have reach := counted.sponsor sponsor
    dsimp only
    omega
  late calm := by
    have fresh := (counted.late calm).1 sponsor
    refine ⟨nofun, ?_⟩
    dsimp only
    omega

theorem extended (counted : s.Counted early size) (room : s.id + s.keysComputed ≤ size)
    (right : ¬ early → s.sponsor = false) (tree : KeyTree) :
    ({ s with tree, keysComputed := s.keysComputed + 1 } : Seat).Counted early size where
  first := counted.first
  last := counted.last
  begun := Nat.le_add_left 1 _
  sponsor _ := Nat.succ_le_succ room
  reach := Nat.le_succ_of_le (Nat.succ_le_succ room)
  late calm := by
    refine ⟨fun sponsor ↦ ?_, Nat.succ_le_succ room⟩
    rw [right calm] at sponsor
    cases sponsor

/-- Only one key too many at the very first position takes the counter out of its word. -/
theorem fits (counted : s.Counted early size) (words : size < UInt16.size) :
    s.keysComputed < UInt16.size ∨ s.Overflown size := by
  by_cases within : s.keysComputed < UInt16.size
  · exact .inl within
  · have first := counted.first
    have reach := counted.reach
    refine .inr ⟨by omega, by omega, by omega, Bool.eq_false_iff.mpr fun sponsor ↦ ?_⟩
    have spare := counted.sponsor sponsor
    omega

end Counted

end Seat

namespace Chain

variable {kx : KeyExchange} {cause input : Input} {c d : Chain} {said : List Outgoing}
  {config : MemberConfig} {early : Prop} {s : Seat} {K : Secret}

/-- The token is handed to a member that still lets others in and already knows who comes next. -/
def CalledEarly (c : Chain) (cause : Input) : Prop :=
  c.isOpen ∧ c.Summoned cause ∧
    ∃ s, c.seat = some s ∧ (c.directory.publicOf? (s.id + s.keysComputed)).isSome

/-- A member is started once, and anybody may say anything to it at any time. -/
def OnceStarted (_ : Chain) (input : Input) : Prop :=
  Protocol.Outer (fun _ ↦ True) input ∧ input ≠ .start

/-- The same, but the token does not come early. -/
def InTime (c : Chain) (input : Input) : Prop :=
  c.OnceStarted input ∧
    ∀ cause, Protocol.Hears (fun _ ↦ True) input cause → ¬ c.CalledEarly cause

/-! ## Moves -/

/-- Nothing that a member does while it holds the token makes that early. -/
theorem Move.calledEarly (move : Move kx cause c said d) (called : d.CalledEarly cause) :
    c.CalledEarly cause := by
  obtain ⟨isOpen, ⟨target, source, s', sent, seat', own⟩, s'', seat'', next⟩ := called
  cases seat'.symm.trans seat''
  cases move with
  | learn endpoint id value told =>
    subst sent
    simp [Tells] at told
  | enqueue service value source asked =>
    rw [sent] at asked
    cases asked
  | openGroup first =>
    rw [sent] at first
    cases first
  | takeSeat r source s named =>
    rw [sent] at named
    cases named
  | resign s seat last =>
    cases seat'
    simp [Chain.isOpen] at isOpen
  | enrol s new candidate rest before seat _ _ _ _ granted =>
    obtain ⟨tree, -, -, rfl⟩ := seatAfter_eq_ok granted
    simp [Chain.isOpen] at isOpen
  | extend s value tree seat known room granted right =>
    cases seat'
    have before : c.isOpen := by
      rw [Chain.isOpen, seat]
      exact isOpen
    exact ⟨before, ⟨target, source, s, sent, seat, own⟩, s, seat, by simp [known]⟩
  | _ => exact ⟨isOpen, ⟨target, source, s', sent, seat', own⟩, s', seat', next⟩

/-- A member of a group whose seat is counted. -/
structure Counted (early : Prop) (config : MemberConfig) (c : Chain) : Prop where
  configured : c.config = config
  order : c.token.taken → c.token.passed
  seat : ∀ s, c.seat = some s → s.Counted early config.size

theorem Counted.size (counted : c.Counted early config) : c.size = config.size := by
  rw [Chain.size, counted.configured]

theorem Counted.move (counted : c.Counted early config) (accepted : config.validate = .ok ())
    (checked : Checked (fun _ ↦ True) cause) (inTime : ¬ early → ¬ c.CalledEarly cause)
    (move : Move kx cause c said d) : d.Counted early config := by
  have size := counted.size
  cases move with
  | learn endpoint id value =>
    obtain ⟨directory, pending, learnt⟩ := learn_frame c endpoint id value
    rw [learnt]
    exact { counted with }
  | enqueue service value source =>
    obtain ⟨pending, waiting⟩ := enqueue_frame c ⟨source, value⟩
    rw [waiting]
    exact { counted with }
  | openGroup =>
    refine { counted with seat := ?_ }
    rintro _ ⟨⟩
    exact Seat.counted_of_first (Nat.le_refl 1) (MemberConfig.size_pos accepted) rfl
  | takeSeat r source s named own value count free running granted =>
    obtain ⟨root, rootPublic, -, -, rfl⟩ := firstSeat_eq_ok granted
    subst named
    obtain ⟨later, bounded⟩ := checked.response
    rw [count, counted.configured] at bounded
    refine { counted with seat := ?_ }
    rintro _ ⟨⟩
    exact Seat.counted_of_first (Nat.le_of_succ_le later) bounded rfl
  | resign s seat =>
    refine { counted with seat := ?_ }
    rintro _ ⟨⟩
    exact (counted.seat s seat).resigned
  | enrol s new candidate rest before seat isOpen _ _ _ granted =>
    obtain ⟨tree, -, -, rfl⟩ := seatAfter_eq_ok granted
    obtain ⟨sponsor, room⟩ := isOpen_of_seat isOpen seat
    refine { counted with seat := ?_ }
    rintro _ ⟨⟩
    exact (counted.seat s seat).enrolled sponsor (by omega) tree
  | extend s value tree seat known room granted right =>
    have before := counted.seat s seat
    refine { counted with seat := ?_ }
    rintro _ ⟨⟩
    refine before.extended (by omega) (fun calm ↦ ?_) tree
    -- A sponsor with room behind itself is open, so the token that made it do this came early.
    rcases right with other | summoned
    · exact other
    · by_contra sponsor
      have begun := before.begun
      have isOpen : c.isOpen := by
        have behind : s.id < c.size := by omega
        simpa [Chain.isOpen, seat, behind] using sponsor
      exact inTime calm ⟨isOpen, summoned, s, seat, by simp [known]⟩
  | seeTaken passed => exact { counted with order := fun _ ↦ passed }
  | pass => exact { counted with order := fun _ ↦ rfl }
  | _ => exact { counted with }

/-- Such an input repeats the token, or the member reacts to it in moves. -/
theorem OnceStarted.cases (allowed : c.OnceStarted input) (order : c.token.taken → c.token.passed) :
    (∃ agenda : Agenda, ((Chain.protocol kx).step input c).member = { c with agenda } ∧
        ∀ task, agenda.isArmed task → task = .synchToken ∨ c.agenda.isArmed task) ∨
      ∃ cause, Protocol.Hears (fun _ ↦ True) input cause ∧
        Follows kx cause c ((Chain.protocol kx).step input c) := by
  rcases step_cases kx allowed.1 order with ⟨start, -⟩ | ⟨-, same⟩ | reacts
  · exact absurd start allowed.2
  · rw [same]
    exact .inl (repeatToken_frame kx c).1
  · exact .inr reacts

theorem Counted.step (counted : c.Counted early config) (accepted : config.validate = .ok ())
    (allowed : c.OnceStarted input) (inTime : ¬ early → c.InTime input) :
    ((Chain.protocol kx).step input c).member.Counted early config := by
  rcases allowed.cases counted.order with ⟨agenda, member, -⟩ | ⟨cause, hears, follows⟩
  · rw [member]
    exact { counted with }
  · have checked := checked_of_hears hears
    have calm : ¬ early → ¬ c.CalledEarly cause := fun never ↦ (inTime never).2 cause hears
    have kept := follows.keeps
      (P := fun d ↦ d.Counted early config ∧ (¬ early → ¬ d.CalledEarly cause)) ⟨counted, calm⟩
      fun before move ↦ ⟨before.1.move accepted checked before.2 move, fun never called ↦
        before.2 never (move.calledEarly called)⟩
    exact kept.1

/-- Keys are never given up. -/
theorem Move.keysComputed_le (move : Move kx cause c said d) : c.keysComputed ≤ d.keysComputed := by
  cases seat : c.seat with
  | none => simp [Chain.keysComputed, seat]
  | some s =>
    obtain ⟨s', seat', -, more⟩ := move.reseats seat
    simpa [Chain.keysComputed, seat, seat'] using more

theorem OnceStarted.keysComputed_le (allowed : c.OnceStarted input)
    (order : c.token.taken → c.token.passed) :
    c.keysComputed ≤ ((Chain.protocol kx).step input c).member.keysComputed := by
  rcases allowed.cases order with ⟨agenda, member, -⟩ | ⟨cause, -, follows⟩
  · rw [member]
    exact Nat.le_refl _
  · exact follows.keeps (P := fun d ↦ c.keysComputed ≤ d.keysComputed) (Nat.le_refl _)
      fun before move ↦ Nat.le_trans before move.keysComputed_le

/-- A member with all keys lets nobody in, unless it has got them too early. -/
theorem Counted.isOpen_eq_false (counted : c.Counted False config) (complete : c.isComplete) :
    c.isOpen = false := by
  obtain ⟨s, seat, all⟩ := isComplete_iff.mp complete
  refine Bool.eq_false_iff.mpr fun isOpen ↦ ?_
  obtain ⟨sponsor, room⟩ := isOpen_of_seat isOpen seat
  have fresh := ((counted.seat s seat).late id).1 sponsor
  omega

/-- A member that lets nobody in keeps its group secret. -/
theorem Move.groupSecret? (move : Move kx cause c said d) (closed : c.isOpen = false)
    (known : c.groupSecret? = some K) : d.isOpen = false ∧ d.groupSecret? = some K := by
  obtain ⟨complete, s, seat, root⟩ := groupSecret?_eq_some.mp known
  obtain ⟨_, same, all⟩ := isComplete_iff.mp complete
  cases seat.symm.trans same
  cases move with
  | learn endpoint id value =>
    obtain ⟨directory, pending, learnt⟩ := learn_frame c endpoint id value
    rw [learnt]
    exact ⟨closed, known⟩
  | enqueue service value source =>
    obtain ⟨pending, waiting⟩ := enqueue_frame c ⟨source, value⟩
    rw [waiting]
    exact ⟨closed, known⟩
  | openGroup _ _ free | takeSeat _ _ _ _ _ _ _ free =>
    rw [free] at seat
    cases seat
  | resign s seat' =>
    cases seat.symm.trans seat'
    refine ⟨by simp [Chain.isOpen], groupSecret?_eq_some.mpr ⟨?_, _, rfl, root⟩⟩
    exact isComplete_iff.mpr ⟨_, rfl, all⟩
  | enrol _ _ _ _ _ _ isOpen =>
    rw [closed] at isOpen
    cases isOpen
  | extend s value tree seat' _ room =>
    cases seat.symm.trans seat'
    omega
  | _ => exact ⟨closed, known⟩

theorem Counted.groupSecret? (counted : c.Counted False config)
    (allowed : c.OnceStarted input) (known : c.groupSecret? = some K) :
    ((Chain.protocol kx).step input c).member.groupSecret? = some K := by
  rcases allowed.cases counted.order with ⟨agenda, member, -⟩ | ⟨cause, -, follows⟩
  · rw [member]
    exact known
  · have closed := counted.isOpen_eq_false (groupSecret?_eq_some.mp known).1
    have kept := follows.keeps (P := fun d ↦ d.isOpen = false ∧ d.groupSecret? = some K)
      ⟨closed, known⟩ fun before move ↦ move.groupSecret? before.1 before.2
    exact kept.2

/-! ## Runs -/

theorem Counted.keysComputed_le (counted : c.Counted True config)
    (accepted : config.validate = .ok ()) (later : (Chain.protocol kx).Exposed OnceStarted c d) :
    c.keysComputed ≤ d.keysComputed := by
  have kept := later.keeps
    (P := fun d ↦ d.Counted True config ∧ c.keysComputed ≤ d.keysComputed)
    ⟨counted, Nat.le_refl _⟩ fun before allowed ↦
      ⟨before.1.step accepted allowed fun calm ↦ absurd trivial calm,
        Nat.le_trans before.2 (allowed.keysComputed_le before.1.order)⟩
  exact kept.2

theorem Counted.keeps (counted : c.Counted False config) (accepted : config.validate = .ok ())
    (known : c.groupSecret? = some K) (later : (Chain.protocol kx).Exposed InTime c d) :
    d.groupSecret? = some K := by
  have kept := later.keeps (P := fun d ↦ d.Counted False config ∧ d.groupSecret? = some K)
    ⟨counted, known⟩ fun before allowed ↦
      ⟨before.1.step accepted allowed.1 fun _ ↦ allowed, before.1.groupSecret? allowed.1 before.2⟩
  exact kept.2

section Runs

variable {endpoint : Endpoint} {keys : KeyPair} {random : Random} {t : Turn Chain}
  (created : create config endpoint keys random = .ok t)

include created

theorem started_cases : ∃ agenda announced finished,
    ((Chain.protocol kx).step .start t.member).member =
      { config, endpoint, keys, agenda, announced, finished } ∨
    config.sponsor = true ∧ ((Chain.protocol kx).step .start t.member).member =
      { config, endpoint, keys, agenda, announced, finished
        seat := some (openingSeat { config, endpoint, keys, agenda := ⟨[], random⟩ })
        directory := (Directory.empty.record endpoint 1 keys.publicValue).2 } := by
  obtain ⟨-, member⟩ := create_member created
  rw [member]
  exact (begin_frame { config, endpoint, keys, agenda := ⟨[], random⟩ }).1

theorem counted_start :
    ((Chain.protocol kx).step .start t.member).member.Counted early config := by
  obtain ⟨agenda, announced, finished, begun | ⟨-, begun⟩⟩ := started_cases created
  · rw [begun]
    exact ⟨rfl, by simp, by simp⟩
  · rw [begun]
    refine ⟨rfl, by simp, ?_⟩
    rintro _ ⟨⟩
    have accepted := (create_member created).1
    exact Seat.counted_of_first (Nat.le_refl 1) (MemberConfig.size_pos accepted) rfl

theorem counted_of_exposed
    (exposed : (Chain.protocol kx).Exposed OnceStarted
      ((Chain.protocol kx).step .start t.member).member c) : c.Counted True config :=
  exposed.keeps (counted_start created) fun counted allowed ↦
    counted.step (create_member created).1 allowed fun calm ↦ absurd trivial calm

/-- What all moves keep, and a repeated token, holds in every state that the member can be brought
to. -/
theorem exposed_keeps {P : Chain → Prop}
    (exposed : (Chain.protocol kx).Exposed OnceStarted
      ((Chain.protocol kx).step .start t.member).member c)
    (start : P ((Chain.protocol kx).step .start t.member).member)
    (replan : ∀ {d : Chain} {agenda : Agenda}, P d →
      (∀ task, agenda.isArmed task → task = .synchToken ∨ d.agenda.isArmed task) →
      P { d with agenda })
    (move : ∀ {cause : Input} {d e : Chain} {said : List Outgoing}, P d → Move kx cause d said e →
      P e) : P c := by
  induction exposed with
  | rest => exact start
  | next exposed allowed ih =>
    have counted := counted_of_exposed created exposed
    rcases allowed.cases counted.order with ⟨agenda, member, armed⟩ | ⟨cause, -, follows⟩
    · rw [member]
      exact replan ih armed
    · exact follows.keeps ih move

theorem counted_of_inTime
    (exposed : (Chain.protocol kx).Exposed InTime
      ((Chain.protocol kx).step .start t.member).member c) : c.Counted False config :=
  exposed.keeps (counted_start created) fun counted allowed ↦
    counted.step (create_member created).1 allowed.1 fun _ ↦ allowed

end Runs

theorem not_calledEarly_of_closed (closed : c.isOpen = false) : ¬ c.CalledEarly cause := by
  rintro ⟨isOpen, -⟩
  rw [closed] at isOpen
  cases isOpen

end Chain

/-- However a member is talked to, it has a position of its group and at most one key too many.
Only that key can take the counter out of its word, at member one of the largest group, and as keys
are never given up a counter that fits has fitted all along.  Unless the token comes early there are
no keys too many, all counters fit into their words, and a group secret once known stays.  No
accepted hand-over gives a position that has no predecessor. -/
theorem key_bounds {kx : KeyExchange} {config : MemberConfig} {endpoint : Endpoint} {keys : KeyPair}
    {random : Random} {t : Turn Chain}
    (created : Chain.create config endpoint keys random = .ok t) :
    (∀ c, (Chain.protocol kx).Exposed Chain.OnceStarted
        ((Chain.protocol kx).step .start t.member).member c →
      (∀ s, c.seat = some s → 1 ≤ s.id ∧ s.id ≤ config.size ∧
        1 ≤ s.keysComputed ∧ s.keysComputed ≤ config.size - s.id + 2 ∧
        (s.keysComputed < UInt16.size ∨ s.Overflown config.size)) ∧
      ∀ d, (Chain.protocol kx).Exposed Chain.OnceStarted c d →
        c.keysComputed ≤ d.keysComputed) ∧
    (∀ c, (Chain.protocol kx).Exposed Chain.InTime
        ((Chain.protocol kx).step .start t.member).member c →
      (∀ s, c.seat = some s → s.keysComputed ≤ config.size - s.id + 1 ∧
        config.size - s.id + 1 < UInt16.size) ∧
      ∀ K, c.groupSecret? = some K → ∀ d, (Chain.protocol kx).Exposed Chain.InTime c d →
        d.groupSecret? = some K) ∧
    ∀ bytes r, Message.decode bytes = .ok (.response r) → 1 < r.newSponsor.id.toNat := by
  have accepted := (Chain.create_member created).1
  refine ⟨fun c exposed ↦ ⟨fun s seat ↦ ?_, fun d later ↦ ?_⟩,
    fun c exposed ↦ ⟨fun s seat ↦ ?_, fun K known d later ↦ ?_⟩, fun bytes r read ↦ ?_⟩
  · have counted := (Chain.counted_of_exposed created exposed).seat s seat
    have reach := counted.reach
    exact ⟨counted.first, counted.last, counted.begun, by omega, counted.fits config.size_lt⟩
  · exact (Chain.counted_of_exposed created exposed).keysComputed_le accepted later
  · have counted := (Chain.counted_of_inTime created exposed).seat s seat
    have reach := (counted.late id).2
    have first := counted.first
    have words := config.size_lt
    have last := counted.last
    exact ⟨by omega, by omega⟩
  · exact (Chain.counted_of_inTime created exposed).keeps accepted known later
  · have hears : Protocol.Hears (fun _ ↦ True) (.datagram bytes endpoint)
        (.message (.response r) endpoint) := ⟨trivial, bytes, rfl, read⟩
    exact (Chain.checked_of_hears hears).response.1

namespace Couple

def config : MemberConfig := { Doorway.config with memberCount := 2 }

def third : KeyPair := .ofBytes (List.replicate 32 3)

/-- The sponsor of a group of two before its start. -/
def sponsor : Chain := { Doorway.sponsor with config }

def hear (host : UInt8) (m : Message) : Input := .datagram m.encode ⟨⟨10, 0, 0, host⟩, 40000⟩

def request : Input := hear 2 (.request 7 Doorway.guest.publicValue)

def introduction : Input := hear 2 (.infoResponse .joining 7 2 Doorway.guest.publicValue)

def token : Input := hear 2 (.token 1)

def lateRequest : Input := hear 3 (.request 7 third.publicValue)

def after (c : Chain) (input : Input) : Chain := ((Chain.protocol x25519).step input c).member

def started : Chain := after sponsor .start

/-- The other member was let in. -/
def complete : Chain := after started request

/-- The other member's value was applied, and nobody was let in. -/
def ahead : Chain := after (after started introduction) token

theorem created : Chain.create config Doorway.endpoint Doorway.keys (.ofSeed 1) =
    .ok (({ member := sponsor } : Turn Chain).count .cryptoOperations) := rfl

end Couple

/-- The sponsor lets the other member in and has both keys.  The token that comes then leaves the
group secret as it is. -/
theorem key_bounds_couple :
    Couple.complete.seat.map (fun s ↦ (s.id, s.keysComputed)) = some (1, 2) ∧
    ∃ K, Couple.complete.groupSecret? = some K ∧
      (Couple.after Couple.complete Couple.token).groupSecret? = some K := by
  obtain ⟨-, inTime, -⟩ := @key_bounds x25519 _ _ _ _ _ Couple.created
  have alone : Couple.started.seat.all
      (fun s ↦ (Couple.started.directory.publicOf? (s.id + s.keysComputed)).isNone) = true := by
    decide +kernel
  have request : Couple.started.InTime Couple.request := by
    refine ⟨⟨trivial, nofun⟩, fun cause _ ↦ ?_⟩
    rintro ⟨-, -, s, seat, known⟩
    rw [seat, Option.all_some, Option.isNone_iff_eq_none] at alone
    rw [alone] at known
    cases known
  have closed : Couple.complete.isOpen = false := by decide +kernel
  have token : Couple.complete.InTime Couple.token :=
    ⟨⟨trivial, nofun⟩, fun _ _ ↦ Chain.not_calledEarly_of_closed closed⟩
  have known : Couple.complete.groupSecret?.isSome = true := by decide +kernel
  obtain ⟨K, known⟩ := Option.isSome_iff_exists.mp known
  obtain ⟨-, stays⟩ := inTime Couple.complete (.next .rest request)
  exact ⟨by decide +kernel, K, known, stays K known _ (.next .rest token)⟩

/-- A sponsor that was told the other member's value and is handed the token has both keys.  It
still lets a third one in, and loses the group secret over it. -/
theorem early_token_adds_key :
    (Chain.protocol x25519).Exposed Chain.OnceStarted Couple.started Couple.ahead ∧
    Couple.ahead.OnceStarted Couple.lateRequest ∧
    Couple.ahead.groupSecret?.isSome = true ∧
    (Couple.after Couple.ahead Couple.lateRequest).groupSecret? = none ∧
    (Couple.after Couple.ahead Couple.lateRequest).seat.map (fun s ↦ (s.id, s.keysComputed)) =
      some (1, Couple.config.size - 1 + 2) := by
  have introduction : Couple.started.OnceStarted Couple.introduction := ⟨trivial, nofun⟩
  have token : (Couple.after Couple.started Couple.introduction).OnceStarted Couple.token :=
    ⟨trivial, nofun⟩
  exact ⟨.next (.next .rest introduction) token, ⟨trivial, nofun⟩, by decide +kernel,
    by decide +kernel, by decide +kernel⟩

end GroupKey
