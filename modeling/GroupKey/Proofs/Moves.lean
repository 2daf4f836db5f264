import GroupKey.Chain.Member
import GroupKey.Protocol

/-!
# The moves of a chained member

Every reaction of a member is a sequence of moves: one change of one part of its state under the
guard that the reaction checks, or one message sent.  A move knows the input that caused the
reaction.  What all moves keep, all reactions keep, so invariants are stated over moves.
-/

namespace GroupKey

/-- A message that leaves a member, for one endpoint or for the whole group. -/
structure Outgoing where
  target : Option Endpoint
  message : Message
  deriving DecidableEq, Repr

def Effect.outgoing? : Effect → Option Outgoing
  | .multicast m => some ⟨none, m⟩
  | .unicast target m => some ⟨some target, m⟩
  | _ => none

namespace Turn

variable {σ : Type}

def outgoing (t : Turn σ) : List Outgoing := t.effects.filterMap Effect.outgoing?

@[simp] theorem outgoing_emit (t : Turn σ) (e : Event) : (t.emit e).outgoing = t.outgoing := by
  simp [emit, act, outgoing, Effect.outgoing?]

@[simp] theorem outgoing_count (t : Turn σ) (m : CountMetric) :
    (t.count m).outgoing = t.outgoing := rfl

@[simp] theorem outgoing_mark (t : Turn σ) (m : TimeMetric) :
    (t.mark m).outgoing = t.outgoing := rfl

@[simp] theorem outgoing_modify (t : Turn σ) (f : σ → σ) : (t.modify f).outgoing = t.outgoing := rfl

@[simp] theorem outgoing_terminate (t : Turn σ) : (t.act .terminate).outgoing = t.outgoing := by
  simp [act, outgoing, Effect.outgoing?]

@[simp] theorem outgoing_act_schedule (t : Turn σ) (task : Task) (delay : Nat) :
    (t.act (.schedule task delay)).outgoing = t.outgoing := by
  simp [act, outgoing, Effect.outgoing?]

@[simp] theorem outgoing_act_cancel (t : Turn σ) (task : Task) :
    (t.act (.cancel task)).outgoing = t.outgoing := by
  simp [act, outgoing, Effect.outgoing?]

@[simp] theorem outgoing_multicast (t : Turn σ) (m : Message) :
    (t.multicast m).outgoing = t.outgoing ++ [⟨none, m⟩] := by
  simp [multicast, count, measure, act, outgoing, Effect.outgoing?]

@[simp] theorem outgoing_unicast (t : Turn σ) (target : Endpoint) (m : Message) :
    (t.unicast target m).outgoing = t.outgoing ++ [⟨some target, m⟩] := by
  simp [unicast, count, measure, act, outgoing, Effect.outgoing?]

@[simp] theorem member_emit (t : Turn σ) (e : Event) : (t.emit e).member = t.member := rfl

@[simp] theorem member_count (t : Turn σ) (m : CountMetric) : (t.count m).member = t.member := rfl

@[simp] theorem member_mark (t : Turn σ) (m : TimeMetric) : (t.mark m).member = t.member := rfl

@[simp] theorem member_act (t : Turn σ) (e : Effect) : (t.act e).member = t.member := rfl

@[simp] theorem member_modify (t : Turn σ) (f : σ → σ) : (t.modify f).member = f t.member := rfl

@[simp] theorem member_multicast (t : Turn σ) (m : Message) : (t.multicast m).member = t.member :=
  rfl

@[simp] theorem member_unicast (t : Turn σ) (target : Endpoint) (m : Message) :
    (t.unicast target m).member = t.member := rfl

section Agenda

variable [Busy σ]

@[simp] theorem outgoing_setAgenda (t : Turn σ) (a : Agenda) :
    (t.setAgenda a).outgoing = t.outgoing := rfl

/-- Deadlines are set for the member alone, so nothing leaves it by them. -/
@[simp] theorem outgoing_schedule (t : Turn σ) (task : Task) :
    (t.schedule task).outgoing = t.outgoing := by
  unfold schedule
  split
  · rfl
  · simp

@[simp] theorem outgoing_scheduleAfter (t : Turn σ) (task : Task) (delay : Nat) :
    (t.scheduleAfter task delay).outgoing = t.outgoing := by
  simp [scheduleAfter]

@[simp] theorem outgoing_cancel (t : Turn σ) (task : Task) :
    (t.cancel task).outgoing = t.outgoing := by
  unfold cancel
  split
  · simp
  · rfl

/-- To repeat a message changes nothing but the agenda. -/
theorem member_keepSending (t : Turn σ) (task : Task) (target : Option Endpoint) (m : Message) :
    ∃ agenda, (t.keepSending task target m).member = Busy.withAgenda t.member agenda := by
  have sent : (t.send target m).member = t.member := by cases target <;> rfl
  unfold keepSending schedule
  split
  · exact ⟨_, (Busy.withAgenda_agenda t.member).symm⟩
  · split
    · exact ⟨_, sent.trans (Busy.withAgenda_agenda t.member).symm⟩
    · dsimp only
      rw [member_act, setAgenda, member_modify, sent]
      exact ⟨_, rfl⟩

end Agenda

section Terminable

variable [Terminable σ]

/-- The end of a run is an event, not a message. -/
@[simp] theorem outgoing_endRun (t : Turn σ) : t.endRun.outgoing = t.outgoing := by
  unfold endRun
  split
  · rfl
  · simp

/-- The end of a run changes nothing but the flag for it. -/
theorem member_endRun (t : Turn σ) :
    ∃ finished, t.endRun.member = Terminable.withFinished t.member finished := by
  unfold endRun
  split
  · exact ⟨_, (Terminable.withFinished_finished t.member).symm⟩
  · exact ⟨true, rfl⟩

theorem finished_endRun (t : Turn σ) : Terminable.finished t.endRun.member = true := by
  unfold endRun
  split
  · next ended => exact ended
  · exact Terminable.finished_withFinished t.member true

end Terminable

end Turn

namespace Chain

/-- Both computations behind a first seat have succeeded, and the seat is the one they make. -/
theorem firstSeat_eq_ok {kx : KeyExchange} {keys : KeyPair} {groupPublic : PublicValue} {id : Nat}
    {s : Seat} (granted : firstSeat kx keys groupPublic id = .ok s) :
    ∃ root rootPublic, kx.agree keys.secret groupPublic = .ok root ∧
      kx.publicOf root = .ok rootPublic ∧
      s = ⟨id, 1, .leaf root (some rootPublic) (some keys.secret) keys.publicValue, true⟩ := by
  unfold firstSeat at granted
  cases agreed : kx.agree keys.secret groupPublic with
  | error e => simp [agreed, bind, Except.bind] at granted
  | ok root =>
    cases public_ok : kx.publicOf root with
    | error e => simp [agreed, public_ok, bind, Except.bind] at granted
    | ok rootPublic =>
      simp only [agreed, public_ok, bind, Except.bind] at granted
      exact ⟨root, rootPublic, rfl, public_ok, (Except.ok.inj granted).symm⟩

/-- The public value was there before the tree grew, and the new seat differs by that one
contribution. -/
theorem seatAfter_eq_ok {kx : KeyExchange} {s new : Seat} {candidate : Candidate}
    {before : PublicValue} (granted : seatAfter kx s candidate = .ok (new, before)) :
    ∃ tree, s.tree.rootPublic kx = .ok before ∧
      s.tree.extend kx candidate.publicValue false = .ok tree ∧
      new = { s with tree, keysComputed := s.keysComputed + 1, sponsor := false } := by
  unfold seatAfter at granted
  cases public_ok : s.tree.rootPublic kx with
  | error e => simp [public_ok, bind, Except.bind] at granted
  | ok value =>
    cases extended : s.tree.extend kx candidate.publicValue false with
    | error e => simp [public_ok, extended, bind, Except.bind] at granted
    | ok tree =>
      simp only [public_ok, extended, bind, Except.bind] at granted
      obtain ⟨rfl, rfl⟩ := Prod.mk.inj (Except.ok.inj granted)
      exact ⟨tree, rfl, rfl, rfl⟩

/-! ## Frames -/

/-- To learn about a member concerns the directory and the queue only. -/
theorem learn_frame (c : Chain) (endpoint : Endpoint) (id : Nat) (value : PublicValue) :
    ∃ directory pending, c.learn endpoint id value = { c with directory, pending } := by
  unfold learn
  split
  · exact ⟨c.directory, c.pending, rfl⟩
  · exact ⟨_, _, rfl⟩

/-- Whoever was seen acting, only the hand-over can change. -/
theorem hearAssigned_frame (c : Chain) (source : Endpoint) :
    ∃ handOver, c.hearAssigned source = { c with handOver } := by
  unfold hearAssigned
  split
  · exact ⟨_, rfl⟩
  · exact ⟨c.handOver, rfl⟩

/-- A candidate is written down in the queue and nowhere else. -/
theorem enqueue_frame (c : Chain) (candidate : Candidate) :
    ∃ pending, c.enqueue candidate = { c with pending } := by
  unfold enqueue
  split
  · exact ⟨c.pending, rfl⟩
  · exact ⟨_, rfl⟩

/-- These are all ids below its own that a member knows nobody for, or all behind its newest key. -/
def Lacks (c : Chain) (ids : List MemberId) : Prop :=
  ids ≠ [] ∧ (ids = c.gapsBelow.map UInt16.ofNat ∨ ids = c.gapsAbove.map UInt16.ofNat)

/-- What a member may say, apart from its answer to the end. -/
def MaySay (c : Chain) : Message → Prop
  | .find service => service = c.config.service
  | .offer service => service = c.config.service ∧ c.isOpen
  | .request service value =>
    service = c.config.service ∧ c.seat = none ∧ value = c.keys.publicValue
  | .response r => ∃ h, c.handOver = some h ∧ h.response = r
  | .infoRequest phase service ids =>
    service = c.config.service ∧ (c.seat.isSome ∧ (phase = .synch → c.token.held)) ∧ c.Lacks ids
  | .infoResponse _ service id value =>
    service = c.config.service ∧ value = c.keys.publicValue ∧
      ∃ s, c.seat = some s ∧ id = UInt16.ofNat s.id
  | .token target =>
    c.token.passed ∧ ∃ s, c.seat = some s ∧ target = UInt16.ofNat (successor s.id c.size)
  | .finish => c.isClosing
  | .finishAck => False
  | .distributed _ => False

/-- The messages that only members with a seat send. -/
def ShowsSeat : Message → Prop
  | .offer _ => True
  | .response _ => True
  | .infoRequest _ _ _ => True
  | .infoResponse _ _ _ _ => True
  | .token _ => True
  | _ => False

/-- An input that tells who holds an id and what it contributed. -/
def Tells (cause : Input) (endpoint : Endpoint) (id : Nat) (value : PublicValue) : Prop :=
  (∃ phase service held, cause = .message (.infoResponse phase service held value) endpoint ∧
    id = held.toNat) ∨
  (∃ r, cause = .message (.response r) endpoint ∧ id = r.newSponsor.id.toNat - 1 ∧
    value = r.predecessorPublic) ∨
  (∃ r source, cause = .message (.response r) source ∧ endpoint = r.newSponsor.endpoint ∧
    id = r.newSponsor.id.toNat ∧ value = r.newSponsor.publicValue)

/-- An input from which a member concludes that its hand-over arrived. -/
def SeesHandOver (c : Chain) (cause : Input) : Prop :=
  (∃ m source, cause = .message m source ∧ ShowsSeat m ∧ c.heir? = some source) ∨
  (∃ r source s, cause = .message (.response r) source ∧ c.seat = some s ∧
    s.id + 1 < r.newSponsor.id.toNat)

/-- An input from which a member concludes that its successor holds the token. -/
def SeesToken (c : Chain) (cause : Input) : Prop :=
  (∃ service ids source, cause = .message (.infoRequest .synch service ids) source ∧
    c.directory.idOf? source = c.successorId?) ∨
  (∃ target source s, cause = .message (.token target) source ∧ c.seat = some s ∧
    successor s.id c.size ≠ c.size ∧
    (target.toNat = successor (successor s.id c.size) c.size ∨
      c.directory.idOf? source = some (successor s.id c.size)))

/-- An input that hands the token to the member itself. -/
def Summoned (c : Chain) (cause : Input) : Prop :=
  ∃ target source s, cause = .message (.token target) source ∧ c.seat = some s ∧
    target.toNat = s.id

/-- Why a member ends its run without saying anything. -/
def MayFinish (c : Chain) (cause : Input) : Prop :=
  (cause = .start ∧ c.size = 1) ∨
  (∃ source, cause = .message .finish source ∧ c.seat = none) ∨
  (∃ acks, c.farewells = some acks ∧ c.size ≤ acks.length + 1) ∨
  (cause = .timer .finishTimeout ∧ c.isClosing)

/-- Two tasks repeat what the member has done, so they are not armed before it has done it. -/
def MayArm (c : Chain) : Task → Prop
  | .response => c.handOver.isSome
  | .synchToken => c.token.passed
  | _ => True

/-! ## Moves -/

/-- One thing a member does at once: the messages that leave it and its state afterwards. -/
inductive Move (kx : KeyExchange) (cause : Input) (c : Chain) : List Outgoing → Chain → Prop
  | say (target : Option Endpoint) (m : Message) (may : c.MaySay m) :
    Move kx cause c [⟨target, m⟩] c
  | plan (agenda : Agenda)
    (grounds : ∀ task, agenda.isArmed task → c.agenda.isArmed task ∨ c.MayArm task) :
    Move kx cause c [] { c with agenda }
  | announce : Move kx cause c [] { c with announced := true }
  | findSponsor (service : ServiceId) (source : Endpoint)
    (offered : cause = .message (.offer service) source) :
    Move kx cause c [] { c with sponsorFound := true }
  | learn (endpoint : Endpoint) (id : Nat) (value : PublicValue)
    (told : Tells cause endpoint id value) : Move kx cause c [] (c.learn endpoint id value)
  | confirm (seen : c.SeesHandOver cause) : Move kx cause c [] c.confirm
  | enqueue (service : ServiceId) (value : PublicValue) (source : Endpoint)
    (asked : cause = .message (.request service value) source)
    (unknown : c.directory.containsEndpoint source = false) :
    Move kx cause c [] (c.enqueue ⟨source, value⟩)
  | forget (pending : List Candidate) (part : pending.Sublist c.pending) :
    Move kx cause c [] { c with pending }
  | openGroup (first : cause = .start) (chosen : c.config.sponsor = true) (free : c.seat = none) :
    Move kx cause c []
      { c with
        seat := some c.openingSeat
        directory := (c.directory.record c.endpoint 1 c.keys.publicValue).2 }
  | takeSeat (r : Response) (source : Endpoint) (s : Seat)
    (named : cause = .message (.response r) source) (own : r.newSponsor.endpoint = c.endpoint)
    (value : r.newSponsor.publicValue = c.keys.publicValue)
    (count : r.memberCount = c.config.memberCount) (free : c.seat = none)
    (running : c.finished = false)
    (granted : firstSeat kx c.keys r.groupPublic r.newSponsor.id.toNat = .ok s) :
    Move kx cause c []
      { c with
        seat := some s
        directory := (c.directory.record c.endpoint r.newSponsor.id.toNat c.keys.publicValue).2 }
  | resign (s : Seat) (seat : c.seat = some s) (last : c.size ≤ s.id) :
    Move kx cause c [] { c with seat := some { s with sponsor := false } }
  | enrol (s new : Seat) (candidate : Candidate) (rest : List Candidate) (before : PublicValue)
    (seat : c.seat = some s) (isOpen : c.isOpen) (known : c.gapsBelow = [])
    (queue : (candidate :: rest).Sublist c.pending)
    (unknown : c.directory.containsEndpoint candidate.endpoint = false)
    (granted : seatAfter kx s candidate = .ok (new, before)) :
    Move kx cause c []
      { c with
        pending := rest
        seat := some new
        directory := (c.directory.record candidate.endpoint (s.id + 1) candidate.publicValue).2
        handOver := some { response := c.responseFor (s.id + 1) candidate before } }
  | extend (s : Seat) (value : PublicValue) (tree : KeyTree) (seat : c.seat = some s)
    (known : c.directory.publicOf? (s.id + s.keysComputed) = some value)
    (room : s.id + s.keysComputed ≤ c.size) (granted : s.tree.extend kx value false = .ok tree)
    (right : s.sponsor = false ∨ c.Summoned cause) :
    Move kx cause c []
      { c with seat := some { s with tree, keysComputed := s.keysComputed + 1 } }
  | hold (target : MemberId) (source : Endpoint) (s : Seat)
    (sent : cause = .message (.token target) source) (seat : c.seat = some s)
    (own : target.toNat = s.id) (running : c.finished = false) :
    Move kx cause c [] { c with token.held := true }
  | pass (s : Seat) (seat : c.seat = some s) (complete : c.isComplete)
    (turn : c.token.held ∨ c.size ≤ s.id) : Move kx cause c [] { c with token.passed := true }
  | seeTaken (passed : c.token.passed) (seen : c.SeesToken cause) :
    Move kx cause c [] { c with token.taken := true }
  | close (s : Seat) (seat : c.seat = some s) (last : s.id = c.size) (held : c.token.held)
    (still : c.farewells = none) (running : c.finished = false) :
    Move kx cause c [] { c with farewells := some [] }
  | acknowledge (source : Endpoint) (acks : List Endpoint)
    (sent : cause = .message .finishAck source) (closing : c.farewells = some acks)
    (running : c.finished = false) :
    Move kx cause c [] { c with farewells := some (acks.insert source) }
  | finish (running : c.finished = false) (may : c.MayFinish cause) :
    Move kx cause c [] { c with finished := true }
  | bowOut (source : Endpoint) (sent : cause = .message .finish source) (seated : c.seat.isSome)
    (running : c.finished = false) (still : c.farewells = none) :
    Move kx cause c [⟨some source, .finishAck⟩] { c with finished := true }

/-- Moves one after the other, from a fixed state. -/
inductive Moves (kx : KeyExchange) (cause : Input) (c : Chain) : List Outgoing → Chain → Prop
  | rest : Moves kx cause c [] c
  | tail {said more : List Outgoing} {d e : Chain} (moves : Moves kx cause c said d)
    (move : Move kx cause d more e) : Moves kx cause c (said ++ more) e

variable {kx : KeyExchange} {cause : Input} {c d e : Chain} {said : List Outgoing}

/-- Moves that say nothing leave what was said as it is. -/
theorem Moves.silent (moves : Moves kx cause c said d) (move : Move kx cause d [] e) :
    Moves kx cause c said e := by
  simpa using moves.tail move

end Chain

end GroupKey
