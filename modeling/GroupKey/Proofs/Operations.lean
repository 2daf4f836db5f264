import GroupKey.Proofs.Reactions
import GroupKey.Star.Member
import Mathlib.Logic.Relation

/-!
# Reactions are made of operations

Whatever a member does in a turn, it does by a few operations: it tells its application something,
sends, counts, changes its state, and arms or takes off tasks.  The last two leave an effect behind
each time, so the effects of a turn say how the agenda has changed.
-/

namespace GroupKey

/-- Members that keep the configuration they were made from, and draw delays from its window. -/
class Configured (σ : Type) [Busy σ] [Terminable σ] where
  config : σ → MemberConfig
  window_eq : ∀ m, Busy.window m = (config m).scatterDelay
  config_withAgenda : ∀ (m : σ) (a : Agenda), config (Busy.withAgenda m a) = config m
  config_withFinished : ∀ (m : σ) (b : Bool), config (Terminable.withFinished m b) = config m
  agenda_withFinished : ∀ (m : σ) (b : Bool),
    Busy.agenda (Terminable.withFinished m b) = Busy.agenda m

instance : Configured Chain where
  config c := c.config
  window_eq _ := rfl
  config_withAgenda _ _ := rfl
  config_withFinished _ _ := rfl
  agenda_withFinished _ _ := rfl

instance : Configured Star where
  config m := m.config
  window_eq _ := rfl
  config_withAgenda _ _ := rfl
  config_withFinished _ _ := rfl
  agenda_withFinished _ _ := rfl

/-- What an effect asks of the one who keeps the deadlines. -/
inductive Order
  | arm (task : Task)
  | drop (task : Task)
  deriving DecidableEq, Repr

/-- Whether a task is armed once an order is carried out, given whether it was before. -/
def Order.obey (task : Task) (armed : Bool) : Order → Bool
  | arm other => decide (task = other) || armed
  | drop other => decide (task ≠ other) && armed

def Effect.order? : Effect → Option Order
  | schedule task _ => some (.arm task)
  | cancel task => some (.drop task)
  | _ => none

namespace Turn

section Orders

variable {σ : Type}

def orders (t : Turn σ) : List Order := t.effects.filterMap Effect.order?

@[simp] theorem orders_count (t : Turn σ) (m : CountMetric) : (t.count m).orders = t.orders := rfl

@[simp] theorem orders_mark (t : Turn σ) (m : TimeMetric) : (t.mark m).orders = t.orders := rfl

@[simp] theorem orders_modify (t : Turn σ) (f : σ → σ) : (t.modify f).orders = t.orders := rfl

/-- An effect adds its order, if it is one. -/
@[simp] theorem orders_act (t : Turn σ) (e : Effect) :
    (t.act e).orders = t.orders ++ e.order?.toList := by
  cases e <;> simp [act, orders, Effect.order?]

@[simp] theorem orders_emit (t : Turn σ) (e : Event) : (t.emit e).orders = t.orders := by
  simp [emit, Effect.order?]

@[simp] theorem orders_multicast (t : Turn σ) (m : Message) :
    (t.multicast m).orders = t.orders := by
  simp [multicast, Effect.order?]

@[simp] theorem orders_unicast (t : Turn σ) (target : Endpoint) (m : Message) :
    (t.unicast target m).orders = t.orders := by
  simp [unicast, Effect.order?]

@[simp] theorem orders_send (t : Turn σ) (target : Option Endpoint) (m : Message) :
    (t.send target m).orders = t.orders := by
  cases target
  · exact orders_multicast t m
  · exact orders_unicast t _ m

/-- The end of a run drops no task.  The host stops, and its deadlines with it. -/
@[simp] theorem orders_endRun [Terminable σ] (t : Turn σ) : t.endRun.orders = t.orders := by
  unfold endRun
  split
  · rfl
  · simp [Effect.order?]

variable [Busy σ]

@[simp] theorem isArmed_send (t : Turn σ) (target : Option Endpoint) (m : Message) (task : Task) :
    (t.send target m).isArmed task = t.isArmed task := by
  cases target <;> rfl

@[simp] theorem orders_setAgenda (t : Turn σ) (a : Agenda) : (t.setAgenda a).orders = t.orders :=
  rfl

/-- A task that is armed is not armed again. -/
theorem orders_schedule (t : Turn σ) (task : Task) :
    (t.schedule task).orders = t.orders ++ if t.isArmed task then [] else [.arm task] := by
  unfold schedule
  split
  · next armed => simp
  · simp [Effect.order?]

/-- A task that is not armed is not dropped. -/
theorem orders_cancel (t : Turn σ) (task : Task) :
    (t.cancel task).orders = t.orders ++ if t.isArmed task then [.drop task] else [] := by
  unfold cancel
  split
  · simp [Effect.order?]
  · simp

/-- A message is repeated by one deadline at a time. -/
theorem orders_keepSending (t : Turn σ) (task : Task) (target : Option Endpoint) (m : Message) :
    (t.keepSending task target m).orders =
      t.orders ++ if t.isArmed task then [] else [.arm task] := by
  unfold keepSending
  split
  · simp
  · next idle => simp [orders_schedule, idle]

end Orders

end Turn

namespace Turn

variable {σ : Type} [Busy σ]

section Operations

variable [Terminable σ] [Configured σ]

/-- What a change of state leaves as it is: the armed tasks and the configuration. -/
def fixtures (m : σ) : List Task × MemberConfig := ((Busy.agenda m).armed, Configured.config m)

/-- One thing done in a turn.  Besides messages, only the members and what they compute are counted,
and a change of state leaves the armed tasks and the configuration as they are.  Only one task is
armed with a delay that is not drawn. -/
inductive Operation (t : Turn σ) : Turn σ → Prop
  | emit (e : Event) : Operation t (t.emit e)
  | count (m : CountMetric) (own : m = .memberCount ∨ m = .cryptoOperations) :
    Operation t (t.count m)
  | mark (m : TimeMetric) : Operation t (t.mark m)
  | send (target : Option Endpoint) (m : Message) : Operation t (t.send target m)
  | change (f : σ → σ) (same : fixtures (f t.member) = fixtures t.member) :
    Operation t (t.modify f)
  | schedule (task : Task) (drawn : task ≠ .finishTimeout) : Operation t (t.schedule task)
  | scheduleTimeout (delay : Nat) (given : delay = (Configured.config t.member).finishTimeout) :
    Operation t (t.scheduleAfter .finishTimeout delay)
  | cancel (task : Task) : Operation t (t.cancel task)
  | terminate : Operation t (t.act .terminate)

/-- One state of a turn comes from another by operations. -/
def Leads : Turn σ → Turn σ → Prop := Relation.ReflTransGen Operation

variable {t u v : Turn σ}

/-- The configuration survives every operation. -/
theorem Operation.config_eq (operation : t.Operation u) :
    Configured.config u.member = Configured.config t.member := by
  cases operation with
  | change f same => exact congrArg Prod.snd same
  | send target m => cases target <;> rfl
  | schedule task drawn =>
    unfold Turn.schedule
    split
    · rfl
    · exact Configured.config_withAgenda _ _
  | scheduleTimeout delay given => exact Configured.config_withAgenda _ _
  | cancel task =>
    unfold Turn.cancel
    split
    · exact Configured.config_withAgenda _ _
    · rfl
  | _ => rfl

namespace Leads

theorem config_eq (l : t.Leads u) : Configured.config u.member = Configured.config t.member := by
  induction l with
  | refl => rfl
  | tail _ operation ih => exact operation.config_eq.trans ih

theorem refl (t : Turn σ) : t.Leads t := Relation.ReflTransGen.refl

theorem emit (l : t.Leads u) (e : Event) : t.Leads (u.emit e) := l.tail (.emit e)

theorem count (l : t.Leads u) {m : CountMetric} (own : m = .memberCount ∨ m = .cryptoOperations) :
    t.Leads (u.count m) :=
  l.tail (.count m own)

theorem mark (l : t.Leads u) (m : TimeMetric) : t.Leads (u.mark m) := l.tail (.mark m)

theorem send (l : t.Leads u) (target : Option Endpoint) (m : Message) :
    t.Leads (u.send target m) :=
  l.tail (.send target m)

theorem multicast (l : t.Leads u) (m : Message) : t.Leads (u.multicast m) := l.send none m

theorem unicast (l : t.Leads u) (target : Endpoint) (m : Message) :
    t.Leads (u.unicast target m) :=
  l.send (some target) m

/-- The state may change as it likes, except for the tasks and the configuration. -/
theorem change (l : t.Leads u) (f : σ → σ) (same : fixtures (f u.member) = fixtures u.member) :
    t.Leads (u.modify f) :=
  l.tail (.change f same)

/-- All delays but the last member's patience are drawn from the window. -/
theorem schedule (l : t.Leads u) {task : Task} (drawn : task ≠ .finishTimeout) :
    t.Leads (u.schedule task) :=
  l.tail (.schedule task drawn)

/-- The time a member waits for the others' farewells is the one it was configured with. -/
theorem scheduleTimeout (l : t.Leads u) (m : u.Leads v) :
    t.Leads (v.scheduleAfter .finishTimeout (Configured.config u.member).finishTimeout) :=
  (l.trans m).tail (.scheduleTimeout _ (by rw [m.config_eq]))

theorem cancel (l : t.Leads u) (task : Task) : t.Leads (u.cancel task) := l.tail (.cancel task)

theorem terminate (l : t.Leads u) : t.Leads (u.act .terminate) := l.tail .terminate

/-- A message is sent at once and its repetition planned, or it is being repeated already. -/
theorem keepSending (l : t.Leads u) {task : Task} (drawn : task ≠ .finishTimeout)
    (target : Option Endpoint) (m : Message) : t.Leads (u.keepSending task target m) := by
  unfold Turn.keepSending
  split
  · exact l
  · exact (l.send target m).schedule drawn

/-- The end of a run is a change of the state, a mark, an event and the order to stop. -/
theorem endRun (l : t.Leads u) : t.Leads u.endRun := by
  have same : fixtures (Terminable.withFinished u.member true) = fixtures u.member := by
    rw [fixtures, Configured.agenda_withFinished, Configured.config_withFinished, fixtures]
  unfold Turn.endRun
  split
  · exact l
  · exact (((l.change _ same).mark _).emit _).terminate

end Leads

end Operations

@[simp] theorem isArmed_setAgenda (t : Turn σ) (a : Agenda) (task : Task) :
    (t.setAgenda a).isArmed task = a.isArmed task := by
  simp only [isArmed, setAgenda, member_modify, Busy.agenda_withAgenda]

/-- A task that is cancelled is idle after that, and others are as before. -/
theorem isArmed_cancel (t : Turn σ) (task other : Task) :
    (t.cancel task).isArmed other = (decide (other ≠ task) && t.isArmed other) := by
  by_cases armed : t.isArmed task
  · rw [cancel, if_pos armed]
    change ((t.setAgenda _).isArmed other) = _
    rw [isArmed_setAgenda]
    exact Agenda.isArmed_remove _ task other
  · rw [cancel, if_neg armed]
    by_cases same : other = task
    · simp [same, armed]
    · simp [same]

/-- A task that is scheduled is armed after that, and others are as before. -/
theorem isArmed_schedule (t : Turn σ) (task other : Task) :
    (t.schedule task).isArmed other = (decide (other = task) || t.isArmed other) := by
  unfold schedule
  split
  · next armed => by_cases same : other = task <;> simp [same, armed]
  · change ((t.setAgenda _).isArmed other) = _
    rw [isArmed_setAgenda]
    exact Agenda.isArmed_insert _ task other

theorem isArmed_scheduleAfter (t : Turn σ) (task : Task) (delay : Nat) (other : Task) :
    (t.scheduleAfter task delay).isArmed other = (decide (other = task) || t.isArmed other) := by
  change ((t.setAgenda _).isArmed other) = _
  rw [isArmed_setAgenda]
  exact Agenda.isArmed_insert _ task other

theorem isArmed_keepSending (t : Turn σ) (task : Task) (target : Option Endpoint) (m : Message)
    (other : Task) :
    (t.keepSending task target m).isArmed other = (decide (other = task) || t.isArmed other) := by
  unfold keepSending
  split
  · next armed => by_cases same : other = task <;> simp [same, armed]
  · rw [isArmed_schedule, isArmed_send]

variable [Terminable σ] [Configured σ] {t u : Turn σ}

/-- The orders that an operation adds account for its change of the agenda. -/
theorem Operation.accounts (operation : t.Operation u) :
    ∃ more, u.orders = t.orders ++ more ∧
      ∀ task, u.isArmed task = more.foldl (Order.obey task) (t.isArmed task) := by
  cases operation with
  | emit e => exact ⟨[], by simp, fun _ ↦ rfl⟩
  | count m => exact ⟨[], by simp, fun _ ↦ rfl⟩
  | mark m => exact ⟨[], by simp, fun _ ↦ rfl⟩
  | terminate => exact ⟨[], by simp [Effect.order?], fun _ ↦ rfl⟩
  | send target m => exact ⟨[], by simp, fun _ ↦ by simp⟩
  | change f same =>
    refine ⟨[], by simp, fun task ↦ ?_⟩
    have armed : (Busy.agenda (f t.member)).armed = (Busy.agenda t.member).armed :=
      congrArg Prod.fst same
    rw [isArmed, Agenda.isArmed, member_modify, armed]
    rfl
  | schedule task =>
    refine ⟨_, orders_schedule t task, fun other ↦ ?_⟩
    rw [isArmed_schedule]
    by_cases armed : t.isArmed task
    · by_cases same : other = task <;> simp [armed, same]
    · simp [armed, Order.obey]
  | scheduleTimeout delay =>
    refine ⟨[.arm .finishTimeout], by simp [Turn.scheduleAfter, Effect.order?], fun other ↦ ?_⟩
    exact isArmed_scheduleAfter t .finishTimeout delay other
  | cancel task =>
    refine ⟨_, orders_cancel t task, fun other ↦ ?_⟩
    rw [isArmed_cancel]
    by_cases armed : t.isArmed task
    · simp [armed, Order.obey]
    · by_cases same : other = task <;> simp [armed, same]

/-- The orders given in a turn account for every change of the agenda. -/
theorem Leads.accounts (l : t.Leads u) :
    ∃ more, u.orders = t.orders ++ more ∧
      ∀ task, u.isArmed task = more.foldl (Order.obey task) (t.isArmed task) := by
  induction l with
  | refl => exact ⟨[], (List.append_nil _).symm, fun _ ↦ rfl⟩
  | tail _ operation ih =>
    obtain ⟨before, orders, armed⟩ := ih
    obtain ⟨more, orders', armed'⟩ := operation.accounts
    refine ⟨before ++ more, ?_, fun task ↦ ?_⟩
    · rw [orders', orders, List.append_assoc]
    · rw [armed', armed, List.foldl_append]

/-- The turn in which an input is answered: the task of a deadline is off the agenda. -/
def opening (input : Input) (member : σ) : Turn σ :=
  match input with
  | .timer task => ({ member } : Turn σ).disarm task
  | _ => { member }

end Turn

namespace Protocol

variable {σ : Type} [Busy σ] [Terminable σ] [Configured σ]

/-- What a turn is made of follows from what the reactions are made of. -/
theorem leads_step {p : Protocol σ}
    (begin : ∀ t : Turn σ, t.Leads (p.begin t))
    (expire : ∀ (task : Task) (t : Turn σ), (t.disarm task).Leads (p.expire task t))
    (answer : ∀ (m : Message) (source : Endpoint) (t : Turn σ), t.Leads (p.answer m source t))
    (input : Input) (member : σ) : (Turn.opening input member).Leads (p.step input member) := by
  cases input with
  | start => exact begin _
  | timer task => exact expire task _
  | message m source => exact answer m source _
  | datagram bytes source =>
    unfold Protocol.step Turn.opening Protocol.receive
    dsimp only
    split
    · exact .refl _
    · split
      · exact answer _ source _
      · exact .refl _

end Protocol

/-! ## Reactions of chained members -/

namespace Chain

variable {kx : KeyExchange} {t u : Turn Chain}

theorem leads_hearAssigned (l : t.Leads u) (source : Endpoint) :
    t.Leads (u.modify fun c ↦ c.hearAssigned source) := by
  obtain ⟨_, frame⟩ := hearAssigned_frame u.member source
  exact l.change _ (by rw [frame]; rfl)

theorem leads_reportKey (l : t.Leads u) : t.Leads (reportKey u) := by
  unfold reportKey
  split
  · exact l.emit _
  · exact l.emit _

/-- Only the first announcement does anything, and it changes neither tasks nor configuration. -/
theorem leads_announceKey (l : t.Leads u) : t.Leads (announceKey u) := by
  unfold announceKey
  split
  · split
    · exact l
    · exact (l.change _ (by rfl)).emit _
  · exact l

theorem leads_seeTokenTaken (l : t.Leads u) : t.Leads (seeTokenTaken u) := by
  unfold seeTokenTaken
  split
  · exact l
  · exact (l.change _ (by rfl)).cancel _

/-- The token is marked as passed on before it is sent. -/
theorem leads_passToken (l : t.Leads u) : t.Leads (passToken u) := by
  unfold passToken
  split
  · exact (l.change _ (by rfl)).keepSending (by nofun) _ _
  · exact l

theorem leads_tendToken (l : t.Leads u) : t.Leads (tendToken u) := by
  unfold tendToken
  dsimp only
  split
  · exact l
  · split
    · split
      · exact l.cancel _
      · exact leads_passToken (l.cancel _)
    · split
      · exact l
      · exact l.keepSending (by nofun) _ _

/-- The last member's patience is a number of the configuration, which the steps before it keep. -/
theorem leads_announceEnd (l : t.Leads u) : t.Leads (announceEnd u) :=
  l.scheduleTimeout ((((Turn.Leads.refl u).change _ (by rfl)).cancel _).keepSending (by nofun) _ _)

/-- The induction is on the ids.  Each value takes one operation of the key exchange. -/
theorem leads_applyAll (ids : List Nat) (l : t.Leads u) : t.Leads (applyAll kx ids u) := by
  induction ids generalizing u with
  | nil => exact l
  | cons id ids ih =>
    unfold applyAll
    split
    · split
      · exact l.emit _
      · exact ih (leads_reportKey ((l.count (.inr rfl)).change _ (by rfl)))
    · exact l

theorem leads_cascade (l : t.Leads u) : t.Leads (cascade kx u) := by
  unfold cascade
  split
  · exact leads_announceKey (leads_applyAll _ l)
  · exact l

/-- The public value that goes out is computed here, unless it was stored with the tree. -/
theorem leads_enrol (old new : Seat) (before : PublicValue) (candidate : Candidate)
    (l : t.Leads u) : t.Leads (enrol old new before candidate u) := by
  have counted : t.Leads (countAdmission old u) := by
    unfold countAdmission
    split
    · exact (l.count (.inr rfl)).count (.inr rfl)
    · exact l.count (.inr rfl)
  have told : t.Leads (letIn old new before candidate u) :=
    (((counted.change _ rfl).cancel .offer).cancel .infoRequest).emit _
  rw [enrol_eq]
  exact leads_announceKey ((leads_reportKey told).keepSending (by nofun) _ _)

/-- The induction is on the queue.  Candidates that are passed over take no operation. -/
theorem leads_enrolFirst (s : Seat) (queue : List Candidate) (l : t.Leads u) :
    t.Leads (enrolFirst kx s queue u) := by
  induction queue with
  | nil => exact (l.change _ (by rfl)).keepSending (by nofun) _ _
  | cons candidate rest ih =>
    unfold enrolFirst
    split
    · exact ih
    · split
      · exact ih
      · exact leads_enrol _ _ _ _ (l.change _ (by rfl))

theorem leads_attendQueue (l : t.Leads u) : t.Leads (attendQueue kx u) := by
  unfold attendQueue
  split
  · exact l
  · split
    · exact l
    · dsimp only
      split
      · exact leads_enrolFirst _ _ (l.cancel _)
      · exact l.keepSending (by nofun) _ _

theorem leads_makeProgress (l : t.Leads u) : t.Leads (makeProgress kx u) := by
  unfold makeProgress
  split
  · exact l
  · split
    · exact leads_attendQueue l
    · exact leads_tendToken (leads_cascade l)

theorem leads_openOffice (s : Seat) (l : t.Leads u) : t.Leads (openOffice kx s u) := by
  unfold openOffice
  split
  · split
    · exact l.keepSending (by nofun) _ _
    · exact leads_attendQueue l
  · exact leads_passToken (leads_announceKey (l.change _ (by rfl)))

/-- A new member computed two values, and it asks for nothing any more. -/
theorem leads_takeSeat (groupPublic : PublicValue) (id : Nat) (l : t.Leads u) :
    t.Leads (takeSeat kx groupPublic id u) := by
  unfold takeSeat
  split
  · exact l.emit _
  · next s _ =>
    have seated := ((l.count (.inr rfl)).count (.inr rfl)).change (fun c ↦
      { c with
        seat := some s
        directory := (c.directory.record c.endpoint id c.keys.publicValue).2 }) rfl
    have free := ((seated.mark .keyAgreementStart).cancel .request).cancel .find
    exact leads_openOffice s (leads_reportKey ((free.emit _).emit _))

theorem leads_answerFind (service : ServiceId) (l : t.Leads u) :
    t.Leads (answerFind service u) := by
  unfold answerFind
  split
  · exact l.multicast _
  · exact l

theorem leads_answerOffer (service : ServiceId) (source : Endpoint) (l : t.Leads u) :
    t.Leads (answerOffer service source u) := by
  unfold answerOffer
  split
  · exact leads_hearAssigned l source
  · dsimp only
    split
    · exact l.schedule (by nofun)
    · exact ((l.change _ (by rfl)).mark _).schedule (by nofun)

theorem leads_answerRequest (service : ServiceId) (value : PublicValue) (source : Endpoint)
    (l : t.Leads u) : t.Leads (answerRequest kx service value source u) := by
  unfold answerRequest
  split
  · exact l
  · split
    · exact l
    · obtain ⟨_, frame⟩ := enqueue_frame u.member ⟨source, value⟩
      have queued : t.Leads (u.modify fun c ↦ c.enqueue ⟨source, value⟩) :=
        l.change _ (by rw [frame]; rfl)
      dsimp only
      split
      · exact leads_attendQueue queued
      · exact queued

theorem leads_answerResponse (r : Response) (source : Endpoint) (l : t.Leads u) :
    t.Leads (answerResponse kx r source u) := by
  unfold answerResponse
  split
  · exact l
  · split
    · exact l
    · obtain ⟨_, _, _, frame⟩ := Follows.learnFrom_frame r source u.member
      have learned : t.Leads (u.modify (learnFrom r source)) :=
        l.change _ (by rw [frame]; rfl)
      dsimp only
      split
      · split
        · exact learned
        · exact leads_takeSeat _ _ learned
      · exact leads_makeProgress learned

/-- Whatever shows that the token was taken is noticed once. -/
theorem leads_noticeToken (shown : Bool) (l : t.Leads u) :
    t.Leads (if shown then seeTokenTaken u else u) := by
  split
  · exact leads_seeTokenTaken l
  · exact l

theorem leads_answerQuestion (phase : Phase) (service : ServiceId) (ids : List MemberId)
    (source : Endpoint) (l : t.Leads u) : t.Leads (answerQuestion phase service ids source u) := by
  unfold answerQuestion
  split
  · exact l
  · split
    · exact l
    · have seen := fun shown ↦ leads_noticeToken shown (leads_hearAssigned l source)
      dsimp only
      split
      · exact (seen _).schedule (by cases phase <;> nofun)
      · exact seen _

theorem leads_takeAnswer (service : ServiceId) (id : MemberId) (value : PublicValue)
    (source : Endpoint) (l : t.Leads u) : t.Leads (takeAnswer kx service id value source u) := by
  unfold takeAnswer
  split
  · exact l
  · obtain ⟨_, heard⟩ := hearAssigned_frame u.member source
    obtain ⟨_, _, frame⟩ := learn_frame (u.member.hearAssigned source) source id.toNat value
    exact leads_makeProgress (l.change _ (by rw [frame, heard]; rfl))

/-- The token is reported when it comes for the first time. -/
theorem leads_holdToken (source : Endpoint) (s : Seat) (l : t.Leads u) :
    t.Leads (holdToken kx source s u) := by
  unfold holdToken
  dsimp only
  generalize taken :
    (if u.member.token.held = true then u
      else (u.modify fun c ↦ { c with token.held := true }).emit (.tokenReceived source)) = v
  have held : t.Leads v := by
    rw [← taken]
    split
    · exact l
    · exact (l.change _ (by rfl)).emit _
  split
  · split
    · exact held
    · exact leads_announceEnd held
  · split
    · exact held.unicast _ _
    · exact leads_tendToken (leads_cascade held)

theorem leads_overhearToken (target : Nat) (source : Endpoint) (s : Seat) (l : t.Leads u) :
    t.Leads (overhearToken target source s u) := by
  unfold overhearToken
  dsimp only
  split
  · exact l
  · split
    · exact leads_seeTokenTaken l
    · exact l

theorem leads_answerToken (target : Nat) (source : Endpoint) (l : t.Leads u) :
    t.Leads (answerToken kx target source u) := by
  unfold answerToken
  split
  · exact l
  · split
    · exact l
    · dsimp only
      split
      · exact leads_holdToken _ _ (leads_hearAssigned l source)
      · exact leads_overhearToken _ _ _ (leads_hearAssigned l source)

theorem leads_answerFinish (source : Endpoint) (l : t.Leads u) :
    t.Leads (answerFinish source u) := by
  unfold answerFinish
  split
  · exact l
  · split
    · exact l.endRun
    · exact (l.unicast _ _).endRun

/-- With the last acknowledgement both tasks of the end are dropped. -/
theorem leads_answerFinishAck (source : Endpoint) (l : t.Leads u) :
    t.Leads (answerFinishAck source u) := by
  unfold answerFinishAck
  split
  · exact l
  · split
    · exact l
    · dsimp only
      split
      · exact (((l.change _ (by rfl)).cancel _).cancel _).endRun
      · exact l.change _ (by rfl)

/-- Whatever a member hears, it reacts to it by operations. -/
theorem leads_answer (m : Message) (source : Endpoint) (l : t.Leads u) :
    t.Leads (answer kx m source u) := by
  cases m with
  | find service => exact leads_answerFind service l
  | offer service => exact leads_answerOffer service source l
  | request service value => exact leads_answerRequest service value source l
  | response r => exact leads_answerResponse r source l
  | infoRequest phase service ids => exact leads_answerQuestion phase service ids source l
  | infoResponse phase service id value => exact leads_takeAnswer service id value source l
  | token target => exact leads_answerToken target.toNat source l
  | finish => exact leads_answerFinish source l
  | finishAck => exact leads_answerFinishAck source l
  | distributed body => exact l

/-- A start is counted and marked, whoever makes it. -/
theorem leads_begin (l : t.Leads u) : t.Leads (begin u) := by
  unfold begin openGroup
  dsimp only
  have begun := (l.count (m := .memberCount) (.inl rfl)).mark .durationStart
  split
  · have seated := (begun.mark .keyAgreementStart).change (fun c ↦
      { c with
        seat := some c.openingSeat
        directory := (c.directory.record c.endpoint 1 c.keys.publicValue).2 }) rfl
    have told := leads_reportKey ((seated.emit (.assigned 1)).emit (.becameSponsor 1))
    split
    · exact (leads_announceKey told).endRun
    · exact told.keepSending (by nofun) _ _
  · exact begun.keepSending (by nofun) _ _

theorem leads_tellValue (phase : Phase) (l : t.Leads u) : t.Leads (tellValue phase u) := by
  unfold tellValue
  split
  · exact l.multicast _
  · exact l

/-- A task that is still wanted leads to what it is for. -/
theorem leads_runTask (task : Task) (l : t.Leads u) : t.Leads (runTask kx task u) := by
  cases task with
  | find => exact l.keepSending (by nofun) _ _
  | offer => exact l.keepSending (by nofun) _ _
  | request => exact l.multicast _
  | response =>
    unfold runTask
    dsimp only
    split
    · exact l.keepSending (by nofun) _ _
    · exact l
  | infoRequest => exact leads_attendQueue l
  | infoResponse => exact leads_tellValue .joining l
  | synchRequest =>
    unfold runTask
    dsimp only
    split
    · exact l
    · exact l.keepSending (by nofun) _ _
  | synchResponse => exact leads_tellValue .synch l
  | synchToken =>
    unfold runTask
    dsimp only
    split
    · exact l.keepSending (by nofun) _ _
    · exact l
  | finish => exact l.keepSending (by nofun) _ _
  | finishAck => exact l
  | finishTimeout => exact l.endRun

/-- The deadline has left the agenda before anything else happens. -/
theorem leads_expire (task : Task) (t : Turn Chain) : (t.disarm task).Leads (expire kx task t) := by
  unfold expire
  dsimp only
  split
  · exact leads_runTask task (.refl _)
  · exact .refl _

/-- From the state in which the deadline that came is disarmed, every input leads to what the member
does. -/
theorem leads_step (input : Input) (c : Chain) :
    (Turn.opening input c).Leads ((Chain.protocol kx).step input c) :=
  Protocol.leads_step (fun _ ↦ leads_begin (.refl _)) leads_expire
    (fun m source _ ↦ leads_answer m source (.refl _)) input c

end Chain

/-! ## Reactions of star members -/

namespace Star

variable {kx : KeyExchange} {t u : Turn Star}

theorem leads_announceKey (secret : Secret) (l : t.Leads u) : t.Leads (announceKey secret u) :=
  l.emit _

theorem fixtures_eq (m : Star) : Turn.fixtures m = (m.agenda.armed, m.config) := rfl

/-- To draw the group secret takes chance from the agenda, and no task. -/
theorem fixtures_drawGroupSecret (m : Star) :
    Turn.fixtures m.drawGroupSecret.2 = Turn.fixtures m := by
  simp only [fixtures_eq, drawGroupSecret]

/-- To seal a secret takes chance from the agenda, and no task. -/
theorem fixtures_sealFor (group shared : Secret) (m : Star) :
    Turn.fixtures (m.sealFor group shared).2 = Turn.fixtures m := by
  simp only [fixtures_eq, sealFor]

/-- The sponsor draws the group secret at its start, and alone it is done then. -/
theorem leads_openGroup (l : t.Leads u) : t.Leads (openGroup u) := by
  unfold openGroup
  dsimp only
  have opened := ((l.mark .keyAgreementStart).emit (.assigned 1)).emit (.becameSponsor 1)
  have drawn := opened.change (fun m ↦ m.drawGroupSecret.2) (fixtures_drawGroupSecret _)
  have told := leads_announceKey u.member.drawGroupSecret.1 drawn
  split
  · exact told.endRun
  · exact told.keepSending (by nofun) _ _

theorem leads_begin (l : t.Leads u) : t.Leads (begin u) := by
  unfold begin
  dsimp only
  have begun := (l.count (m := .memberCount) (.inl rfl)).mark .durationStart
  split
  · exact leads_openGroup begun
  · exact begun.keepSending (by nofun) _ _

theorem leads_announceEnd (l : t.Leads u) : t.Leads (announceEnd u) :=
  l.scheduleTimeout ((((Turn.Leads.refl u).change _ (by rfl)).cancel _).keepSending (by nofun) _ _)

/-- A sealed secret is kept with the member that it is for, and sent there only. -/
theorem leads_giveSecret (group shared : Secret) (source : Endpoint) (l : t.Leads u) :
    t.Leads (giveSecret group shared source u) := by
  unfold giveSecret
  dsimp only
  have counted := l.count (m := .cryptoOperations) (.inr rfl)
  have sealed := counted.change (fun m ↦
    { (m.sealFor group shared).2 with
      served := (m.sealFor group shared).2.served ++ [⟨source, (m.sealFor group shared).1⟩] })
    (fixtures_sealFor group shared _)
  exact (sealed.emit _).unicast _ _

theorem leads_answerFind (service : ServiceId) (l : t.Leads u) :
    t.Leads (answerFind service u) := by
  unfold answerFind
  split
  · exact l.multicast _
  · exact l

/-- Who was served before gets the same answer again, at no new operation. -/
theorem leads_answerRequest (service : ServiceId) (value : PublicValue) (source : Endpoint)
    (l : t.Leads u) : t.Leads (answerRequest kx service value source u) := by
  unfold answerRequest
  dsimp only
  split
  · exact l
  · split
    · exact l.unicast _ _
    · split
      · exact l
      · split
        · exact leads_giveSecret _ _ _ l
        · exact l

theorem leads_answerFinishAck (source : Endpoint) (l : t.Leads u) :
    t.Leads (answerFinishAck source u) := by
  unfold answerFinishAck
  dsimp only
  split
  · exact l
  · split
    · exact l
    · split
      · exact leads_announceEnd (l.change _ (by rfl))
      · exact l.change _ (by rfl)

theorem leads_answerOffer (service : ServiceId) (l : t.Leads u) :
    t.Leads (answerOffer service u) := by
  unfold answerOffer
  split
  · exact l
  · dsimp only
    split
    · exact l.schedule (by nofun)
    · exact ((l.change _ (by rfl)).mark _).schedule (by nofun)

theorem leads_keepSecret (secret : Secret) (source : Endpoint) (l : t.Leads u) :
    t.Leads (keepSecret secret source u) :=
  (leads_announceKey secret (((l.change _ (by rfl)).cancel _).cancel _)).keepSending (by nofun) _ _

/-- To open a secret counts as one operation, whether it succeeds or not. -/
theorem leads_takeSecret (answer : SealedResponse) (source : Endpoint) (l : t.Leads u) :
    t.Leads (takeSecret kx answer source u) := by
  unfold takeSecret
  dsimp only
  split
  · exact l
  · split
    · exact l
    · have counted := l.count (m := .cryptoOperations) (.inr rfl)
      split
      · exact leads_keepSecret _ _ counted
      · exact counted.emit _

theorem leads_answerFinish (l : t.Leads u) : t.Leads (answerFinish u) := by
  unfold answerFinish
  split
  · exact l
  · exact (l.cancel _).endRun

theorem leads_runTask (task : Task) (l : t.Leads u) : t.Leads (runTask task u) := by
  cases task with
  | offer | find | finishAck | finish => exact l.keepSending (by nofun) _ _
  | request => exact l.multicast _
  | finishTimeout => exact l.endRun
  | _ => exact l

theorem leads_answer (m : Message) (source : Endpoint) (l : t.Leads u) :
    t.Leads (answer kx m source u) := by
  cases m with
  | find service => exact leads_answerFind service l
  | offer service => exact leads_answerOffer service l
  | request service value => exact leads_answerRequest service value source l
  | distributed answer => exact leads_takeSecret answer source l
  | finish => exact leads_answerFinish l
  | finishAck => exact leads_answerFinishAck source l
  | _ => exact l

theorem leads_expire (task : Task) (t : Turn Star) : (t.disarm task).Leads (expire task t) := by
  unfold expire
  dsimp only
  split
  · exact leads_runTask task (.refl _)
  · exact .refl _

theorem leads_step (input : Input) (m : Star) :
    (Turn.opening input m).Leads ((Star.protocol kx).step input m) :=
  Protocol.leads_step (fun _ ↦ leads_begin (.refl _)) leads_expire
    (fun said source _ ↦ leads_answer said source (.refl _)) input m

end Star

end GroupKey
