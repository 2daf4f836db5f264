import GroupKey.Host
import GroupKey.Proofs.Isolation
import GroupKey.Proofs.Operations
import Mathlib.Data.List.Nodup

/-!
# Deadlines and agendas

A member knows which tasks it has armed, and its host keeps the deadlines.  Nothing but the orders
in the member's effects connects the two.  They agree whenever the host waits, also after several
deadlines have come at once: until all of their tasks are run, a task that is still to be run is on
the agenda without a deadline.
-/

namespace GroupKey

namespace Scheduler

variable {s : Scheduler}

/-- No task has two deadlines. -/
def Single (s : Scheduler) : Prop := (s.deadlines.map Deadline.task).Nodup

theorem isArmed_eq_true_iff {task : Task} :
    s.isArmed task = true ↔ ∃ d ∈ s.deadlines, d.task = task := by
  simp [isArmed]

/-- A task that is cancelled is not armed, and others are as before. -/
theorem isArmed_cancel (s : Scheduler) (task other : Task) :
    (s.cancel task).isArmed other = (decide (other ≠ task) && s.isArmed other) := by
  rw [Bool.eq_iff_iff]
  simp only [isArmed_eq_true_iff, cancel, List.mem_filter, Bool.and_eq_true, decide_eq_true_eq]
  constructor
  · rintro ⟨d, ⟨here, different⟩, rfl⟩
    exact ⟨different, d, here, rfl⟩
  · rintro ⟨different, d, here, rfl⟩
    exact ⟨d, ⟨here, different⟩, rfl⟩

/-- A task that is armed is, and others are as before. -/
theorem isArmed_arm (s : Scheduler) (task : Task) (now delay : Nat) (other : Task) :
    (s.arm task now delay).isArmed other = (decide (other = task) || s.isArmed other) := by
  have kept := isArmed_cancel s task other
  by_cases same : other = task
  · simp [arm, isArmed, same]
  · have different : task ≠ other := Ne.symm same
    simpa [arm, isArmed, same, different] using kept

theorem Single.cancel (single : s.Single) (task : Task) : (s.cancel task).Single :=
  List.Nodup.sublist (List.filter_sublist.map _) single

/-- Arming replaces the deadline that the task had. -/
theorem Single.arm (single : s.Single) (task : Task) (now delay : Nat) :
    (s.arm task now delay).Single := by
  refine List.nodup_cons.mpr ⟨fun here ↦ ?_, single.cancel task⟩
  obtain ⟨d, kept, same⟩ := List.mem_map.mp here
  have different := (List.mem_filter.mp kept).2
  exact absurd same (of_decide_eq_true different)

section PopExpired

variable {now : Nat} {task : Task}

/-- Handed out are the tasks whose deadlines have come. -/
theorem mem_popExpired :
    task ∈ (s.popExpired now).1 ↔ ∃ d ∈ s.deadlines, d.due ≤ now ∧ d.task = task := by
  simp [popExpired, and_assoc]

/-- Tasks whose deadlines are still to come stay armed. -/
theorem isArmed_popExpired :
    (s.popExpired now).2.isArmed task = true ↔ ∃ d ∈ s.deadlines, now < d.due ∧ d.task = task := by
  simp [isArmed_eq_true_iff, popExpired, and_assoc]

theorem Single.popExpired (single : s.Single) (now : Nat) : (s.popExpired now).2.Single :=
  List.Nodup.sublist (List.filter_sublist.map _) single

/-- No task is handed out twice, as none has two deadlines. -/
theorem Single.nodup_popExpired (single : s.Single) (now : Nat) : (s.popExpired now).1.Nodup := by
  have due : ((s.deadlines.filter fun d ↦ d.due ≤ now).map Deadline.task).Nodup :=
    List.Nodup.sublist (List.filter_sublist.map _) single
  exact ((List.mergeSort_perm _ Deadline.before).map _).nodup_iff.mpr due

/-- A task whose deadline has come has no other one. -/
theorem Single.isArmed_of_mem (single : s.Single) (due : task ∈ (s.popExpired now).1) :
    (s.popExpired now).2.isArmed task = false := by
  obtain ⟨d, d_mem, d_due, rfl⟩ := mem_popExpired.mp due
  rw [Bool.eq_false_iff]
  intro armed
  obtain ⟨e, e_mem, e_later, same⟩ := isArmed_popExpired.mp armed
  obtain rfl := List.inj_on_of_nodup_map single e_mem d_mem same
  omega

/-- A task that is not handed out is armed if it was. -/
theorem isArmed_of_notMem (early : task ∉ (s.popExpired now).1) :
    (s.popExpired now).2.isArmed task = s.isArmed task := by
  rw [Bool.eq_iff_iff, isArmed_popExpired, isArmed_eq_true_iff]
  constructor
  · rintro ⟨d, here, -, same⟩
    exact ⟨d, here, same⟩
  · rintro ⟨d, here, same⟩
    refine ⟨d, here, Nat.lt_of_not_le fun due ↦ ?_, same⟩
    exact early (mem_popExpired.mpr ⟨d, here, due, same⟩)

end PopExpired

end Scheduler

/-! ## What a deadline may order -/

/-- Reactions give an order for every change of the agenda, and the deadline of a task orders that
task at most.  Only the deadline of a question may go further, but it arms no armed task. -/
structure Protocol.Punctual {σ : Type} [Busy σ] [Terminable σ] [Configured σ] (p : Protocol σ) :
    Prop where
  leads : ∀ (input : Input) (m : σ), (Turn.opening input m).Leads (p.step input m)
  alone : ∀ (m : σ) {task : Task}, task ≠ .infoRequest →
    ∀ order ∈ (p.step (.timer task) m).orders, order = .arm task
  fresh : ∀ (m : σ) (task : Task), .arm task ∈ (p.step (.timer .infoRequest) m).orders →
    task ≠ .infoRequest → (Busy.agenda m).isArmed task = false

namespace Turn

variable {σ : Type} {t : Turn σ}

/-- Orders for one task at most. -/
def Rearms (task : Task) (t : Turn σ) : Prop := ∀ order ∈ t.orders, order = .arm task

/-- No order is no order for another task. -/
theorem rearms_of_silent (task : Task) (silent : t.orders = []) : t.Rearms task := by
  simp [Rearms, silent]

variable [Busy σ]

/-- What is sent again is planned under its own task. -/
theorem rearms_keepSending (silent : t.orders = []) (task : Task) (target : Option Endpoint)
    (m : Message) : (t.keepSending task target m).Rearms task := by
  intro order here
  rw [orders_keepSending, silent] at here
  split at here
  · simp at here
  · simpa using here

/-- A deadline finds its own task off the agenda. -/
theorem isArmed_opening (m : σ) (task other : Task) :
    (opening (.timer task) m).isArmed other =
      (decide (other ≠ task) && (Busy.agenda m).isArmed other) := by
  rw [opening, disarm, isArmed_setAgenda]
  exact Agenda.isArmed_remove _ task other

/-- The tasks that a reaction arms were not armed before it. -/
def ArmsIdle (t u : Turn σ) : Prop :=
  ∀ task, .arm task ∈ u.orders → .arm task ∈ t.orders ∨ t.isArmed task = false

/-- Orders that were there before need no reason. -/
theorem armsIdle_of_orders {u : Turn σ} (same : u.orders = t.orders) : t.ArmsIdle u :=
  fun _ here ↦ .inl (same ▸ here)

/-- A repeated message arms its task unless that is armed. -/
theorem armsIdle_keepSending (task : Task) (target : Option Endpoint) (m : Message) :
    t.ArmsIdle (t.keepSending task target m) := by
  intro other here
  rw [orders_keepSending] at here
  split at here
  · exact .inl (by simpa using here)
  · next idle =>
    rcases List.mem_append.mp here with old | new
    · exact .inl old
    · cases List.mem_singleton.mp new
      exact .inr (Bool.eq_false_iff.mpr idle)

end Turn

namespace Chain

variable {kx : KeyExchange} {t : Turn Chain} {task : Task}

@[simp] theorem orders_reportKey (t : Turn Chain) : (reportKey t).orders = t.orders := by
  unfold reportKey
  split <;> simp

@[simp] theorem orders_announceKey (t : Turn Chain) : (announceKey t).orders = t.orders := by
  unfold announceKey
  split
  · split <;> simp
  · rfl

theorem orders_tellValue (phase : Phase) (t : Turn Chain) :
    (tellValue phase t).orders = t.orders := by
  unfold tellValue
  split <;> simp

/-- A deadline arms its own task again or none.  The question about predecessors is the exception,
since it may lead to an admission. -/
theorem rearms_runTask (silent : t.orders = []) (other : task ≠ .infoRequest) :
    (runTask kx task t).Rearms task := by
  cases task with
  | find | offer | finish => exact Turn.rearms_keepSending silent _ _ _
  | request | finishTimeout | finishAck =>
    exact Turn.rearms_of_silent _ (by simpa [runTask] using silent)
  | infoResponse | synchResponse =>
    exact Turn.rearms_of_silent _ ((orders_tellValue _ t).trans silent)
  | infoRequest => exact absurd rfl other
  | response | synchToken =>
    unfold runTask
    dsimp only
    split
    · exact Turn.rearms_keepSending silent _ _ _
    · exact Turn.rearms_of_silent _ silent
  | synchRequest =>
    unfold runTask
    dsimp only
    split
    · exact Turn.rearms_of_silent _ silent
    · exact Turn.rearms_keepSending silent _ _ _

/-- Taking tasks off arms none. -/
theorem arm_mem_orders_cancel {other : Task} (here : .arm other ∈ (t.cancel task).orders) :
    .arm other ∈ t.orders := by
  rw [Turn.orders_cancel] at here
  rcases List.mem_append.mp here with old | new
  · exact old
  · split at new <;> simp at new

/-- To let somebody in takes the offer and the question off the agenda. -/
theorem orders_letIn (old new : Seat) (before : PublicValue) (candidate : Candidate) :
    (letIn old new before candidate t).orders =
      ((t.cancel .offer).cancel .infoRequest).orders := by
  unfold letIn
  generalize seated : (countAdmission old t).modify _ = u
  have orders : u.orders = t.orders := by
    rw [← seated, Turn.orders_modify, Turn.orders, effects_countAdmission, Turn.orders]
  have armed (task : Task) : u.isArmed task = t.isArmed task := by
    rw [← seated]
    change (countAdmission old t).member.agenda.isArmed task = t.member.agenda.isArmed task
    rw [member_countAdmission]
  rw [Turn.orders_emit, Turn.orders_cancel, Turn.orders_cancel, Turn.orders_cancel,
    Turn.orders_cancel, Turn.isArmed_cancel, Turn.isArmed_cancel, orders, armed, armed]

/-- An admission drops the offer and the question and arms the hand-over. -/
theorem armsIdle_enrol (old new : Seat) (before : PublicValue) (candidate : Candidate) :
    t.ArmsIdle (enrol old new before candidate t) := by
  intro other here
  rw [enrol_eq, orders_announceKey, Turn.orders_keepSending, orders_reportKey, orders_letIn] at here
  rcases List.mem_append.mp here with old | new
  · exact .inl (arm_mem_orders_cancel (arm_mem_orders_cancel old))
  · rw [Follows.isArmed_reportKey, Follows.isArmed_letIn] at new
    split at new
    · simp at new
    · next idle =>
      cases List.mem_singleton.mp new
      exact .inr (Bool.eq_false_iff.mpr idle)

/-- The queue ends in an admission or in an offer, and both arm what is idle. -/
theorem armsIdle_enrolFirst (s : Seat) (queue : List Candidate) :
    t.ArmsIdle (enrolFirst kx s queue t) := by
  induction queue with
  | nil =>
    have kept := Turn.armsIdle_keepSending (t := t.modify fun c ↦ { c with pending := [] })
    exact kept _ _ _
  | cons candidate rest ih =>
    unfold enrolFirst
    split
    · exact ih
    · split
      · exact ih
      · have enrolled := armsIdle_enrol (t := t.modify fun c ↦ { c with pending := rest })
        exact enrolled _ _ _ _

/-- A sponsor that asked arms the question again, which must have gone off for that. -/
theorem armsIdle_attendQueue (idle : t.isArmed .infoRequest = false) :
    t.ArmsIdle (attendQueue kx t) := by
  have same : t.cancel .infoRequest = t := if_neg (by simp [idle])
  unfold attendQueue
  split
  · exact Turn.armsIdle_of_orders rfl
  · split
    · exact Turn.armsIdle_of_orders rfl
    · dsimp only
      split
      · rw [same]
        exact armsIdle_enrolFirst _ _
      · exact Turn.armsIdle_keepSending _ _ _

/-- A chained member arms what is idle, also while it lets somebody in. -/
theorem punctual (kx : KeyExchange) : (Chain.protocol kx).Punctual where
  leads := leads_step
  alone c task other := by
    change Turn.Rearms task (expire kx task { member := c })
    unfold expire
    dsimp only
    split
    · exact rearms_runTask rfl other
    · exact Turn.rearms_of_silent _ rfl
  fresh c task here other := by
    change .arm task ∈ (expire kx .infoRequest { member := c }).orders at here
    unfold expire at here
    dsimp only at here
    have taken (task : Task) : ((({ member := c } : Turn Chain).disarm .infoRequest).isArmed task) =
        (decide (task ≠ .infoRequest) && c.agenda.isArmed task) := by
      rw [Turn.disarm, Turn.isArmed_setAgenda]
      exact Agenda.isArmed_remove _ _ _
    split at here
    · rcases armsIdle_attendQueue (taken .infoRequest) task here with none | idle
      · exact (List.not_mem_nil none).elim
      · rw [taken] at idle
        change c.agenda.isArmed task = false
        simpa [other] using idle
    · exact (List.not_mem_nil here).elim

end Chain

namespace Star

variable {kx : KeyExchange} {t : Turn Star} {task : Task}

theorem rearms_runTask (silent : t.orders = []) : (runTask task t).Rearms task := by
  cases task with
  | offer | find | finishAck | finish => exact Turn.rearms_keepSending silent _ _ _
  | request => exact Turn.rearms_of_silent _ (by simpa [runTask] using silent)
  | finishTimeout => exact Turn.rearms_of_silent _ ((Turn.orders_endRun t).trans silent)
  | _ => exact Turn.rearms_of_silent _ silent

theorem rearms_expire (m : Star) : (expire task { member := m }).Rearms task := by
  unfold expire
  dsimp only
  split
  · exact rearms_runTask rfl
  · exact Turn.rearms_of_silent _ rfl

/-- A star member only arms the task whose deadline came. -/
theorem punctual (kx : KeyExchange) : (Star.protocol kx).Punctual where
  leads := leads_step
  alone m _ _ := rearms_expire m
  fresh m task here other := by
    have same : Order.arm task = .arm .infoRequest := rearms_expire m _ here
    exact absurd (by simpa using same) other

end Star

namespace Host

variable {σ : Type} {p : Protocol σ} {h k l : Host σ}

/-- What changes around a member and its deadlines: time passes, somebody reads what was sent or
told, the network fails and recovers. -/
structure Meanwhile (h k : Host σ) : Prop where
  member : k.member = h.member
  scheduler : k.scheduler = h.scheduler
  running : k.running = h.running

/-- Effects are carried out one after the other, each at its own time. -/
inductive Performs : Host σ → List Effect → Host σ → Prop
  | rest {h k : Host σ} (meanwhile : Meanwhile h k) : Performs h [] k
  | next {h k l : Host σ} {e : Effect} {es : List Effect} (meanwhile : Meanwhile h k)
    (performs : Performs (k.perform e) es l) : Performs h (e :: es) l

def CarriesOut (h : Host σ) (t : Turn σ) (k : Host σ) : Prop :=
  Performs { h with member := t.member } t.effects k

/-- Tasks that are due are run one after the other, until the member ends the run. -/
inductive Fires (p : Protocol σ) : Host σ → List Task → Host σ → Prop
  | done (h : Host σ) : Fires p h [] h
  | stopped {h : Host σ} (tasks : List Task) (ended : h.running = false) : Fires p h tasks h
  | next {h k l : Host σ} {task : Task} {tasks : List Task} (running : h.running = true)
    (turn : h.CarriesOut (p.step (.timer task) h.member) k) (fires : Fires p k tasks l) :
    Fires p h (task :: tasks) l

/-- What a host does between two waits. -/
inductive Pass (p : Protocol σ) (h : Host σ) : Host σ → Prop
  | idle {k : Host σ} (meanwhile : Meanwhile h k) : Pass p h k
  | datagram {k : Host σ} (bytes : Bytes) (source : Endpoint)
    (turn : h.CarriesOut (p.step (.datagram bytes source) h.member) k) : Pass p h k
  | deadlines {k : Host σ} (now : Nat)
    (fires : Fires p { h with scheduler := (h.scheduler.popExpired now).2 }
      (h.scheduler.popExpired now).1 k) : Pass p h k

/-- The states in which a host waits, from the start on and while the run is not over. -/
inductive Waits (p : Protocol σ) (first : Host σ) : Host σ → Prop
  | start {h : Host σ} (turn : first.CarriesOut (p.step .start first.member) h) : Waits p first h
  | next {h k : Host σ} (waits : Waits p first h) (before : h.running = true) (pass : Pass p h k)
    (after : k.running = true) : Waits p first k

theorem Meanwhile.refl (h : Host σ) : Meanwhile h h := ⟨rfl, rfl, rfl⟩

/-- A host that carries out its effects in a row performs them, with no delay in between. -/
theorem performs_foldl (meanwhile : Meanwhile h k) (es : List Effect) :
    Performs h es (es.foldl perform k) := by
  induction es generalizing h k with
  | nil => exact .rest meanwhile
  | cons e es ih => exact .next meanwhile (ih (.refl _))

theorem carriesOut_carryOut (h : Host σ) (t : Turn σ) : h.CarriesOut t (h.carryOut t) := by
  unfold CarriesOut carryOut
  dsimp only
  exact performs_foldl (by exact ⟨rfl, rfl, rfl⟩) t.effects

theorem foldl_fire_of_ended (ended : h.running = false) (tasks : List Task) :
    tasks.foldl (fire p) h = h := by
  induction tasks with
  | nil => rfl
  | cons task tasks ih => rw [List.foldl_cons, fire, ended, if_neg Bool.false_ne_true, ih]

/-- A host that handles its tasks in a row fires them, until its run ends. -/
theorem fires_foldl (tasks : List Task) (h : Host σ) :
    Fires p h tasks (tasks.foldl (fire p) h) := by
  induction tasks generalizing h with
  | nil => exact .done h
  | cons task tasks ih =>
    cases running : h.running with
    | false =>
      rw [foldl_fire_of_ended running]
      exact .stopped _ running
    | true =>
      rw [List.foldl_cons, fire, if_pos running]
      exact .next running (carriesOut_carryOut h _) (ih _)

theorem waits_start (h : Host σ) : Waits p h (h.start p) := .start (carriesOut_carryOut h _)

/-- Time does not start an ended run again. -/
theorem ended_advanceTo (ended : h.running = false) (time rounds : Nat) :
    (advanceTo p time rounds h).running = false := by
  cases rounds with
  | zero => exact ended
  | succ rounds =>
    unfold advanceTo
    split
    · exact ended
    · rw [ended, Bool.false_and, if_neg Bool.false_ne_true]

section Runs

variable {first : Host σ} (waits : Waits p first h) (running : h.running = true)

include waits running

/-- A host that still runs after a datagram waits again. -/
theorem waits_receive (bytes : Bytes) (source : Endpoint)
    (after : (h.receive p bytes source).running = true) :
    Waits p first (h.receive p bytes source) := by
  have turn : h.receive p bytes source = h.carryOut (p.step (.datagram bytes source) h.member) :=
    if_pos running
  refine .next waits running ?_ after
  rw [turn]
  exact .datagram bytes source (carriesOut_carryOut h _)

/-- A host that still runs after its deadlines waits again. -/
theorem waits_expire (after : (h.expire p).running = true) : Waits p first (h.expire p) :=
  .next waits running (.deadlines h.now (fires_foldl _ _)) after

/-- The clock may go on while a host waits. -/
theorem waits_pause (now : Nat) : Waits p first { h with now } :=
  .next waits running (.idle ⟨rfl, rfl, rfl⟩) running

end Runs

/-- A host whose clock is moved on from deadline to deadline waits at each stop, so all that is
proved of waiting hosts holds there. -/
theorem waits_advanceTo {first : Host σ} (time rounds : Nat) (waits : Waits p first h)
    (running : h.running = true) (after : (advanceTo p time rounds h).running = true) :
    Waits p first (advanceTo p time rounds h) := by
  induction rounds generalizing h with
  | zero => exact waits_pause waits running time
  | succ rounds ih =>
    unfold advanceTo at after ⊢
    split at after
    · exact waits_pause waits running time
    · next due _ =>
      split at after
      · next go =>
        rw [if_pos go]
        cases still : (expire p { h with now := max h.now (wholeMilli due) }).running with
        | false => exact absurd after (by simp [ended_advanceTo still])
        | true => exact ih (waits_expire (waits_pause waits running _) running still) still after
      · next stop =>
        rw [if_neg stop]
        exact waits_pause waits running time

/-! ## Hosts in step -/

/-- The deadlines are those of the agenda, apart from tasks that are due: these have no deadline any
more, and all of them are armed as long as a question is among them. -/
structure InStep [Busy σ] (due : List Task) (h : Host σ) : Prop where
  single : h.scheduler.Single
  agree : ∀ task ∉ due, h.scheduler.isArmed task = (Busy.agenda h.member).isArmed task
  taken : ∀ task ∈ due, h.scheduler.isArmed task = false
  armed : .infoRequest ∈ due → ∀ task ∈ due, (Busy.agenda h.member).isArmed task = true

/-- To publish an event leaves deadlines and member alone. -/
theorem publish_frame (h : Host σ) (e : Event) : ∃ events, h.publish e = { h with events } := by
  unfold publish
  split
  · exact ⟨_, rfl⟩
  · exact ⟨h.events, rfl⟩

/-- To send a message leaves deadlines and member alone. -/
theorem send_frame (h : Host σ) (target : Option Endpoint) (m : Message) :
    ∃ events sent, h.send target m = { h with events, sent } := by
  unfold send
  split
  · exact ⟨h.events, _, rfl⟩
  · obtain ⟨events, published⟩ := publish_frame h (sendFailure target m.kind _)
    exact ⟨events, h.sent, published⟩

/-- A scheduler does what one effect orders. -/
theorem obeys_perform (h : Host σ) (e : Effect) (single : h.scheduler.Single) :
    (h.perform e).member = h.member ∧ (h.perform e).scheduler.Single ∧
      ∀ task, (h.perform e).scheduler.isArmed task =
        e.order?.toList.foldl (Order.obey task) (h.scheduler.isArmed task) := by
  have quiet (target : Option Endpoint) (m : Message) : (h.send target m).member = h.member ∧
      (h.send target m).scheduler.Single ∧
      ∀ task, (h.send target m).scheduler.isArmed task = h.scheduler.isArmed task := by
    obtain ⟨events, sent, frame⟩ := send_frame h target m
    rw [frame]
    exact ⟨rfl, single, fun _ ↦ rfl⟩
  cases e with
  | multicast m => exact quiet none m
  | unicast target m => exact quiet (some target) m
  | schedule task delay =>
    exact ⟨rfl, single.arm task h.now delay, h.scheduler.isArmed_arm task h.now delay⟩
  | cancel task => exact ⟨rfl, single.cancel task, h.scheduler.isArmed_cancel task⟩
  | emit event =>
    obtain ⟨events, frame⟩ := publish_frame h event
    change (h.publish event).member = _ ∧ (h.publish event).scheduler.Single ∧
      ∀ task, (h.publish event).scheduler.isArmed task = _
    rw [frame]
    exact ⟨rfl, single, fun _ ↦ rfl⟩
  | terminate => exact ⟨rfl, single, fun _ ↦ rfl⟩

/-- Deadlines follow the orders. -/
theorem Performs.obeys {es : List Effect} (performs : Performs h es k)
    (single : h.scheduler.Single) :
    k.member = h.member ∧ k.scheduler.Single ∧ ∀ task, k.scheduler.isArmed task =
      (es.filterMap Effect.order?).foldl (Order.obey task) (h.scheduler.isArmed task) := by
  induction performs with
  | rest meanwhile =>
    rw [meanwhile.scheduler]
    exact ⟨meanwhile.member, single, fun _ ↦ rfl⟩
  | @next h k l e es meanwhile _ ih =>
    rw [← meanwhile.scheduler] at single
    obtain ⟨member, single', obeyed⟩ := obeys_perform k e single
    obtain ⟨member', single'', obeyed'⟩ := ih single'
    refine ⟨?_, single'', fun task ↦ ?_⟩
    · rw [member', member, meanwhile.member]
    · rw [obeyed', obeyed, meanwhile.scheduler, ← List.foldl_append]
      congr 1
      cases e <;> rfl

theorem CarriesOut.obeys {t : Turn σ} (turn : h.CarriesOut t k) (single : h.scheduler.Single) :
    k.member = t.member ∧ k.scheduler.Single ∧ ∀ task, k.scheduler.isArmed task =
      t.orders.foldl (Order.obey task) (h.scheduler.isArmed task) :=
  Performs.obeys turn single

/-- A task that no order arms stays idle. -/
theorem foldl_obey_of_unarmed {task : Task} {orders : List Order}
    (unarmed : .arm task ∉ orders) : orders.foldl (Order.obey task) false = false := by
  induction orders with
  | nil => rfl
  | cons order orders ih =>
    obtain ⟨different, rest⟩ := not_or.mp (List.mem_cons.not.mp unarmed)
    have kept : Order.obey task false order = false := by
      cases order with
      | arm other => simpa [Order.obey] using different
      | drop other => simp [Order.obey]
    rw [List.foldl_cons, kept, ih rest]

/-- A task that no order drops stays armed. -/
theorem foldl_obey_of_undropped {task : Task} {orders : List Order}
    (undropped : .drop task ∉ orders) : orders.foldl (Order.obey task) true = true := by
  induction orders with
  | nil => rfl
  | cons order orders ih =>
    obtain ⟨different, rest⟩ := not_or.mp (List.mem_cons.not.mp undropped)
    have kept : Order.obey task true order = true := by
      cases order with
      | arm other => simp [Order.obey]
      | drop other => simpa [Order.obey] using different
    rw [List.foldl_cons, kept, ih rest]

theorem inStep_ofTurn [Busy σ] {t : Turn σ} (none : (Busy.agenda t.member).armed = [])
    (epoch : Nat) : InStep [] (ofTurn t epoch) := by
  refine ⟨List.nodup_nil, fun task _ ↦ ?_, by simp, by simp⟩
  change false = (Busy.agenda t.member).armed.contains task
  rw [none]
  rfl

/-- When deadlines come, their tasks are taken from the scheduler all at once. -/
theorem InStep.popExpired [Busy σ] (inStep : InStep [] h) (now : Nat) :
    InStep (h.scheduler.popExpired now).1
      { h with scheduler := (h.scheduler.popExpired now).2 } := by
  refine ⟨inStep.single.popExpired now, fun task early ↦ ?_, fun task due ↦ ?_,
    fun _ task due ↦ ?_⟩
  · rw [Scheduler.isArmed_of_notMem early]
    exact inStep.agree task List.not_mem_nil
  · exact inStep.single.isArmed_of_mem due
  · rw [← inStep.agree task List.not_mem_nil, Scheduler.isArmed_eq_true_iff]
    obtain ⟨d, here, -, same⟩ := Scheduler.mem_popExpired.mp due
    exact ⟨d, here, same⟩

section Punctual

variable [Busy σ] [Terminable σ] [Configured σ] (punctual : p.Punctual)

include punctual

/-- The agenda after a turn is the one before, changed by the turn's orders. -/
theorem isArmed_step (input : Input) (m : σ) (task : Task) :
    (Busy.agenda (p.step input m).member).isArmed task =
      (p.step input m).orders.foldl (Order.obey task) ((Turn.opening input m).isArmed task) := by
  obtain ⟨more, orders, armed⟩ := (punctual.leads input m).accounts
  have none : (Turn.opening input m).orders = [] := by
    cases input <;> rfl
  rw [none, List.nil_append] at orders
  rw [orders]
  exact armed task

/-- A task that a deadline does not take off stays armed. -/
theorem isArmed_of_undropped (m : σ) {task other : Task} (different : other ≠ task)
    (armed : (Busy.agenda m).isArmed other = true)
    (undropped : .drop other ∉ (p.step (.timer task) m).orders) :
    (Busy.agenda (p.step (.timer task) m).member).isArmed other = true := by
  rw [isArmed_step punctual, Turn.isArmed_opening, decide_eq_true different, armed]
  exact foldl_obey_of_undropped undropped

/-- A turn gives its orders to agenda and host alike. -/
theorem InStep.turn (inStep : InStep [] h) (input : Input)
    (opening : Turn.opening input h.member = { member := h.member })
    (turn : h.CarriesOut (p.step input h.member) k) : InStep [] k := by
  obtain ⟨member, single, obeyed⟩ := turn.obeys inStep.single
  refine ⟨single, fun task here ↦ ?_, by simp, by simp⟩
  rw [member, obeyed, isArmed_step punctual, opening, inStep.agree task here]
  rfl

/-- The deadline that is handled has left both sides, and the orders of its turn go to both. -/
theorem InStep.fire {task : Task} {due : List Task} (inStep : InStep (task :: due) h)
    (distinct : task ∉ due) (turn : h.CarriesOut (p.step (.timer task) h.member) k) :
    InStep due k := by
  obtain ⟨member, single, obeyed⟩ := turn.obeys inStep.single
  have opened (other : Task) := Turn.isArmed_opening h.member task other
  have other_ne {other : Task} (here : other ∈ due) : other ≠ task := by
    rintro rfl
    exact distinct here
  refine ⟨single, fun other here ↦ ?_, fun other here ↦ ?_, fun asks other here ↦ ?_⟩
  · rw [member, obeyed, isArmed_step punctual, opened]
    by_cases same : other = task
    · simp [same, inStep.taken task List.mem_cons_self]
    · simp [same, inStep.agree other (by simp [same, here])]
  · rw [obeyed, inStep.taken other (List.mem_cons_of_mem _ here)]
    refine foldl_obey_of_unarmed fun arms ↦ ?_
    by_cases question : task = .infoRequest
    · subst question
      have idle := punctual.fresh h.member other arms (other_ne here)
      rw [inStep.armed List.mem_cons_self other (List.mem_cons_of_mem _ here)] at idle
      cases idle
    · cases punctual.alone h.member question _ arms
      exact distinct here
  · have answered : task ≠ .infoRequest := (other_ne asks).symm
    have armed := inStep.armed (List.mem_cons_of_mem _ asks) other (List.mem_cons_of_mem _ here)
    rw [member]
    refine isArmed_of_undropped punctual h.member (other_ne here) armed fun drops ↦ ?_
    cases punctual.alone h.member answered _ drops

/-- The induction is on the tasks that were handed out.  Those still to be handled are the only ones
the sides differ in. -/
theorem InStep.fires {due : List Task} (inStep : InStep due h) (distinct : due.Nodup)
    (fires : Fires p h due k) (running : k.running = true) : InStep [] k := by
  induction fires with
  | done => exact inStep
  | stopped _ ended => exact absurd running (by simp [ended])
  | next _ turn _ ih =>
    obtain ⟨fresh, distinct⟩ := List.nodup_cons.mp distinct
    exact ih (inStep.fire punctual fresh turn) distinct running

/-- Whatever made the host wait again, it is in step then. -/
theorem InStep.pass (inStep : InStep [] h) (pass : Pass p h k) (running : k.running = true) :
    InStep [] k := by
  cases pass with
  | idle meanwhile =>
    refine ⟨?_, ?_, by simp, by simp⟩
    · rw [meanwhile.scheduler]
      exact inStep.single
    · rw [meanwhile.scheduler, meanwhile.member]
      exact inStep.agree
  | datagram bytes source turn => exact inStep.turn punctual _ rfl turn
  | deadlines now fires =>
    exact (inStep.popExpired now).fires punctual (inStep.single.nodup_popExpired now) fires running

/-- A host that starts with nothing armed is in step whenever it waits. -/
theorem Waits.inStep {first : Host σ} (waits : Waits p first h) (idle : InStep [] first) :
    InStep [] h := by
  induction waits with
  | start turn => exact idle.turn punctual _ rfl turn
  | next _ _ pass running ih => exact ih.pass punctual pass running

end Punctual

end Host

/-- A host keeps a deadline for exactly those tasks that its member has armed, whenever it waits. -/
theorem deadlines_match_agenda (kx : KeyExchange) (config : MemberConfig) (endpoint : Endpoint)
    (keys : KeyPair) (random : Random) (epoch : Nat) :
    (∀ t, Chain.create config endpoint keys random = .ok t →
      ∀ h, (Host.ofTurn t epoch).Waits (Chain.protocol kx) h →
        ∀ task, h.scheduler.isArmed task = h.member.agenda.isArmed task) ∧
    ∀ t, Star.create config endpoint keys random = .ok t →
      ∀ h, (Host.ofTurn t epoch).Waits (Star.protocol kx) h →
        ∀ task, h.scheduler.isArmed task = h.member.agenda.isArmed task := by
  refine ⟨fun t created h waits task ↦ ?_, fun t created h waits task ↦ ?_⟩
  · have idle : (Busy.agenda t.member).armed = [] := by
      rw [(Chain.create_member created).2]
      rfl
    have inStep := waits.inStep (Chain.punctual kx) (Host.inStep_ofTurn idle epoch)
    exact inStep.agree task List.not_mem_nil
  · have idle : (Busy.agenda t.member).armed = [] := by
      rw [Star.create_member created]
      rfl
    have inStep := waits.inStep (Star.punctual kx) (Host.inStep_ofTurn idle epoch)
    exact inStep.agree task List.not_mem_nil

namespace Trio

/-- The last member before its start. -/
def fresh : Host Chain :=
  .ofTurn (({ member := roster.member (.last 2) } : Turn Chain).count .cryptoOperations) 0

/-- The last member has started and found a sponsor, so two of its deadlines come at once. -/
def offered : Host Chain :=
  (fresh.start (Chain.protocol exchange)).receive (Chain.protocol exchange)
    (Message.offer 7).encode (roster.endpoint roster.opener)

theorem popExpired_offered :
    offered.scheduler.popExpired offered.now = ([.find, .request], .empty) := by
  have armed : offered.scheduler = ⟨[⟨.request, 0⟩, ⟨.find, 0⟩]⟩ := by decide +kernel
  have now : offered.now = 0 := by decide +kernel
  have sorted : List.mergeSort [(⟨.request, 0⟩ : Deadline), ⟨.find, 0⟩] Deadline.before =
      [⟨.find, 0⟩, ⟨.request, 0⟩] := by
    rw [List.mergeSort]
    simp [List.MergeSort.Internal.splitInTwo, Deadline.before, Task.rank]
  rw [armed, now]
  change (List.map Deadline.task (List.mergeSort [⟨.request, 0⟩, ⟨.find, 0⟩] Deadline.before), _) =
    _
  rw [sorted]
  rfl

/-- The host once both tasks are run. -/
def asked : Host Chain := offered.expire (Chain.protocol exchange)

theorem running_asked : asked.running = true := by
  unfold asked Host.expire
  rw [popExpired_offered]
  decide +kernel

end Trio

/-- The last member's deadlines come together, and the offer has made the first one needless. -/
theorem deadlines_match_agenda_trio :
    (Trio.offered.scheduler.popExpired Trio.offered.now).1 = [.find, .request] ∧
    ∀ task, Trio.asked.scheduler.isArmed task = Trio.asked.member.agenda.isArmed task := by
  have started := Host.waits_start (p := Chain.protocol Trio.exchange) Trio.fresh
  have received := Host.waits_receive started (by decide +kernel) (Message.offer 7).encode
    (Trio.roster.endpoint Trio.roster.opener) (by decide +kernel)
  have waits := Host.waits_expire received (by decide +kernel) Trio.running_asked
  refine ⟨congrArg Prod.fst Trio.popExpired_offered, ?_⟩
  exact (deadlines_match_agenda Trio.exchange _ _ _ _ 0).1 _ (Trio.roster.create_eq (.last 2)) _
    waits

end GroupKey
