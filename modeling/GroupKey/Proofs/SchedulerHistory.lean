import GroupKey.Proofs.Deadlines
import GroupKey.Proofs.Tables

/-!
# What a scheduler owes to its history

A scheduler forgets the calls it was given and keeps deadlines only.  They are those of the history:
a task is armed while the newest call to arm it still stands, and the tasks handed out at a time are
the ones whose calls stand and are due.  No clock reading is expected to follow another.
-/

namespace GroupKey

namespace Scheduler

/-- What a host asks of its scheduler. -/
inductive Call
  | arm (task : Task) (now delay : Nat)
  | cancel (task : Task)
  | clear
  | pop (now : Nat)
  deriving DecidableEq, Repr

/-- A call and the tasks it handed out. -/
structure Entry where
  call : Call
  handed : List Task
  deriving DecidableEq, Repr

/-- The tasks handed out for a call, and the scheduler after it. -/
def serve (s : Scheduler) : Call → List Task × Scheduler
  | .arm task now delay => ([], s.arm task now delay)
  | .cancel task => ([], s.cancel task)
  | .clear => ([], empty)
  | .pop now => s.popExpired now

/-- The history of the calls from the oldest to the newest, and the scheduler they lead to. -/
def history (calls : List Call) : List Entry × Scheduler :=
  calls.foldl (fun h call ↦ (h.1 ++ [⟨call, (h.2.serve call).1⟩], (h.2.serve call).2)) ([], empty)

/-! ## Calls that stand -/

/-- After this entry an earlier call to arm the task no longer counts. -/
def Entry.Settles (entry : Entry) (task : Task) : Prop :=
  match entry.call with
  | .arm other _ _ | .cancel other => other = task
  | .clear => True
  | .pop _ => task ∈ entry.handed

/-- The newest call to arm a task set this deadline, and no entry since has settled it. -/
def Stands (log : List Entry) (d : Deadline) : Prop :=
  ∃ earlier now delay later, log = earlier ++ ⟨.arm d.task now delay, []⟩ :: later ∧
    d.due = now + delay ∧ ∀ entry ∈ later, ¬ entry.Settles d.task

variable {log : List Entry} {entry : Entry} {s : Scheduler} {d : Deadline} {now : Nat}

theorem not_stands_nil : ¬ Stands [] d := by
  rintro ⟨earlier, now, delay, later, none, -⟩
  simp at none

/-- A call stands if it is the last of the log, or if it stood and the last one does not settle its
task. -/
theorem stands_concat : Stands (log ++ [entry]) d ↔
    (∃ now delay, entry = ⟨.arm d.task now delay, []⟩ ∧ d.due = now + delay) ∨
      Stands log d ∧ ¬ entry.Settles d.task := by
  constructor
  · rintro ⟨earlier, now, delay, later, split, due, unsettled⟩
    rcases List.eq_nil_or_concat later with rfl | ⟨between, last, rfl⟩
    · obtain ⟨rfl, newest⟩ := List.append_inj' split rfl
      exact .inl ⟨now, delay, List.singleton_inj.mp newest, due⟩
    · rw [List.concat_eq_append, ← List.cons_append, ← List.append_assoc] at split
      obtain ⟨rfl, newest⟩ := List.append_inj' split rfl
      cases List.singleton_inj.mp newest
      refine .inr ⟨⟨earlier, now, delay, between, rfl, due, fun e here ↦ ?_⟩, ?_⟩
      · exact unsettled e (by simp [here])
      · exact unsettled entry (by simp)
  · rintro (⟨now, delay, rfl, due⟩ | ⟨⟨earlier, now, delay, later, rfl, due, unsettled⟩, kept⟩)
    · exact ⟨log, now, delay, [], rfl, due, by simp⟩
    · refine ⟨earlier, now, delay, later ++ [entry], by simp, due, fun e here ↦ ?_⟩
      rcases List.mem_append.mp here with old | new
      · exact unsettled e old
      · rw [List.mem_singleton.mp new]
        exact kept

theorem mem_cancel {task : Task} :
    d ∈ (s.cancel task).deadlines ↔ d ∈ s.deadlines ∧ d.task ≠ task := by
  simp [cancel]

theorem mem_arm {task : Task} {delay : Nat} :
    d ∈ (s.arm task now delay).deadlines ↔
      d = ⟨task, now + delay⟩ ∨ d ∈ s.deadlines ∧ d.task ≠ task := by
  rw [arm, List.mem_cons, mem_cancel]

/-- What is not due is kept, and it is what was not handed out. -/
theorem Single.mem_popExpired_rest (single : s.Single) :
    d ∈ (s.popExpired now).2.deadlines ↔ d ∈ s.deadlines ∧ d.task ∉ (s.popExpired now).1 := by
  have rest : d ∈ (s.popExpired now).2.deadlines ↔ d ∈ s.deadlines ∧ now < d.due := by
    simp [Scheduler.popExpired]
  rw [rest, mem_popExpired]
  refine and_congr_right fun here ↦ ⟨?_, fun absent ↦ ?_⟩
  · rintro later ⟨e, e_mem, e_due, same⟩
    obtain rfl := List.inj_on_of_nodup_map single e_mem here same
    omega
  · exact Nat.lt_of_not_le fun due ↦ absent ⟨d, here, due, rfl⟩

theorem Single.deadline?_eq_some_iff (single : s.Single) {task : Task} {due : Nat} :
    s.deadline? task = some due ↔ ⟨task, due⟩ ∈ s.deadlines := by
  rw [deadline?, Option.map_eq_some_iff]
  simp only [find?_eq_some_iff_of_nodup single]
  constructor
  · rintro ⟨d, ⟨here, rfl⟩, rfl⟩
    exact here
  · exact fun here ↦ ⟨_, ⟨here, rfl⟩, rfl⟩

/-- The deadlines of a scheduler are the ones that its history leaves standing. -/
structure Reflects (s : Scheduler) (log : List Entry) : Prop where
  single : s.Single
  mem : ∀ d, d ∈ s.deadlines ↔ Stands log d

/-- Each call keeps the scheduler to its history. -/
theorem Reflects.serve (reflects : s.Reflects log) (call : Call) :
    (s.serve call).2.Reflects (log ++ [⟨call, (s.serve call).1⟩]) := by
  cases call with
  | arm task now delay =>
    refine ⟨reflects.single.arm task now delay, fun d ↦ ?_⟩
    rw [stands_concat, ← reflects.mem, Scheduler.serve, mem_arm]
    refine or_congr ⟨?_, ?_⟩ (and_congr_right fun _ ↦ not_congr eq_comm)
    · rintro rfl
      exact ⟨now, delay, rfl, rfl⟩
    · rintro ⟨now, delay, same, due⟩
      cases d
      cases same
      cases due
      rfl
  | cancel task =>
    refine ⟨reflects.single.cancel task, fun d ↦ ?_⟩
    rw [stands_concat, ← reflects.mem, Scheduler.serve, mem_cancel]
    simp [Entry.Settles, eq_comm]
  | clear =>
    refine ⟨List.nodup_nil, fun d ↦ ?_⟩
    rw [stands_concat]
    simp [Scheduler.serve, empty, Entry.Settles]
  | pop now =>
    refine ⟨reflects.single.popExpired now, fun d ↦ ?_⟩
    rw [stands_concat, ← reflects.mem, Scheduler.serve, reflects.single.mem_popExpired_rest]
    simp [Entry.Settles]

/-- The induction is on the calls, the last of which changes log and deadlines alike. -/
theorem reflects_history (calls : List Call) : (history calls).2.Reflects (history calls).1 := by
  refine List.foldlRecOn calls (motive := fun h : List Entry × Scheduler ↦ h.2.Reflects h.1) _ ?_ ?_
  · exact ⟨List.nodup_nil, fun d ↦ ⟨fun here ↦ absurd here List.not_mem_nil,
      fun stands ↦ absurd stands not_stands_nil⟩⟩
  · exact fun h reflects call _ ↦ reflects.serve call

theorem next?_eq_none_iff : s.next? = none ↔ ∀ task, s.isArmed task = false := by
  rw [next?, List.min?_eq_none_iff, List.map_eq_nil_iff]
  constructor
  · intro none task
    simp [isArmed, none]
  · refine fun idle ↦ List.eq_nil_iff_forall_not_mem.mpr fun d here ↦ ?_
    exact Bool.eq_false_iff.mp (idle d.task) (isArmed_eq_true_iff.mpr ⟨d, here, rfl⟩)

/-- The next deadline is one of them, and none of them is earlier. -/
theorem next?_eq_some_iff {next : Nat} : s.next? = some next ↔
    (∃ d ∈ s.deadlines, d.due = next) ∧ ∀ d ∈ s.deadlines, next ≤ d.due := by
  simp [next?, List.min?_eq_some_iff]

end Scheduler

/-! ## What is handed out -/

namespace Deadline

/-- Before another one, and not together with it. -/
def Precedes (x y : Deadline) : Prop := x.due < y.due ∨ x.due = y.due ∧ x.task.rank < y.task.rank

/-- Two tasks that are due at the same time come in the order of the tasks. -/
theorem precedes_of_before {x y : Deadline} (ordered : x.before y = true)
    (distinct : x.task ≠ y.task) : x.Precedes y := by
  have ranks : x.task.rank ≠ y.task.rank := fun same ↦ distinct (Task.rank_injective same)
  simp only [before, Bool.or_eq_true, Bool.and_eq_true, decide_eq_true_eq, beq_iff_eq] at ordered
  unfold Precedes
  omega

end Deadline

open Scheduler in
/-- Whatever a scheduler was asked before, at any clock readings: the tasks it hands out are the
ones that were armed by a call that stands and is due, once each, earliest first and by their rank
at the same time.  It forgets these and no others, and the next deadline is the earliest that is
left, later than the reading, and there is one unless nothing is armed. -/
theorem popExpired_matches_history (calls : List Call) (now : Nat) :
    let log := (history calls).1
    let s := (history calls).2
    let tasks := (s.popExpired now).1
    let rest := (s.popExpired now).2
    tasks.Nodup ∧
    (∃ due : List Deadline, tasks = due.map Deadline.task ∧ due.Pairwise Deadline.Precedes ∧
      ∀ d, d ∈ due ↔ Stands log d ∧ d.due ≤ now) ∧
    (∀ task due, s.deadline? task = some due ↔ Stands log ⟨task, due⟩) ∧
    (∀ task, rest.deadline? task = if task ∈ tasks then none else s.deadline? task) ∧
    (rest.next? = none ↔ ∀ task, rest.isArmed task = false) ∧
    (∀ next, rest.next? = some next →
      now < next ∧ (∃ task, rest.deadline? task = some next) ∧
        ∀ task due, rest.deadline? task = some due → next ≤ due) := by
  intro log s tasks rest
  have reflects : s.Reflects log := reflects_history calls
  have single : rest.Single := reflects.single.popExpired now
  refine ⟨reflects.single.nodup_popExpired now, ⟨_, rfl, ?_, fun d ↦ ?_⟩, fun task due ↦ ?_,
    fun task ↦ ?_, next?_eq_none_iff, fun next earliest ↦ ?_⟩
  · have sorted : ((s.deadlines.filter fun d ↦ d.due ≤ now).mergeSort Deadline.before).Pairwise
        fun x y ↦ x.before y = true := by
      apply List.pairwise_mergeSort
      · exact fun _ _ _ ↦ Deadline.before_trans
      · exact Deadline.before_total
    have distinct := List.pairwise_map.mp (reflects.single.nodup_popExpired now)
    exact (sorted.and distinct).imp fun ⟨ordered, different⟩ ↦
      Deadline.precedes_of_before ordered different
  · simp [← reflects.mem]
  · rw [reflects.single.deadline?_eq_some_iff, reflects.mem]
  · refine Option.ext fun due ↦ ?_
    rw [single.deadline?_eq_some_iff, reflects.single.mem_popExpired_rest]
    split
    · next handed => exact iff_of_false (fun kept ↦ kept.2 handed) (by simp)
    · next kept =>
      rw [reflects.single.deadline?_eq_some_iff]
      exact and_iff_left kept
  · obtain ⟨⟨d, here, rfl⟩, least⟩ := next?_eq_some_iff.mp earliest
    refine ⟨?_, ⟨d.task, single.deadline?_eq_some_iff.mpr here⟩, fun task due armed ↦ ?_⟩
    · simpa using (List.mem_filter.mp here).2
    · exact least _ (single.deadline?_eq_some_iff.mp armed)

/-- Two deadlines that come together, set by clocks that went backwards, and one that was moved. -/
example : (Scheduler.history [.arm .offer 90 60, .arm .find 100 20, .arm .offer 80 40,
    .arm .finish 70 60, .pop 120]).1.getLast? = some ⟨.pop 120, [.find, .offer]⟩ := by
  cbv

end GroupKey
