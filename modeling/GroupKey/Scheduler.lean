/-!
# Deferred tasks

A member never sleeps.  It asks for a task to be run after a delay; a scheduler keeps at most one
deadline for each task, in nanoseconds of its clock, and hands the tasks back that are due,
earliest first and in the order of the tasks among equals.
-/

namespace GroupKey

inductive Task
  | find
  | offer
  | request
  | response
  | infoRequest
  | infoResponse
  | synchRequest
  | synchResponse
  | synchToken
  | finish
  | finishAck
  | finishTimeout
  deriving DecidableEq, Repr

namespace Task

def all : List Task :=
  [find, offer, request, response, infoRequest, infoResponse, synchRequest, synchResponse,
    synchToken, finish, finishAck, finishTimeout]

def name : Task → String
  | find => "Find"
  | offer => "Offer"
  | request => "Request"
  | response => "Response"
  | infoRequest => "MemberInfoRequest"
  | infoResponse => "MemberInfoResponse"
  | synchRequest => "SynchRequest"
  | synchResponse => "SynchResponse"
  | synchToken => "SynchToken"
  | finish => "Finish"
  | finishAck => "FinishAck"
  | finishTimeout => "FinishTimeout"

/-- The place of a task among tasks that are due together. -/
def rank : Task → Nat
  | find => 0
  | offer => 1
  | request => 2
  | response => 3
  | infoRequest => 4
  | infoResponse => 5
  | synchRequest => 6
  | synchResponse => 7
  | synchToken => 8
  | finish => 9
  | finishAck => 10
  | finishTimeout => 11

theorem rank_injective {t u : Task} (same : t.rank = u.rank) : t = u := by
  cases t <;> cases u <;> first | rfl | simp [rank] at same

theorem mem_all (t : Task) : t ∈ all := by cases t <;> decide

end Task

/-- One armed task and when it is due. -/
structure Deadline where
  task : Task
  due : Nat
  deriving DecidableEq, Repr

namespace Deadline

/-- Earlier first, and tasks in their order at the same time. -/
def before (x y : Deadline) : Bool := x.due < y.due || (x.due == y.due && x.task.rank ≤ y.task.rank)

/-- Any two deadlines have an order, by time and then by task. -/
theorem before_total (x y : Deadline) : (x.before y || y.before x) = true := by
  simp only [before, Bool.or_eq_true, Bool.and_eq_true, decide_eq_true_eq, beq_iff_eq]
  omega

theorem before_trans {x y z : Deadline} (xy : x.before y = true) (yz : y.before z = true) :
    x.before z = true := by
  simp only [before, Bool.or_eq_true, Bool.and_eq_true, decide_eq_true_eq, beq_iff_eq] at *
  omega

end Deadline

structure Scheduler where
  deadlines : List Deadline
  deriving DecidableEq, Repr

namespace Scheduler

def empty : Scheduler := ⟨[]⟩

def cancel (s : Scheduler) (task : Task) : Scheduler :=
  ⟨s.deadlines.filter fun d ↦ d.task ≠ task⟩

/-- Sets the deadline of a task and forgets an earlier one. -/
def arm (s : Scheduler) (task : Task) (now delay : Nat) : Scheduler :=
  ⟨⟨task, now + delay⟩ :: (s.cancel task).deadlines⟩

def deadline? (s : Scheduler) (task : Task) : Option Nat :=
  (s.deadlines.find? fun d ↦ d.task = task).map Deadline.due

def isArmed (s : Scheduler) (task : Task) : Bool := s.deadlines.any fun d ↦ d.task = task

def next? (s : Scheduler) : Option Nat := (s.deadlines.map Deadline.due).min?

/-- The tasks due at `now` in the order they are to run, and the scheduler without them. -/
def popExpired (s : Scheduler) (now : Nat) : List Task × Scheduler :=
  let due := (s.deadlines.filter fun d ↦ d.due ≤ now).mergeSort Deadline.before
  (due.map Deadline.task, ⟨s.deadlines.filter fun d ↦ now < d.due⟩)

def size (s : Scheduler) : Nat := s.deadlines.length

def isEmpty (s : Scheduler) : Bool := s.deadlines.isEmpty

end Scheduler

end GroupKey
