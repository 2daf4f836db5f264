import GroupKey.Config
import GroupKey.Effect
import GroupKey.Fault

/-!
# Retransmission

A member keeps an agenda: the tasks it has asked to be run, and the random stream from which it
draws their delays.  Arming an armed task changes nothing, so a message that is kept being sent
goes out once per deadline.
-/

namespace GroupKey

structure Agenda where
  armed : List Task
  random : Random
  deriving DecidableEq, Repr

namespace Agenda

def isArmed (a : Agenda) (task : Task) : Bool := a.armed.contains task

def insert (a : Agenda) (task : Task) : Agenda :=
  if a.isArmed task then a else { a with armed := task :: a.armed }

def remove (a : Agenda) (task : Task) : Agenda :=
  { a with armed := a.armed.filter fun other ↦ other ≠ task }

theorem isArmed_insert (a : Agenda) (task other : Task) :
    (a.insert task).isArmed other = (decide (other = task) || a.isArmed other) := by
  by_cases here : a.isArmed task
  · by_cases same : other = task <;> simp [insert, here, same]
  · rw [insert, if_neg here]
    by_cases same : other = task <;> simp [same, isArmed]

theorem isArmed_remove (a : Agenda) (task other : Task) :
    (a.remove task).isArmed other = (decide (other ≠ task) && a.isArmed other) := by
  by_cases same : other = task <;> simp [remove, isArmed, same]

/-- To drop a task that is not armed changes nothing. -/
theorem remove_eq_self {a : Agenda} {task : Task} (idle : a.isArmed task = false) :
    a.remove task = a := by
  unfold remove
  congr 1
  rw [List.filter_eq_self]
  intro other armed
  rw [decide_eq_true_eq]
  rintro rfl
  simp [isArmed, armed] at idle

end Agenda

/-- Members that keep an agenda and draw delays from a window. -/
class Busy (σ : Type) where
  window : σ → ScatterDelay
  agenda : σ → Agenda
  withAgenda : σ → Agenda → σ
  agenda_withAgenda : ∀ m a, agenda (withAgenda m a) = a
  withAgenda_agenda : ∀ m, withAgenda m (agenda m) = m

namespace Turn

variable {σ : Type} [Busy σ]

def isArmed (t : Turn σ) (task : Task) : Bool := (Busy.agenda t.member).isArmed task

def setAgenda (t : Turn σ) (a : Agenda) : Turn σ := t.modify fun m ↦ Busy.withAgenda m a

/-- Arms a task after a scatter delay, unless it is armed. -/
def schedule (t : Turn σ) (task : Task) : Turn σ :=
  if t.isArmed task then t
  else
    let agenda := Busy.agenda t.member
    let (delay, random) := (Busy.window t.member).sample agenda.random
    (t.setAgenda { agenda.insert task with random }).act (.schedule task delay)

/-- Arms a task after a delay that is given, whether or not it is armed. -/
def scheduleAfter (t : Turn σ) (task : Task) (delay : Nat) : Turn σ :=
  (t.setAgenda ((Busy.agenda t.member).insert task)).act (.schedule task delay)

def cancel (t : Turn σ) (task : Task) : Turn σ :=
  if t.isArmed task then
    (t.setAgenda ((Busy.agenda t.member).remove task)).act (.cancel task)
  else t

/-- Takes a task off the agenda because its deadline has come. -/
def disarm (t : Turn σ) (task : Task) : Turn σ :=
  t.setAgenda ((Busy.agenda t.member).remove task)

/-- Sends to one member, or to the whole group if none is named. -/
def send (t : Turn σ) (target : Option Endpoint) (m : Message) : Turn σ :=
  match target with
  | some endpoint => t.unicast endpoint m
  | none => t.multicast m

/-- Sends now and arms the task that sends again, unless it is armed. -/
def keepSending (t : Turn σ) (task : Task) (target : Option Endpoint) (m : Message) : Turn σ :=
  if t.isArmed task then t else (t.send target m).schedule task

end Turn

end GroupKey
