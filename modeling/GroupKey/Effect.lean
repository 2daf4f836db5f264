import GroupKey.Message.Basic
import GroupKey.Scheduler

/-!
# What a member does

Members are pure: each step answers with effects that someone else carries out in order, and with
measurements that someone else counts.  A `Turn` is a member together with what it has done so
far in one step.
-/

namespace GroupKey

/-- What an application is told.  Secrets appear as fingerprints only. -/
inductive Event
  | assigned (id : Nat)
  | becameSponsor (id : Nat)
  | admitted (id : Nat) (endpoint : Endpoint)
  | keyComputed (keys : Nat) (root : String)
  | tokenReceived (source : Endpoint)
  | groupKeyEstablished (id : Option Nat) (fingerprint : String)
  | finished (id : Option Nat)
  | failed (description : String)
  deriving DecidableEq, Repr

def Event.name : Event → String
  | assigned _ => "Assigned"
  | becameSponsor _ => "BecameSponsor"
  | admitted _ _ => "Admitted"
  | keyComputed _ _ => "KeyComputed"
  | tokenReceived _ => "TokenReceived"
  | groupKeyEstablished _ _ => "GroupKeyEstablished"
  | finished _ => "Finished"
  | failed _ => "Error"

inductive Effect
  | multicast (message : Message)
  | unicast (target : Endpoint) (message : Message)
  | schedule (task : Task) (delay : Nat)
  | cancel (task : Task)
  | emit (event : Event)
  | terminate
  deriving DecidableEq, Repr

/-- The message an effect carries. -/
def Effect.message? : Effect → Option Message
  | multicast m => some m
  | unicast _ m => some m
  | _ => none

/-! ## Turns -/

structure Turn (σ : Type) where
  member : σ
  effects : List Effect := []
  measurements : List Measurement := []
  deriving DecidableEq, Repr

namespace Turn

variable {σ : Type}

def act (t : Turn σ) (e : Effect) : Turn σ := { t with effects := t.effects ++ [e] }

def emit (t : Turn σ) (e : Event) : Turn σ := t.act (.emit e)

def measure (t : Turn σ) (m : Measurement) : Turn σ :=
  { t with measurements := t.measurements ++ [m] }

def count (t : Turn σ) (m : CountMetric) : Turn σ := t.measure (.count m)

def mark (t : Turn σ) (m : TimeMetric) : Turn σ := t.measure (.mark m)

def modify (t : Turn σ) (f : σ → σ) : Turn σ := { t with member := f t.member }

/-- Sends to the whole group and counts the message. -/
def multicast (t : Turn σ) (m : Message) : Turn σ := (t.count m.kind.metric).act (.multicast m)

/-- Sends to one member and counts the message. -/
def unicast (t : Turn σ) (target : Endpoint) (m : Message) : Turn σ :=
  (t.count m.kind.metric).act (.unicast target m)

end Turn

/-- Members whose run ends. -/
class Terminable (σ : Type) where
  memberId? : σ → Option Nat
  finished : σ → Bool
  withFinished : σ → Bool → σ
  finished_withFinished : ∀ m finished', finished (withFinished m finished') = finished'
  withFinished_finished : ∀ m, withFinished m (finished m) = m

/-- Ends the run of a member, unless it has ended. -/
def Turn.endRun {σ : Type} [Terminable σ] (t : Turn σ) : Turn σ :=
  if Terminable.finished t.member then t
  else
    (((t.modify fun m ↦ Terminable.withFinished m true).mark .durationEnd).emit
      (.finished (Terminable.memberId? t.member))).act .terminate

/-! ## Views -/

/-- A view of a member that is safe to show. -/
structure Status where
  memberId : Option Nat
  sponsor : Bool
  keysComputed : Nat
  finished : Bool
  groupKey : Option String
  deriving DecidableEq, Repr

end GroupKey
