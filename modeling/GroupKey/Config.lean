import GroupKey.Message.Basic
import GroupKey.Random

/-!
# Configuration of a member

Durations are nanoseconds.  A scatter delay is a window from which every retransmission delay is
drawn; the draw looks at the width of the window modulo `2 ^ 64`.
-/

namespace GroupKey

inductive Variant
  | chained
  | distributed
  deriving DecidableEq, Repr

/-- Lower case for the letters of the basic alphabet; all other characters stay. -/
def lowerAscii (text : String) : String := String.ofList (text.toList.map Char.toLower)

namespace Variant

def name : Variant → String
  | chained => "chained"
  | distributed => "distributed"

def ofText? (text : String) : Option Variant :=
  let lowered := lowerAscii text
  if lowered = "chained" || lowered = "str" then some chained
  else if lowered = "distributed" || lowered = "star" then some distributed
  else none

def unknownMessage (text : String) : String :=
  "unknown protocol variant '" ++ lowerAscii text ++ "' (expected chained or distributed)"

end Variant

/-! ## Delays -/

structure ScatterDelay where
  shortest : Nat
  longest : Nat
  ordered : shortest ≤ longest
  deriving DecidableEq, Repr

def nanosPerMilli : Nat := 1000000

namespace ScatterDelay

/-- The window between two bounds, in whichever order they are given. -/
def between (a b : Nat) : ScatterDelay := ⟨min a b, max a b, by omega⟩

def ofMillis (a b : Nat) : ScatterDelay := between (a * nanosPerMilli) (b * nanosPerMilli)

def default : ScatterDelay := ofMillis 10 200

/-- The width of the window as far as the draw sees it. -/
def span (w : ScatterDelay) : Nat := (w.longest - w.shortest) % UInt64.size

def sample (w : ScatterDelay) (r : Random) : Nat × Random :=
  if w.span = 0 then (w.shortest, r)
  else
    let (offset, r) := r.nextUpTo w.span
    (w.shortest + offset, r)

end ScatterDelay

/-! ## Members -/

structure MemberConfig where
  service : ServiceId
  memberCount : UInt16
  sponsor : Bool := false
  scatterDelay : ScatterDelay := .default
  finishTimeout : Nat := 5000 * nanosPerMilli
  variant : Variant := .chained
  deriving DecidableEq, Repr

inductive ConfigError
  | serviceId
  | memberCount
  | finishTimeout
  deriving DecidableEq, Repr

def ConfigError.message : ConfigError → String
  | serviceId => "service id must be positive"
  | memberCount => "member count must be at least 1"
  | finishTimeout => "finish timeout must be non-zero"

namespace MemberConfig

def validate (c : MemberConfig) : Except ConfigError Unit :=
  if c.service = 0 then .error .serviceId
  else if c.memberCount = 0 then .error .memberCount
  else if c.finishTimeout = 0 then .error .finishTimeout
  else .ok ()

/-- The number of members, the member itself included. -/
def size (c : MemberConfig) : Nat := c.memberCount.toNat

/-- What is made of a configuration is made of an accepted one. -/
theorem accepted_of_eq_ok {α : Type} {c : MemberConfig} {a b : α}
    (made : (c.validate >>= fun _ ↦ pure a) = .ok b) : c.validate = .ok () ∧ b = a := by
  cases accepted : c.validate with
  | error e => simp [accepted, bind, Except.bind] at made
  | ok _ =>
    simp only [accepted, bind, Except.bind, pure, Except.pure, Except.ok.injEq] at made
    exact ⟨rfl, made.symm⟩

theorem size_pos {c : MemberConfig} (accepted : c.validate = .ok ()) : 0 < c.size := by
  apply Nat.pos_of_ne_zero
  intro empty
  have nobody : c.memberCount = 0 := UInt16.toNat_inj.mp empty
  unfold validate at accepted
  rw [if_pos nobody] at accepted
  split at accepted <;> cases accepted

end MemberConfig

end GroupKey
