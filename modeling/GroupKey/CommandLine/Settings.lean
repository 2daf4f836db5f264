import GroupKey.Channel
import GroupKey.Config

/-!
# Settings of a node

What the command line of a node fixes.  Each setting has a slot.  A draft holds the slots that are
filled so far, and becomes settings when no necessary one is empty.
-/

namespace GroupKey.CommandLine

inductive Slot
  | sponsor
  | service
  | memberCount
  | shortestDelay
  | longestDelay
  | listenInterface
  | groupAddress
  | groupPort
  | variant
  | finishTimeout
  | outputDirectory
  deriving DecidableEq, Repr

/-- Why a command line gives no settings. -/
inductive Refusal
  | helpRequested
  | versionRequested
  | unknown (word : String)
  | unexpectedValue (word : String)
  | missingValue (slot : Slot)
  | badValue (slot : Slot) (word : String)
  | repeated (slot : Slot)
  | missing (slot : Slot)
  deriving DecidableEq, Repr

/-- A request for information is no failure. -/
def Refusal.exitCode : Refusal → UInt8
  | helpRequested | versionRequested => 0
  | _ => 2

/-- A truth value in any case. -/
def readFlag? (word : String) : Option Bool :=
  let lowered := lowerAscii word
  if lowered = "true" then some true
  else if lowered = "false" then some false
  else none

def badFlagMessage (word : String) : String := "expected true or false, got '" ++ word ++ "'"

/-- A decimal number from `least` on and below `bound`, with a plus sign or without. -/
def readNat? (least bound : Nat) (word : String) : Option Nat := do
  let digits := match word.toList with
    | '+' :: digits => digits
    | digits => digits
  let n ← Digits.decimal? digits
  if least ≤ n && n < bound then some n else none

def readMillis? (word : String) : Option Nat := readNat? 0 UInt64.size word

/-! ## Settings -/

structure Settings where
  sponsor : Bool
  service : ServiceId
  memberCount : UInt16
  /-- The bounds of the scatter delay in milliseconds, in either order. -/
  delayMillis : Nat × Nat
  /-- The interface to listen on and the group to join, where they are not the usual ones. -/
  network : Option (Address × Endpoint)
  variant : Variant
  finishTimeoutMillis : Nat
  outputDirectory : String
  deriving DecidableEq, Repr

namespace Settings

def memberConfig (s : Settings) : MemberConfig where
  service := s.service
  memberCount := s.memberCount
  sponsor := s.sponsor
  scatterDelay := .ofMillis s.delayMillis.1 s.delayMillis.2
  finishTimeout := s.finishTimeoutMillis * nanosPerMilli
  variant := s.variant

def channelConfig (s : Settings) : ChannelConfig :=
  match s.network with
  | none => {}
  | some (interface, group) =>
    { listenInterface := interface
      multicastAddress := group.address
      multicastPort := group.port }

end Settings

/-! ## Drafts -/

structure Draft where
  sponsor : Option Bool := none
  service : Option ServiceId := none
  memberCount : Option UInt16 := none
  shortestDelay : Option Nat := none
  longestDelay : Option Nat := none
  listenInterface : Option Address := none
  groupAddress : Option Address := none
  groupPort : Option UInt16 := none
  variant : Option Variant := none
  finishTimeout : Option Nat := none
  outputDirectory : Option String := none
  deriving DecidableEq, Repr

namespace Draft

def fills (d : Draft) : Slot → Bool
  | .sponsor => d.sponsor.isSome
  | .service => d.service.isSome
  | .memberCount => d.memberCount.isSome
  | .shortestDelay => d.shortestDelay.isSome
  | .longestDelay => d.longestDelay.isSome
  | .listenInterface => d.listenInterface.isSome
  | .groupAddress => d.groupAddress.isSome
  | .groupPort => d.groupPort.isSome
  | .variant => d.variant.isSome
  | .finishTimeout => d.finishTimeout.isSome
  | .outputDirectory => d.outputDirectory.isSome

/-- The draft with one more slot filled, if the word has a value for it. -/
def put? (d : Draft) (word : String) : Slot → Option Draft
  | .sponsor => (readFlag? word).map fun b ↦ { d with sponsor := b }
  | .service => (readNat? 1 UInt32.size word).map fun n ↦ { d with service := UInt32.ofNat n }
  | .memberCount =>
    (readNat? 2 UInt16.size word).map fun n ↦ { d with memberCount := UInt16.ofNat n }
  | .shortestDelay => (readMillis? word).map fun n ↦ { d with shortestDelay := n }
  | .longestDelay => (readMillis? word).map fun n ↦ { d with longestDelay := n }
  | .listenInterface => (Address.parse? word).map fun x ↦ { d with listenInterface := x }
  | .groupAddress => (Address.parse? word).map fun x ↦ { d with groupAddress := x }
  | .groupPort => (readNat? 1 UInt16.size word).map fun n ↦ { d with groupPort := UInt16.ofNat n }
  | .variant => (Variant.ofText? word).map fun v ↦ { d with variant := v }
  | .finishTimeout => (readMillis? word).map fun n ↦ { d with finishTimeout := n }
  | .outputDirectory => some { d with outputDirectory := word }

/-- Fills a slot.  A slot is filled once, and an empty word names no directory. -/
def fill (d : Draft) (slot : Slot) (word : String) : Except Refusal Draft :=
  if d.fills slot then .error (.repeated slot)
  else if slot = .outputDirectory && word.isEmpty then .error (.missingValue slot)
  else (d.put? word slot).elim (.error (.badValue slot word)) .ok

def require {α : Type} (slot : Slot) (value : Option α) : Except Refusal α :=
  value.elim (.error (.missing slot)) .ok

/-- An interface needs a group to join. -/
def network (d : Draft) : Except Refusal (Option (Address × Endpoint)) :=
  match d.listenInterface with
  | none => .ok none
  | some interface => do
    let address ← require .groupAddress d.groupAddress
    let port ← require .groupPort d.groupPort
    return some (interface, ⟨address, port⟩)

def settings (d : Draft) : Except Refusal Settings := do
  return {
    sponsor := ← require .sponsor d.sponsor
    service := ← require .service d.service
    memberCount := ← require .memberCount d.memberCount
    delayMillis :=
      (← require .shortestDelay d.shortestDelay, ← require .longestDelay d.longestDelay)
    network := ← d.network
    variant := d.variant.getD .chained
    finishTimeoutMillis := d.finishTimeout.getD 5000
    outputDirectory := d.outputDirectory.getD "statistic_results" }

end Draft

end GroupKey.CommandLine
