import GroupKey.Agenda
import GroupKey.Directory
import GroupKey.KeyTree

/-!
# Members of a chained agreement

Members join one at a time.  The sponsor extends its key tree by the newcomer's public value,
publishes the public value the group had before, and hands its role over.  All other members apply
the newcomer's value to their own trees, strictly in the order of ids.  When the last member is
in, a token walks the ring so that everyone can fill its gaps before the run is finished.

A member without a seat has not been let in.  A seat is a position in the chain together with the
keys computed from there on.
-/

namespace GroupKey

/-- A member's place in the group.  The number of keys stands for a counter of 16 bits that is
counted up unchecked: it is that counter as long as it is below `UInt16.size`. -/
structure Seat where
  id : Nat
  keysComputed : Nat
  tree : KeyTree
  sponsor : Bool
  deriving DecidableEq, Repr

/-- Someone who asks to be let in. -/
structure Candidate where
  endpoint : Endpoint
  publicValue : PublicValue
  deriving DecidableEq, Repr

/-- The message that made someone else the sponsor.  It is repeated until the new sponsor, or
someone behind it, was seen acting. -/
structure HandOver where
  response : Response
  confirmed : Bool := false
  deriving DecidableEq, Repr

/-- What a member has to do with the token: it held it, it passed it on, and its successor on the
ring took it. -/
structure TokenDuty where
  held : Bool := false
  passed : Bool := false
  taken : Bool := false
  deriving DecidableEq, Repr

structure Chain where
  config : MemberConfig
  endpoint : Endpoint
  keys : KeyPair
  agenda : Agenda
  seat : Option Seat := none
  /-- Candidates in the order they asked. -/
  pending : List Candidate := []
  directory : Directory := .empty
  sponsorFound : Bool := false
  handOver : Option HandOver := none
  token : TokenDuty := {}
  /-- Who has acknowledged the end, once the member announces it. -/
  farewells : Option (List Endpoint) := none
  /-- The group key was announced to the application. -/
  announced : Bool := false
  finished : Bool := false
  deriving DecidableEq, Repr

/-- The id that receives the token after `id` in a ring of `size` members. -/
def successor (id size : Nat) : Nat := if size = 0 then 1 else id % size + 1

namespace Chain

instance : Busy Chain where
  window c := c.config.scatterDelay
  agenda c := c.agenda
  withAgenda c a := { c with agenda := a }
  agenda_withAgenda _ _ := rfl
  withAgenda_agenda _ := rfl

/-! ## Views -/

def size (c : Chain) : Nat := c.config.size

def memberId? (c : Chain) : Option Nat := c.seat.map Seat.id

instance : Terminable Chain where
  memberId? c := c.memberId?
  finished c := c.finished
  withFinished c finished := { c with finished }
  finished_withFinished _ _ := rfl
  withFinished_finished _ := rfl

@[simp] theorem terminable_finished (c : Chain) : Terminable.finished c = c.finished := rfl

@[simp] theorem terminable_withFinished (c : Chain) (finished : Bool) :
    Terminable.withFinished c finished = { c with finished } := rfl

def keysComputed (c : Chain) : Nat := (c.seat.map Seat.keysComputed).getD 0

def tree? (c : Chain) : Option KeyTree := c.seat.map Seat.tree

def isSponsor (c : Chain) : Bool := c.seat.any Seat.sponsor

def isFor (c : Chain) (service : ServiceId) : Bool := service == c.config.service

/-- A sponsor that is not the last member is open to candidates. -/
def isOpen (c : Chain) : Bool := c.seat.any fun s ↦ s.sponsor && s.id < c.size

/-- Every contribution from its own up to the last member's is in the tree. -/
def isComplete (c : Chain) : Bool := c.seat.any fun s ↦ s.keysComputed == c.size - s.id + 1

def groupSecret? (c : Chain) : Option Secret :=
  if c.isComplete then c.tree?.map KeyTree.rootSecret else none

/-- Whom the member handed the sponsor role to. -/
def heir? (c : Chain) : Option Endpoint := c.handOver.map fun h ↦ h.response.newSponsor.endpoint

/-- The member announces the end of the run. -/
def isClosing (c : Chain) : Bool := c.farewells.isSome

/-- The ids below its own that nobody is recorded for. -/
def gapsBelow (c : Chain) : List Nat :=
  match c.seat with
  | some s => c.directory.missing 1 s.id
  | none => []

/-- The ids behind the newest contribution in the tree that nobody is recorded for. -/
def gapsAbove (c : Chain) : List Nat :=
  match c.seat with
  | some s => c.directory.missing (s.id + s.keysComputed) (c.size + 1)
  | none => []

def successorId? (c : Chain) : Option Nat := c.memberId?.map fun id ↦ successor id c.size

def status (c : Chain) : Status :=
  { memberId := c.memberId?
    sponsor := c.isSponsor
    keysComputed := c.keysComputed
    finished := c.finished
    groupKey := c.groupSecret?.map Secret.fingerprint }

def findMessage (c : Chain) : Message := .find c.config.service

def offerMessage (c : Chain) : Message := .offer c.config.service

def requestMessage (c : Chain) : Message := .request c.config.service c.keys.publicValue

def questionMessage (c : Chain) (phase : Phase) (ids : List Nat) : Message :=
  .infoRequest phase c.config.service (ids.map UInt16.ofNat)

def answerMessage (c : Chain) (phase : Phase) (id : Nat) : Message :=
  .infoResponse phase c.config.service (UInt16.ofNat id) c.keys.publicValue

def tokenMessage (target : Nat) : Message := .token (UInt16.ofNat target)

/-- Records an assigned member and drops it from the candidates. -/
def learn (c : Chain) (endpoint : Endpoint) (id : Nat) (value : PublicValue) : Chain :=
  if endpoint = c.endpoint then c
  else
    { c with
      directory := (c.directory.record endpoint id value).2
      pending := c.pending.filter fun p ↦ p.endpoint ≠ endpoint }

/-- The hand-over need not be repeated any more. -/
def confirm (c : Chain) : Chain :=
  { c with handOver := c.handOver.map fun h ↦ { h with confirmed := true } }

/-- Certain messages are sent by assigned members only.  To see one from the heir means that it has
taken over. -/
def hearAssigned (c : Chain) (source : Endpoint) : Chain :=
  if c.heir? = some source then c.confirm else c

/-! ## Steps shared by all phases -/

def reportKey (t : Turn Chain) : Turn Chain :=
  match t.member.seat with
  | some s => t.emit (.keyComputed s.keysComputed s.tree.rootSecret.fingerprint)
  | none => t.emit (.keyComputed 0 "")

/-- Announces the group key the first time it is complete. -/
def announceKey (t : Turn Chain) : Turn Chain :=
  match t.member.seat with
  | some s =>
    if t.member.announced || !t.member.isComplete then t
    else
      (t.modify fun c ↦ { c with announced := true }).emit
        (.groupKeyEstablished (some s.id) s.tree.rootSecret.fingerprint)
  | none => t

end Chain

end GroupKey
