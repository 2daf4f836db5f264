import GroupKey.Agenda

/-!
# Members of a star agreement

The sponsor draws a random group secret and hands it to every member that asks, sealed under a key
that the two of them agree on.  An answer is made once for each endpoint and repeated as it is.
Members acknowledge until the sponsor, having heard from everyone, announces the end.
-/

namespace GroupKey

/-- The answer that was given to one requester. -/
structure Served where
  endpoint : Endpoint
  answer : SealedResponse
  deriving DecidableEq, Repr

structure Star where
  config : MemberConfig
  endpoint : Endpoint
  keys : KeyPair
  agenda : Agenda
  groupSecret? : Option Secret := none
  /-- The sponsor's answers in the order they were made. -/
  served : List Served := []
  /-- Whom a member has the group secret from. -/
  source? : Option Endpoint := none
  sponsorFound : Bool := false
  closing : Bool := false
  /-- Which of the members that were served have acknowledged. -/
  acknowledged : List Endpoint := []
  finished : Bool := false
  deriving DecidableEq, Repr

namespace Star

instance : Busy Star where
  window m := m.config.scatterDelay
  agenda m := m.agenda
  withAgenda m a := { m with agenda := a }
  agenda_withAgenda _ _ := rfl
  withAgenda_agenda _ := rfl

/-! ## Views -/

/-- The number of members besides the sponsor. -/
def peers (m : Star) : Nat := m.config.size - 1

/-- Only the sponsor has a position in the star. -/
def memberId? (m : Star) : Option Nat := if m.config.sponsor then some 1 else none

instance : Terminable Star where
  memberId? m := m.memberId?
  finished m := m.finished
  withFinished m finished := { m with finished }
  finished_withFinished _ _ := rfl
  withFinished_finished _ := rfl

@[simp] theorem terminable_finished (m : Star) : Terminable.finished m = m.finished := rfl

@[simp] theorem terminable_withFinished (m : Star) (finished : Bool) :
    Terminable.withFinished m finished = { m with finished } := rfl

def isFor (m : Star) (service : ServiceId) : Bool := service == m.config.service

def answerFor? (m : Star) (endpoint : Endpoint) : Option SealedResponse :=
  (m.served.find? fun s ↦ s.endpoint = endpoint).map Served.answer

def status (m : Star) : Status :=
  { memberId := m.memberId?
    sponsor := m.config.sponsor
    keysComputed := if m.groupSecret?.isSome then 1 else 0
    finished := m.finished
    groupKey := m.groupSecret?.map Secret.fingerprint }

/-- Whether a task is still worth running. -/
def wants (m : Star) (task : Task) : Bool :=
  !m.finished && match task with
    | .offer => m.config.sponsor && !m.closing
    | .find => m.groupSecret?.isNone && !m.sponsorFound
    | .request => m.groupSecret?.isNone
    | .finishAck => m.source?.isSome
    | .finish => m.closing
    | .finishTimeout => m.closing
    | _ => false

/-! ## Messages -/

def findMessage (m : Star) : Message := .find m.config.service

def offerMessage (m : Star) : Message := .offer m.config.service

def requestMessage (m : Star) : Message := .request m.config.service m.keys.publicValue

end Star

end GroupKey
