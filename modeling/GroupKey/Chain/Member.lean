import GroupKey.Chain.Joining

/-!
# The chained member as a whole

Start, deadlines and messages.  A deadline that comes when its task is no longer worth running is
ignored.
-/

namespace GroupKey

namespace Chain

/-- A member before its start. -/
def create (config : MemberConfig) (endpoint : Endpoint) (keys : KeyPair) (random : Random) :
    Except ConfigError (Turn Chain) := do
  config.validate
  let c : Chain := { config, endpoint, keys, agenda := ⟨[], random⟩ }
  return ({ member := c } : Turn Chain).count .cryptoOperations

/-- The seat of the member that opens the group. -/
def openingSeat (c : Chain) : Seat :=
  ⟨1, 1, .leaf c.keys.secret (some c.keys.publicValue) (some c.keys.secret) c.keys.publicValue,
    true⟩

/-- Whether a task is still worth running. -/
def wants (c : Chain) (task : Task) : Bool :=
  !c.finished && match task with
    | .find => c.seat.isNone && !c.sponsorFound
    | .offer => c.isOpen
    | .request => c.seat.isNone
    | .response => c.handOver.any fun h ↦ !h.confirmed
    | .infoRequest => c.isOpen
    | .infoResponse => c.seat.isSome
    | .synchRequest => c.token.held && !c.isComplete
    | .synchResponse => c.seat.isSome
    | .synchToken => !c.token.taken && !c.isClosing
    | .finish => c.isClosing
    | .finishAck => false
    | .finishTimeout => c.isClosing

/-- Opens the group as its first member. -/
def openGroup (t : Turn Chain) : Turn Chain :=
  let t := (t.mark .keyAgreementStart).modify fun c ↦
    { c with
      seat := some c.openingSeat
      directory := (c.directory.record c.endpoint 1 c.keys.publicValue).2 }
  let t := reportKey ((t.emit (.assigned 1)).emit (.becameSponsor 1))
  if t.member.size = 1 then (announceKey t).endRun
  else t.keepSending .offer none t.member.offerMessage

def begin (t : Turn Chain) : Turn Chain :=
  let t := (t.count .memberCount).mark .durationStart
  if t.member.config.sponsor then openGroup t
  else t.keepSending .find none t.member.findMessage

/-! ## Deadlines -/

/-- Tells the member's own value. -/
def tellValue (phase : Phase) (t : Turn Chain) : Turn Chain :=
  match t.member.seat with
  | some s => t.multicast (t.member.answerMessage phase s.id)
  | none => t

def runTask (kx : KeyExchange) (task : Task) (t : Turn Chain) : Turn Chain :=
  match task with
  | .find => t.keepSending .find none t.member.findMessage
  | .offer => t.keepSending .offer none t.member.offerMessage
  -- One request for each burst of offers; the sponsor keeps offering.
  | .request => t.multicast t.member.requestMessage
  | .response =>
    match t.member.handOver with
    | some h => t.keepSending .response none (.response h.response)
    | none => t
  | .infoRequest => attendQueue kx t
  | .infoResponse => tellValue .joining t
  | .synchRequest =>
    let gaps := t.member.gapsAbove
    if gaps.isEmpty then t
    else t.keepSending .synchRequest none (t.member.questionMessage .synch gaps)
  | .synchResponse => tellValue .synch t
  | .synchToken =>
    match t.member.successorId? with
    | some next => t.keepSending .synchToken none (tokenMessage next)
    | none => t
  | .finish => t.keepSending .finish none .finish
  | .finishAck => t
  | .finishTimeout => t.endRun

def expire (kx : KeyExchange) (task : Task) (t : Turn Chain) : Turn Chain :=
  let t := t.disarm task
  if t.member.wants task then runTask kx task t else t

/-! ## Messages -/

def answer (kx : KeyExchange) (m : Message) (source : Endpoint) (t : Turn Chain) : Turn Chain :=
  match m with
  | .find service => answerFind service t
  | .offer service => answerOffer service source t
  | .request service value => answerRequest kx service value source t
  | .response r => answerResponse kx r source t
  | .infoRequest phase service ids => answerQuestion phase service ids source t
  | .infoResponse _ service id value => takeAnswer kx service id value source t
  | .token target => answerToken kx target.toNat source t
  | .finish => answerFinish source t
  | .finishAck => answerFinishAck source t
  | .distributed _ => t

end Chain

end GroupKey
