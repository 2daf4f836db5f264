import GroupKey.Chain.Cascade

/-!
# The token round and the end of a run

The last member sends the token to member one.  Each holder fetches the values it is missing,
completes its key and passes the token on.  When the token is back at the last member everyone
holds the key, and the last member announces the end until all have acknowledged it or its
patience is over.
-/

namespace GroupKey.Chain

/-! ## Passing the token -/

/-- The successor holds the token, so it need not be sent again. -/
def seeTokenTaken (t : Turn Chain) : Turn Chain :=
  if !t.member.token.passed || t.member.token.taken then t
  else (t.modify fun c ↦ { c with token.taken := true }).cancel .synchToken

def passToken (t : Turn Chain) : Turn Chain :=
  match t.member.successorId? with
  | some next =>
    (t.modify fun c ↦ { c with token.passed := true }).keepSending .synchToken none
      (tokenMessage next)
  | none => t

/-- A holder of the token passes it on once its key is complete, and asks for the values it is
missing otherwise. -/
def tendToken (t : Turn Chain) : Turn Chain :=
  let c := t.member
  if !c.token.held || c.isClosing || c.finished then t
  else if c.isComplete then
    let t := t.cancel .synchRequest
    if t.member.token.taken then t else passToken t
  else
    let gaps := c.gapsAbove
    if gaps.isEmpty then t
    else t.keepSending .synchRequest none (c.questionMessage .synch gaps)

/-- Starts to announce the end, and to wait for those who acknowledge it. -/
def announceEnd (t : Turn Chain) : Turn Chain :=
  (((t.modify fun c ↦ { c with farewells := some [] }).cancel .synchToken).keepSending .finish none
    .finish).scheduleAfter .finishTimeout t.member.config.finishTimeout

/-! ## Messages of the round -/

def holdToken (kx : KeyExchange) (source : Endpoint) (s : Seat) (t : Turn Chain) : Turn Chain :=
  let t :=
    if t.member.token.held then t
    else (t.modify fun c ↦ { c with token.held := true }).emit (.tokenReceived source)
  if s.id = t.member.size then
    if t.member.isClosing then t else announceEnd t
  else if t.member.token.taken then
    -- The sender missed that the token went on and keeps repeating it.
    t.unicast source (tokenMessage (successor s.id t.member.size))
  else tendToken (cascade kx t)

/-- The last member repeats its opening token until member one answers, so what is overheard says
nothing about the hand-over to the last member. -/
def overhearToken (target : Nat) (source : Endpoint) (s : Seat) (t : Turn Chain) : Turn Chain :=
  let size := t.member.size
  let next := successor s.id size
  if next = size then t
  else if target = successor next size || t.member.directory.idOf? source = some next then
    seeTokenTaken t
  else t

def answerToken (kx : KeyExchange) (target : Nat) (source : Endpoint) (t : Turn Chain) :
    Turn Chain :=
  if t.member.finished then t
  else match t.member.seat with
    | none => t
    | some s =>
      let t := t.modify fun c ↦ c.hearAssigned source
      if target = s.id then holdToken kx source s t else overhearToken target source s t

/-- A member that was never let in gives up. -/
def answerFinish (source : Endpoint) (t : Turn Chain) : Turn Chain :=
  if t.member.finished || t.member.isClosing then t
  else match t.member.seat with
    | none => t.endRun
    | some _ => (t.unicast source .finishAck).endRun

def answerFinishAck (source : Endpoint) (t : Turn Chain) : Turn Chain :=
  match t.member.farewells with
  | none => t
  | some acks =>
    if t.member.finished then t
    else
      let acks := acks.insert source
      let t := t.modify fun c ↦ { c with farewells := some acks }
      if t.member.size ≤ acks.length + 1 then
        ((t.cancel .finishTimeout).cancel .finish).endRun
      else t

end GroupKey.Chain
