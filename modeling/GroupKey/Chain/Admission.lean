import GroupKey.Chain.TokenRound

/-!
# Admission

The sponsor answers discovery and lets in the oldest candidate once it knows every member before
itself.  Candidates whose public value the key exchange rejects are passed over without a trace.
-/

namespace GroupKey.Chain

/-! ## Letting a candidate in -/

/-- The sponsor's seat after a candidate was let in, and the public value the group had before. -/
def seatAfter (kx : KeyExchange) (s : Seat) (candidate : Candidate) :
    Except CryptoError (Seat × PublicValue) := do
  let before ← s.tree.rootPublic kx
  let tree ← s.tree.extend kx candidate.publicValue false
  return ({ s with tree, keysComputed := s.keysComputed + 1, sponsor := false }, before)

def responseFor (c : Chain) (id : Nat) (candidate : Candidate) (before : PublicValue) : Response :=
  { service := c.config.service
    groupPublic := before
    predecessorPublic := c.keys.publicValue
    newSponsor := ⟨candidate.endpoint, UInt16.ofNat id, candidate.publicValue⟩
    memberCount := c.config.memberCount }

/-- Makes a candidate the next member and the new sponsor.  The old seat tells whether the public
value of the root had to be computed. -/
def enrol (old new : Seat) (before : PublicValue) (candidate : Candidate) (t : Turn Chain) :
    Turn Chain :=
  let id := old.id + 1
  let t := if old.tree.head.rootPublic.isNone then t.count .cryptoOperations else t
  let response := responseFor t.member id candidate before
  let t := (t.count .cryptoOperations).modify fun c ↦
    { c with
      seat := some new
      directory := (c.directory.record candidate.endpoint id candidate.publicValue).2
      handOver := some { response } }
  let t := (t.cancel .offer).cancel .infoRequest
  let t := reportKey (t.emit (.admitted id candidate.endpoint))
  announceKey (t.keepSending .response none (.response response))

/-- Lets in the first candidate that can be let in.  If there is none, the queue is empty and the
sponsor keeps offering. -/
def enrolFirst (kx : KeyExchange) (s : Seat) : List Candidate → Turn Chain → Turn Chain
  | [], t =>
    (t.modify fun c ↦ { c with pending := [] }).keepSending .offer none t.member.offerMessage
  | candidate :: rest, t =>
    if t.member.directory.containsEndpoint candidate.endpoint then enrolFirst kx s rest t
    else match seatAfter kx s candidate with
      | .error _ => enrolFirst kx s rest t
      | .ok (new, before) =>
        enrol s new before candidate (t.modify fun c ↦ { c with pending := rest })

/-- Lets in the oldest candidate once every predecessor is known; otherwise keeps asking for
predecessors or keeps offering. -/
def attendQueue (kx : KeyExchange) (t : Turn Chain) : Turn Chain :=
  match t.member.seat with
  | none => t
  | some s =>
    if !t.member.isOpen then t
    else
      let gaps := t.member.gapsBelow
      if gaps.isEmpty then
        let t := t.cancel .infoRequest
        enrolFirst kx s t.member.pending t
      else t.keepSending .infoRequest none (t.member.questionMessage .joining gaps)

/-- What new knowledge leads to: a sponsor looks after its queue, another member after its keys and
the token. -/
def makeProgress (kx : KeyExchange) (t : Turn Chain) : Turn Chain :=
  match t.member.seat with
  | none => t
  | some s => if s.sponsor then attendQueue kx t else tendToken (cascade kx t)

def answerFind (service : ServiceId) (t : Turn Chain) : Turn Chain :=
  if t.member.isFor service && t.member.isOpen then t.multicast t.member.offerMessage else t

/-- Puts a candidate into the queue, unless it waits there already. -/
def enqueue (c : Chain) (candidate : Candidate) : Chain :=
  if c.pending.any fun p ↦ p.endpoint = candidate.endpoint then c
  else { c with pending := c.pending ++ [candidate] }

def answerRequest (kx : KeyExchange) (service : ServiceId) (value : PublicValue)
    (source : Endpoint) (t : Turn Chain) : Turn Chain :=
  if !t.member.isFor service || t.member.finished then t
  else if t.member.directory.containsEndpoint source then t
  else
    let t := t.modify fun c ↦ c.enqueue ⟨source, value⟩
    if t.member.isSponsor then attendQueue kx t else t

/-! ## Questions and answers about values -/

def answerTask : Phase → Task
  | .joining => .infoResponse
  | .synch => .synchResponse

/-- A question in the token round that comes from the successor shows that it holds the token. -/
def answerQuestion (phase : Phase) (service : ServiceId) (ids : List MemberId) (source : Endpoint)
    (t : Turn Chain) : Turn Chain :=
  if !t.member.isFor service || t.member.finished then t
  else match t.member.seat with
    | none => t
    | some s =>
      let t := t.modify fun c ↦ c.hearAssigned source
      let t :=
        if phase = .synch && t.member.directory.idOf? source = t.member.successorId? then
          seeTokenTaken t
        else t
      if ids.any fun id ↦ id.toNat = s.id then t.schedule (answerTask phase) else t

def takeAnswer (kx : KeyExchange) (service : ServiceId) (id : MemberId) (value : PublicValue)
    (source : Endpoint) (t : Turn Chain) : Turn Chain :=
  if !t.member.isFor service || t.member.finished then t
  else makeProgress kx (t.modify fun c ↦ (c.hearAssigned source).learn source id.toNat value)

end GroupKey.Chain
