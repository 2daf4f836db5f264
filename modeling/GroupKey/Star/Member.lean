import GroupKey.Star.Basic

/-!
# The star member as a whole

Start, deadlines and messages of both roles.  Serving a requester is the only step that draws from
the random stream besides the delays, and a requester whose public value the key exchange rejects
leaves no trace.
-/

namespace GroupKey.Star

/-- A member before its start. -/
def create (config : MemberConfig) (endpoint : Endpoint) (keys : KeyPair) (random : Random) :
    Except ConfigError (Turn Star) := do
  config.validate
  let m : Star := { config, endpoint, keys, agenda := ⟨[], random⟩ }
  return ({ member := m } : Turn Star).count .cryptoOperations

def announceKey (secret : Secret) (t : Turn Star) : Turn Star :=
  t.emit (.groupKeyEstablished t.member.memberId? secret.fingerprint)

def drawGroupSecret (m : Star) : Secret × Star :=
  let (bytes, random) := m.agenda.random.nextBytes Curve25519.keyLength
  (⟨bytes⟩, { m with agenda.random := random, groupSecret? := some ⟨bytes⟩ })

def openGroup (t : Turn Star) : Turn Star :=
  let t := t.mark .keyAgreementStart
  let (secret, member) := t.member.drawGroupSecret
  let t := (t.emit (.assigned 1)).emit (.becameSponsor 1)
  let t := announceKey secret { t with member }
  if t.member.peers = 0 then t.endRun
  else t.keepSending .offer none t.member.offerMessage

def begin (t : Turn Star) : Turn Star :=
  let t := (t.count .memberCount).mark .durationStart
  if t.member.config.sponsor then openGroup t
  else t.keepSending .find none t.member.findMessage

/-! ## The sponsor -/

def announceEnd (t : Turn Star) : Turn Star :=
  (((t.modify fun m ↦ { m with closing := true }).cancel .offer).keepSending .finish none
    .finish).scheduleAfter .finishTimeout t.member.config.finishTimeout

/-- The group secret sealed for one requester, under a nonce that is drawn for it. -/
def sealFor (group shared : Secret) (m : Star) : SealedResponse × Star :=
  let (nonce, random) := m.agenda.random.nextBytes nonceLength
  let answer : SealedResponse :=
    { service := m.config.service
      sponsorPublic := m.keys.publicValue
      sealedSecret := group.sealFor shared nonce
      nonce }
  (answer, { m with agenda.random := random })

def giveSecret (group shared : Secret) (source : Endpoint) (t : Turn Star) : Turn Star :=
  let (answer, member) := t.member.sealFor group shared
  let member := { member with served := member.served ++ [⟨source, answer⟩] }
  let t := { t.count .cryptoOperations with member }
  (t.emit (.admitted (member.served.length + 1) source)).unicast source (.distributed answer)

def answerFind (service : ServiceId) (t : Turn Star) : Turn Star :=
  if t.member.isFor service && t.member.wants .offer then t.multicast t.member.offerMessage
  else t

def answerRequest (kx : KeyExchange) (service : ServiceId) (value : PublicValue) (source : Endpoint)
    (t : Turn Star) : Turn Star :=
  let m := t.member
  if !m.config.sponsor || !m.isFor service || m.finished then t
  else match m.answerFor? source with
    | some answer => t.unicast source (.distributed answer)
    | none =>
      if m.peers ≤ m.served.length then t
      else match m.groupSecret?, kx.agree m.keys.secret value with
        | some group, .ok shared => giveSecret group shared source t
        | _, _ => t

def answerFinishAck (source : Endpoint) (t : Turn Star) : Turn Star :=
  let m := t.member
  if !m.config.sponsor || m.closing || m.finished then t
  else if !(m.served.any fun s ↦ s.endpoint = source) then t
  else
    let t := t.modify fun m ↦ { m with acknowledged := m.acknowledged.insert source }
    if t.member.peers ≤ t.member.acknowledged.length then announceEnd t else t

/-! ## The members -/

def answerOffer (service : ServiceId) (t : Turn Star) : Turn Star :=
  if !t.member.isFor service || !t.member.wants .request then t
  else
    let t :=
      if t.member.sponsorFound then t
      else (t.modify fun m ↦ { m with sponsorFound := true }).mark .keyAgreementStart
    t.schedule .request

/-- The group secret in a sponsor's answer. -/
def openAnswer (kx : KeyExchange) (keys : KeyPair) (answer : SealedResponse) :
    Except CryptoError Secret := do
  let shared ← kx.agree keys.secret answer.sponsorPublic
  shared.openWith answer.sealedSecret answer.nonce

def keepSecret (secret : Secret) (source : Endpoint) (t : Turn Star) : Turn Star :=
  let t := t.modify fun m ↦ { m with source? := some source, groupSecret? := some secret }
  let t := announceKey secret ((t.cancel .request).cancel .find)
  t.keepSending .finishAck (some source) .finishAck

def takeSecret (kx : KeyExchange) (answer : SealedResponse) (source : Endpoint)
    (t : Turn Star) : Turn Star :=
  let m := t.member
  if !m.isFor answer.service || m.config.sponsor || m.finished then t
  else if m.groupSecret?.isSome then t
  else
    let t := t.count .cryptoOperations
    match openAnswer kx m.keys answer with
    | .ok secret => keepSecret secret source t
    | .error e =>
      t.emit (.failed
        ("cannot open group secret from " ++ source.toText ++ ": " ++ (Fault.ofCrypto e).message))

def answerFinish (t : Turn Star) : Turn Star :=
  if t.member.config.sponsor || t.member.finished then t
  else (t.cancel .finishAck).endRun

def runTask (task : Task) (t : Turn Star) : Turn Star :=
  match task with
  | .offer => t.keepSending .offer none t.member.offerMessage
  | .find => t.keepSending .find none t.member.findMessage
  | .request => t.multicast t.member.requestMessage
  | .finishAck => t.keepSending .finishAck t.member.source? .finishAck
  | .finish => t.keepSending .finish none .finish
  | .finishTimeout => t.endRun
  | _ => t

def expire (task : Task) (t : Turn Star) : Turn Star :=
  let t := t.disarm task
  if t.member.wants task then runTask task t else t

def answer (kx : KeyExchange) (m : Message) (source : Endpoint) (t : Turn Star) : Turn Star :=
  match m with
  | .find service => answerFind service t
  | .offer service => answerOffer service t
  | .request service value => answerRequest kx service value source t
  | .distributed answer => takeSecret kx answer source t
  | .finish => answerFinish t
  | .finishAck => answerFinishAck source t
  | _ => t

end GroupKey.Star
