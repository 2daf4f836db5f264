import GroupKey.Chain.Admission

/-!
# Joining

A member that has seen an offer asks to be let in.  The hand-over that names it carries the public
value the group had before; from it the member computes its first key and takes over as sponsor.
-/

namespace GroupKey.Chain

def answerOffer (service : ServiceId) (source : Endpoint) (t : Turn Chain) : Turn Chain :=
  if !t.member.isFor service || t.member.seat.isSome || t.member.finished then
    t.modify fun c ↦ c.hearAssigned source
  else
    let t :=
      if t.member.sponsorFound then t
      else (t.modify fun c ↦ { c with sponsorFound := true }).mark .keyAgreementStart
    t.schedule .request

/-! ## Taking a seat -/

/-- The seat of a member that was just let in: its own contribution on top of the group's. -/
def firstSeat (kx : KeyExchange) (keys : KeyPair) (groupPublic : PublicValue) (id : Nat) :
    Except CryptoError Seat := do
  let root ← kx.agree keys.secret groupPublic
  let rootPublic ← kx.publicOf root
  return ⟨id, 1, .leaf root (some rootPublic) (some keys.secret) keys.publicValue, true⟩

/-- What a new sponsor does first: let in whoever is waiting, or offer.  The last member has nobody
left to let in and opens the token round. -/
def openOffice (kx : KeyExchange) (s : Seat) (t : Turn Chain) : Turn Chain :=
  if s.id < t.member.size then
    if t.member.pending.isEmpty then t.keepSending .offer none t.member.offerMessage
    else attendQueue kx t
  else
    let t := t.modify fun c ↦ { c with seat := some { s with sponsor := false } }
    passToken (announceKey t)

def takeSeat (kx : KeyExchange) (groupPublic : PublicValue) (id : Nat) (t : Turn Chain) :
    Turn Chain :=
  match firstSeat kx t.member.keys groupPublic id with
  | .error e =>
    t.emit (.failed
      ("taking over as member " ++ toString id ++ " failed: " ++ (Fault.ofCrypto e).message))
  | .ok s =>
    let t := ((t.count .cryptoOperations).count .cryptoOperations).modify fun c ↦
      { c with
        seat := some s
        directory := (c.directory.record c.endpoint id c.keys.publicValue).2 }
    let t := ((t.mark .keyAgreementStart).cancel .request).cancel .find
    let t := reportKey ((t.emit (.assigned id)).emit (.becameSponsor id))
    openOffice kx s t

/-! ## The hand-over -/

/-- What a hand-over tells about others: its sender, the newcomer, and that the chain went on. -/
def learnFrom (r : Response) (source : Endpoint) (c : Chain) : Chain :=
  let id := r.newSponsor.id.toNat
  let c := c.hearAssigned source
  let c := if c.seat.any fun s ↦ s.id + 1 < id then c.confirm else c
  (c.learn source (id - 1) r.predecessorPublic).learn r.newSponsor.endpoint id
    r.newSponsor.publicValue

def answerResponse (kx : KeyExchange) (r : Response) (source : Endpoint) (t : Turn Chain) :
    Turn Chain :=
  if !t.member.isFor r.service || t.member.finished then t
  else if r.memberCount ≠ t.member.config.memberCount then t
  else
    let t := t.modify (learnFrom r source)
    if r.newSponsor.endpoint = t.member.endpoint then
      if t.member.seat.isSome || r.newSponsor.publicValue ≠ t.member.keys.publicValue then t
      else takeSeat kx r.groupPublic r.newSponsor.id.toNat t
    else makeProgress kx t

end GroupKey.Chain
