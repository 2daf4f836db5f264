import GroupKey.Protocol

/-!
# Members of either variant

The configuration decides which agreement a member takes part in.  A member is made from a seed,
which gives its key pair and everything it draws later, or from a seed and the bytes of its secret.
-/

namespace GroupKey

inductive Member
  | chain (m : Chain)
  | star (m : Star)
  deriving DecidableEq, Repr

/-- Carries a turn over to another view of the same member. -/
def Turn.map {σ τ : Type} (f : σ → τ) (t : Turn σ) : Turn τ :=
  ⟨f t.member, t.effects, t.measurements⟩

namespace Member

def create (config : MemberConfig) (endpoint : Endpoint) (keys : KeyPair) (random : Random) :
    Except ConfigError (Turn Member) :=
  match config.variant with
  | .chained => (Chain.create config endpoint keys random).map (Turn.map chain)
  | .distributed => (Star.create config endpoint keys random).map (Turn.map star)

def ofSeed (config : MemberConfig) (endpoint : Endpoint) (seed : UInt64) :
    Except ConfigError (Turn Member) :=
  let (keys, random) := KeyPair.draw (Random.ofSeed seed)
  create config endpoint keys random

/-- The secret is given, so the stream starts with what is drawn after it. -/
def ofSecret (config : MemberConfig) (endpoint : Endpoint) (secret : Bytes) (seed : UInt64) :
    Except ConfigError (Turn Member) :=
  create config endpoint (KeyPair.ofBytes secret) (Random.ofSeed seed)

/-! ## Views -/

def endpoint : Member → Endpoint
  | chain m => m.endpoint
  | star m => m.endpoint

def keys : Member → KeyPair
  | chain m => m.keys
  | star m => m.keys

def status : Member → Status
  | chain m => m.status
  | star m => m.status

def groupSecret? : Member → Option Secret
  | chain m => m.groupSecret?
  | star m => m.groupSecret?

/-! ## Reactions -/

/-- Lifts a reaction of each variant to members of either. -/
def react (onChain : Turn Chain → Turn Chain) (onStar : Turn Star → Turn Star) (t : Turn Member) :
    Turn Member :=
  match t.member with
  | chain m => (onChain ⟨m, t.effects, t.measurements⟩).map chain
  | star m => (onStar ⟨m, t.effects, t.measurements⟩).map star

def protocol (kx : KeyExchange) : Protocol Member where
  endpoint := endpoint
  status := status
  begin := react Chain.begin Star.begin
  expire task := react (Chain.expire kx task) (Star.expire task)
  answer m source := react (Chain.answer kx m source) (Star.answer kx m source)

end Member

end GroupKey
