import GroupKey.Chain.Member
import GroupKey.Message.Codec
import GroupKey.Star.Member

/-!
# Protocols

A protocol is a state together with its reactions.  Every reaction has a silent default, so a
protocol states only those messages that it takes part in.  Datagrams reach it through `receive`,
which drops a member's own echoes and whatever is no message.
-/

namespace GroupKey

structure Protocol (σ : Type) where
  endpoint : σ → Endpoint
  status : σ → Status
  begin : Turn σ → Turn σ := id
  expire : Task → Turn σ → Turn σ := fun _ t ↦ t
  answer : Message → Endpoint → Turn σ → Turn σ := fun _ _ t ↦ t

/-- What can happen to a member. -/
inductive Input
  | start
  | timer (task : Task)
  | message (m : Message) (source : Endpoint)
  | datagram (bytes : Bytes) (source : Endpoint)
  deriving DecidableEq, Repr

namespace Protocol

/-- How a member comes about from its configuration. -/
abbrev Creation (σ : Type) :=
  MemberConfig → Endpoint → KeyPair → Random → Except ConfigError (Turn σ)

variable {σ : Type}

def receive (p : Protocol σ) (bytes : Bytes) (source : Endpoint) (t : Turn σ) : Turn σ :=
  if source = p.endpoint t.member then t
  else match Message.decode bytes with
    | .ok m => p.answer m source t
    | .error _ => t

/-- The reaction to one input, from a state in which nothing has been done yet. -/
def step (p : Protocol σ) (input : Input) (member : σ) : Turn σ :=
  let t : Turn σ := { member }
  match input with
  | .start => p.begin t
  | .timer task => p.expire task t
  | .message m source => p.answer m source t
  | .datagram bytes source => p.receive bytes source t

variable {p : Protocol σ} {bytes : Bytes} {source : Endpoint} {t : Turn σ}

/-- A member does not listen to itself. -/
theorem receive_own (own : source = p.endpoint t.member) : p.receive bytes source t = t :=
  if_pos own

theorem receive_of_ok (foreign : source ≠ p.endpoint t.member) {m : Message}
    (decoded : Message.decode bytes = .ok m) : p.receive bytes source t = p.answer m source t := by
  rw [receive, if_neg foreign, decoded]

theorem receive_of_error (foreign : source ≠ p.endpoint t.member) {e : DecodeError}
    (decoded : Message.decode bytes = .error e) : p.receive bytes source t = t := by
  rw [receive, if_neg foreign, decoded]

end Protocol

/-! ## The protocols of this library -/

def Chain.protocol (kx : KeyExchange) : Protocol Chain where
  endpoint := Chain.endpoint
  status := Chain.status
  begin := Chain.begin
  expire := Chain.expire kx
  answer := Chain.answer kx

def Star.protocol (kx : KeyExchange) : Protocol Star where
  endpoint := Star.endpoint
  status := Star.status
  begin := Star.begin
  expire := Star.expire
  answer := Star.answer kx

/-- A beacon answers whoever looks for a sponsor, for every service, and does nothing else. -/
structure Beacon where
  endpoint : Endpoint
  deriving DecidableEq, Repr

def Beacon.protocol : Protocol Beacon where
  endpoint := Beacon.endpoint
  status _ := ⟨none, false, 0, false, none⟩
  answer m _ t := match m with
    | .find service => t.act (.multicast (.offer service))
    | _ => t

end GroupKey
