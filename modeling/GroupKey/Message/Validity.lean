import GroupKey.Message.Basic

/-!
# Which messages are acceptable

Each kind of message has a fixed sequence of checks on its fields.  A message is valid if all of
them hold; otherwise the first that does not hold names the field and the reason.
-/

namespace GroupKey

/-- One condition on one field. -/
structure FieldCheck where
  field : String
  reason : String
  holds : Bool
  deriving DecidableEq, Repr

namespace FieldCheck

def service (field : String) (id : ServiceId) : FieldCheck :=
  ⟨field, "service id must be positive", id ≠ 0⟩

def memberId (field : String) (id : MemberId) : FieldCheck :=
  ⟨field, "member id must be positive", id ≠ 0⟩

def publicValue (field : String) (value : PublicValue) : FieldCheck :=
  ⟨field, "public value must not be empty", !value.bytes.isEmpty⟩

def filled (field : String) (empty : Bool) : FieldCheck := ⟨field, "must not be empty", !empty⟩

end FieldCheck

namespace Response

/-- The first member is never admitted by anyone, so the newcomer's id is at least two. -/
def checks (r : Response) : List FieldCheck :=
  [.service "offered_service" r.service,
    .publicValue "new_group_public_value" r.groupPublic,
    .publicValue "blinded_predecessor_public_value" r.predecessorPublic,
    .publicValue "new_sponsor.public_value" r.newSponsor.publicValue,
    ⟨"new_sponsor.port", "must be non-zero", r.newSponsor.endpoint.port ≠ 0⟩,
    ⟨"new_sponsor.assigned_id", "must be at least 2", 2 ≤ r.newSponsor.id⟩,
    ⟨"member_count", "must not be smaller than the assigned id", r.newSponsor.id ≤ r.memberCount⟩]

end Response

namespace Message

def checks : Message → List FieldCheck
  | find id => [.service "required_service" id]
  | offer id => [.service "offered_service" id]
  | request id value =>
    [.service "required_service" id, .publicValue "requester_public_value" value]
  | response body => body.checks
  | infoRequest _ id ids =>
    .service "required_service" id :: .filled "requested_member_ids" ids.isEmpty ::
      ids.map (FieldCheck.memberId "requested_member_ids")
  | infoResponse _ id member value =>
    [.service "offered_service" id, .memberId "member_id" member, .publicValue "public_value" value]
  | token target => [.memberId "target_member_id" target]
  | finish => []
  | finishAck => []
  | distributed body =>
    [.service "offered_service" body.service,
      .publicValue "sponsor_public_value" body.sponsorPublic,
      .filled "encrypted_group_secret" body.sealedSecret.isEmpty,
      .filled "iv" body.nonce.isEmpty]

def firstFault? (m : Message) : Option FieldCheck := m.checks.find? fun c ↦ !c.holds

def Valid (m : Message) : Prop := ∀ c ∈ m.checks, c.holds = true

instance (m : Message) : Decidable m.Valid := by unfold Valid; infer_instance

theorem firstFault?_eq_none_iff (m : Message) : m.firstFault? = none ↔ m.Valid := by
  simp [firstFault?, Valid]

end Message

end GroupKey
