import GroupKey.Message.Validity
import GroupKey.MessagePack.Value
import GroupKey.MessagePack.Writer

/-!
# Datagrams

A datagram is the code of a message kind followed by the fields as a MessagePack record.  Writing
has one form; reading accepts every spelling of the record, ignores what follows it, and then
checks the fields.
-/

namespace GroupKey

/-- Why a datagram is no message. -/
inductive DecodeError
  | malformed (reason : String)
  | unknownType (code : UInt8)
  | invalidField (field reason : String)
  deriving DecidableEq, Repr

def DecodeError.message : DecodeError → String
  | malformed reason => "malformed message: " ++ reason
  | unknownType code => "unknown message type " ++ toString code.toNat
  | invalidField field reason => "invalid field " ++ field ++ ": " ++ reason

def DecodeError.emptyDatagram : DecodeError := .malformed "empty datagram"

def DecodeError.notARecord : DecodeError := .malformed "the body is not a record of this type"

namespace Message

open MessagePack

/-! ## Writing -/

def writeId (id : MemberId) : Bytes := writeNat id.toNat

def writeService (id : ServiceId) : Bytes := writeNat id.toNat

def writePublic (value : PublicValue) : Bytes := writeBin value.bytes

def writeNewSponsor (s : NewSponsor) : Bytes :=
  writeArray [writeBin s.endpoint.address.octets, writeNat s.endpoint.port.toNat, writeId s.id,
    writePublic s.publicValue]

def fields : Message → List Bytes
  | find service => [writeService service]
  | offer service => [writeService service]
  | request service value => [writeService service, writePublic value]
  | response r =>
    [writeService r.service, writePublic r.groupPublic, writePublic r.predecessorPublic,
      writeNewSponsor r.newSponsor, writeNat r.memberCount.toNat]
  | infoRequest _ service ids => [writeService service, writeArray (ids.map writeId)]
  | infoResponse _ service id value => [writeService service, writeId id, writePublic value]
  | token target => [writeId target]
  | finish => []
  | finishAck => []
  | distributed r =>
    [writeService r.service, writePublic r.sponsorPublic, writeBin r.sealedSecret,
      writeBin r.nonce]

/-- The two kinds that end a run are a code and nothing else. -/
def body : Message → Bytes
  | finish => []
  | finishAck => []
  | m => writeArray m.fields

def encode (m : Message) : Bytes := m.kind.code :: m.body

/-! ## Reading -/

def newSponsorNames : List String := ["ip", "port", "assigned_id", "public_value"]

def Kind.fieldNames : Kind → List String
  | find => ["required_service"]
  | offer => ["offered_service"]
  | request => ["required_service", "requester_public_value"]
  | response =>
    ["offered_service", "new_group_public_value", "blinded_predecessor_public_value",
      "new_sponsor", "member_count"]
  | infoRequest _ => ["required_service", "requested_member_ids"]
  | infoResponse _ => ["offered_service", "member_id", "public_value"]
  | token => ["target_member_id"]
  | finish => []
  | finishAck => []
  | distributed => ["offered_service", "sponsor_public_value", "encrypted_group_secret", "iv"]

def service? (v : Value) : Option ServiceId := (v.nat? UInt32.size).map UInt32.ofNat

def word? (v : Value) : Option UInt16 := (v.nat? UInt16.size).map UInt16.ofNat

def public? (v : Value) : Option PublicValue := v.bytes?.map PublicValue.mk

def newSponsor? (v : Value) : Option NewSponsor := do
  match ← v.record? newSponsorNames with
  | [address, port, id, value] =>
    let address ← Address.ofOctets? (← address.bytes?)
    return ⟨⟨address, ← word? port⟩, ← word? id, ← public? value⟩
  | _ => none

/-- The message a kind makes of its fields. -/
def ofFields? : Kind → List Value → Option Message
  | .find, [service] => return find (← service? service)
  | .offer, [service] => return offer (← service? service)
  | .request, [service, value] => return request (← service? service) (← public? value)
  | .response, [service, group, predecessor, sponsor, count] =>
    return response ⟨← service? service, ← public? group, ← public? predecessor,
      ← newSponsor? sponsor, ← word? count⟩
  | .infoRequest phase, [service, ids] =>
    return infoRequest phase (← service? service) ((← ids.nats? UInt16.size).map UInt16.ofNat)
  | .infoResponse phase, [service, id, value] =>
    return infoResponse phase (← service? service) (← word? id) (← public? value)
  | .token, [target] => return token (← word? target)
  | .finish, _ => some finish
  | .finishAck, _ => some finishAck
  | .distributed, [service, value, sealedSecret, nonce] =>
    return distributed ⟨← service? service, ← public? value, ← sealedSecret.bytes?,
      ← nonce.bytes?⟩
  | _, _ => none

def ofBody? (kind : Kind) (input : Bytes) : Option Message :=
  match kind with
  | .finish => some finish
  | .finishAck => some finishAck
  | _ => do
    let (value, _) ← read maxDepth input
    ofFields? kind (← value.record? kind.fieldNames)

def check (m : Message) : Except DecodeError Message :=
  match m.firstFault? with
  | none => .ok m
  | some fault => .error (.invalidField fault.field fault.reason)

def decode : Bytes → Except DecodeError Message
  | [] => .error .emptyDatagram
  | code :: input =>
    match Kind.ofCode? code with
    | none => .error (.unknownType code)
    | some kind =>
      match ofBody? kind input with
      | none => .error .notARecord
      | some m => m.check

end Message

end GroupKey
