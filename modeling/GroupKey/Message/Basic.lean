import GroupKey.Endpoint
import GroupKey.KeyExchange
import GroupKey.Statistics.Metric

/-!
# Protocol messages

What members say to each other.  Questions and answers about the values of other members exist in
two phases: a sponsor asks for its predecessors while members join, a token holder for its
successors while the group synchronises.
-/

namespace GroupKey

/-- Names the group that is negotiated; positive in every accepted message. -/
abbrev ServiceId := UInt32

/-- A position in the chain of admissions, counted from one. -/
abbrev MemberId := UInt16

inductive Phase
  | joining
  | synch
  deriving DecidableEq, Repr

/-- The member that was just let in and takes over as sponsor. -/
structure NewSponsor where
  endpoint : Endpoint
  id : MemberId
  publicValue : PublicValue
  deriving DecidableEq, Repr

/-- How a sponsor hands its role over: the public value of the group before the newcomer, the
sponsor's own contribution, and who takes over in a group of what size. -/
structure Response where
  service : ServiceId
  groupPublic : PublicValue
  predecessorPublic : PublicValue
  newSponsor : NewSponsor
  memberCount : UInt16
  deriving DecidableEq, Repr

/-- A group secret sealed for one requester. -/
structure SealedResponse where
  service : ServiceId
  sponsorPublic : PublicValue
  sealedSecret : Bytes
  nonce : Bytes
  deriving DecidableEq, Repr

inductive Message
  | find (service : ServiceId)
  | offer (service : ServiceId)
  | request (service : ServiceId) (publicValue : PublicValue)
  | response (body : Response)
  | infoRequest (phase : Phase) (service : ServiceId) (ids : List MemberId)
  | infoResponse (phase : Phase) (service : ServiceId) (id : MemberId) (publicValue : PublicValue)
  | token (target : MemberId)
  | finish
  | finishAck
  | distributed (body : SealedResponse)
  deriving DecidableEq, Repr

namespace Message

/-! ## Kinds -/

inductive Kind
  | find
  | offer
  | request
  | response
  | infoRequest (phase : Phase)
  | infoResponse (phase : Phase)
  | token
  | finish
  | finishAck
  | distributed
  deriving DecidableEq, Repr

namespace Kind

def all : List Kind :=
  [find, offer, request, response, infoRequest .joining, infoResponse .joining,
    infoRequest .synch, infoResponse .synch, token, finish, finishAck, distributed]

/-- The first byte of a datagram.  Zero is never sent. -/
def code : Kind → UInt8
  | find => 1
  | offer => 2
  | request => 3
  | response => 4
  | infoRequest .joining => 5
  | infoResponse .joining => 6
  | infoRequest .synch => 7
  | infoResponse .synch => 8
  | token => 9
  | finish => 10
  | finishAck => 11
  | distributed => 12

def ofCode? (code : UInt8) : Option Kind := all.find? fun k ↦ k.code = code

theorem ofCode?_code (k : Kind) : ofCode? k.code = some k := by
  cases k <;> first | rfl | (rename_i phase; cases phase <;> rfl)

def name : Kind → String
  | find => "FIND"
  | offer => "OFFER"
  | request => "REQUEST"
  | response => "RESPONSE"
  | infoRequest .joining => "MEMBER_INFO_REQUEST"
  | infoResponse .joining => "MEMBER_INFO_RESPONSE"
  | infoRequest .synch => "MEMBER_INFO_SYNCH_REQUEST"
  | infoResponse .synch => "MEMBER_INFO_SYNCH_RESPONSE"
  | token => "SYNCH_TOKEN"
  | finish => "FINISH"
  | finishAck => "FINISH_ACK"
  | distributed => "DISTRIBUTED_RESPONSE"

/-- The counter of messages of this kind that were sent. -/
def metric : Kind → CountMetric
  | find => .find
  | offer => .offer
  | request => .request
  | response => .response
  | infoRequest .joining => .memberInfoRequest
  | infoResponse .joining => .memberInfoResponse
  | infoRequest .synch => .memberInfoSynchRequest
  | infoResponse .synch => .memberInfoSynchResponse
  | token => .synchToken
  | finish => .finish
  | finishAck => .finishAck
  | distributed => .distributedResponse

theorem metric_injective {k l : Kind} (same : k.metric = l.metric) : k = l := by
  rcases k with _ | _ | _ | _ | ⟨_ | _⟩ | ⟨_ | _⟩ | _ | _ | _ | _ <;>
    rcases l with _ | _ | _ | _ | ⟨_ | _⟩ | ⟨_ | _⟩ | _ | _ | _ | _ <;>
    first | rfl | simp [metric] at same

end Kind

def kind : Message → Kind
  | find _ => .find
  | offer _ => .offer
  | request _ _ => .request
  | response _ => .response
  | infoRequest phase _ _ => .infoRequest phase
  | infoResponse phase _ _ _ => .infoResponse phase
  | token _ => .token
  | finish => .finish
  | finishAck => .finishAck
  | distributed _ => .distributed

end Message

end GroupKey
