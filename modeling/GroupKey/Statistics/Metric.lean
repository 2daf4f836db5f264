/-!
# Metrics

The quantities a member reports: fourteen counters and three points in time.  Their declaration
order is the column order of every table written from them.
-/

namespace GroupKey

inductive CountMetric
  | memberCount
  | find
  | offer
  | request
  | response
  | memberInfoRequest
  | memberInfoResponse
  | memberInfoSynchRequest
  | memberInfoSynchResponse
  | synchToken
  | finish
  | finishAck
  | distributedResponse
  | cryptoOperations
  deriving DecidableEq, Repr

inductive TimeMetric
  | durationStart
  | keyAgreementStart
  | durationEnd
  deriving DecidableEq, Repr

namespace CountMetric

def all : List CountMetric :=
  [memberCount, find, offer, request, response, memberInfoRequest, memberInfoResponse,
    memberInfoSynchRequest, memberInfoSynchResponse, synchToken, finish, finishAck,
    distributedResponse, cryptoOperations]

def name : CountMetric → String
  | memberCount => "MEMBER_COUNT"
  | find => "FIND_MESSAGE_COUNT"
  | offer => "OFFER_MESSAGE_COUNT"
  | request => "REQUEST_MESSAGE_COUNT"
  | response => "RESPONSE_MESSAGE_COUNT"
  | memberInfoRequest => "MEMBER_INFO_REQUEST_MESSAGE_COUNT"
  | memberInfoResponse => "MEMBER_INFO_RESPONSE_MESSAGE_COUNT"
  | memberInfoSynchRequest => "MEMBER_INFO_SYNCH_REQUEST_MESSAGE_COUNT"
  | memberInfoSynchResponse => "MEMBER_INFO_SYNCH_RESPONSE_MESSAGE_COUNT"
  | synchToken => "SYNCH_TOKEN_MESSAGE_COUNT"
  | finish => "FINISH_MESSAGE_COUNT"
  | finishAck => "FINISH_ACK_MESSAGE_COUNT"
  | distributedResponse => "DISTRIBUTED_RESPONSE_MESSAGE_COUNT"
  | cryptoOperations => "CRYPTO_OPERATIONS_COUNT"

/-- The name in mixed case, as it stands in descriptions of a recorder. -/
def label : CountMetric → String
  | memberCount => "MemberCount"
  | find => "FindMessageCount"
  | offer => "OfferMessageCount"
  | request => "RequestMessageCount"
  | response => "ResponseMessageCount"
  | memberInfoRequest => "MemberInfoRequestMessageCount"
  | memberInfoResponse => "MemberInfoResponseMessageCount"
  | memberInfoSynchRequest => "MemberInfoSynchRequestMessageCount"
  | memberInfoSynchResponse => "MemberInfoSynchResponseMessageCount"
  | synchToken => "SynchTokenMessageCount"
  | finish => "FinishMessageCount"
  | finishAck => "FinishAckMessageCount"
  | distributedResponse => "DistributedResponseMessageCount"
  | cryptoOperations => "CryptoOperationsCount"

end CountMetric

namespace TimeMetric

def all : List TimeMetric := [durationStart, keyAgreementStart, durationEnd]

def name : TimeMetric → String
  | durationStart => "DURATION_START"
  | keyAgreementStart => "KEY_AGREEMENT_START"
  | durationEnd => "DURATION_END"

/-- The name in mixed case, as it stands in descriptions of a recorder. -/
def label : TimeMetric → String
  | durationStart => "DurationStart"
  | keyAgreementStart => "KeyAgreementStart"
  | durationEnd => "DurationEnd"

/-- A start marker is merged to the earliest value, an end marker to the latest. -/
def isStart (m : TimeMetric) : Bool := m ≠ durationEnd

end TimeMetric

/-- The metrics of one kind, each listed once and with a name of its own. -/
class Metric (μ : Type) [DecidableEq μ] where
  all : List μ
  name : μ → String
  label : μ → String
  mem_all : ∀ m, m ∈ all
  nodup_names : (all.map name).Nodup

instance : Metric CountMetric where
  all := CountMetric.all
  name := CountMetric.name
  label := CountMetric.label
  mem_all m := by cases m <;> decide
  nodup_names := by decide

instance : Metric TimeMetric where
  all := TimeMetric.all
  name := TimeMetric.name
  label := TimeMetric.label
  mem_all m := by cases m <;> decide
  nodup_names := by decide

namespace Metric

variable {μ : Type} [DecidableEq μ] [Metric μ]

theorem nodup_all : (all : List μ).Nodup :=
  (List.pairwise_map.mp (nodup_names (μ := μ))).imp fun apart same ↦ apart (congrArg name same)

/-- How many metrics there are. -/
def count (μ : Type) [DecidableEq μ] [Metric μ] : Nat := (all : List μ).length

/-- The place of a metric in the list. -/
def index (m : μ) : Fin (count μ) := ⟨all.idxOf m, List.idxOf_lt_length_of_mem (mem_all m)⟩

def atIndex (i : Fin (count μ)) : μ := (all : List μ).get i

@[simp] theorem atIndex_index (m : μ) : atIndex (index m) = m := List.getElem_idxOf _

@[simp] theorem index_atIndex (i : Fin (count μ)) : index (atIndex i) = i :=
  Fin.ext (nodup_all.idxOf_getElem i.val i.isLt)

theorem index_injective {m k : μ} (same : index m = index k) : m = k := by
  rw [← atIndex_index m, same, atIndex_index]

def ofName? (text : String) : Option μ := all.find? fun m ↦ name m = text

end Metric

/-- What a member reports while it acts. -/
inductive Measurement
  | count (metric : CountMetric)
  | mark (metric : TimeMetric)
  deriving DecidableEq, Repr

end GroupKey
