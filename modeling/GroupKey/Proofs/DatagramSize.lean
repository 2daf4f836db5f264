import GroupKey.Channel
import GroupKey.Proofs.Wording
import Mathlib.Data.List.Flatten

/-!
# Messages and datagrams

All messages are short but one.  A question lists every member it asks for, so its length grows
with the number of gaps, and in a large group it does not fit into a datagram.  It fits as long as
it asks for a few hundred members.
-/

namespace GroupKey

namespace MessagePack

theorem length_writeNat_le {n : Nat} (small : n < UInt16.size) : (writeNat n).length ≤ 3 := by
  unfold writeNat
  split
  · simp
  · split
    · simp
    · simp

theorem length_writeNat_le_of_lt {n : Nat} (small : n < UInt32.size) :
    (writeNat n).length ≤ 5 := by
  unfold writeNat
  split
  · simp
  · split
    · simp
    · split
      · simp
      · simp

theorem length_writeBin {bytes : Bytes} (short : bytes.length < UInt8.size) :
    (writeBin bytes).length = bytes.length + 2 := by
  unfold writeBin binHeader
  rw [if_pos short]
  simp
  omega

theorem length_arrayHeader_le {n : Nat} (small : n < UInt16.size) : (arrayHeader n).length ≤ 3 := by
  unfold arrayHeader
  split
  · simp
  · simp

end MessagePack

namespace Message

open MessagePack

/-! ## Lengths of messages -/

theorem length_writeId_le (id : MemberId) : (writeId id).length ≤ 3 :=
  length_writeNat_le id.toNat_lt

theorem length_writeService_le (id : ServiceId) : (writeService id).length ≤ 5 :=
  length_writeNat_le_of_lt id.toNat_lt

theorem length_writePublic {value : PublicValue} (onCurve : value.OnCurve) :
    (writePublic value).length = 34 := by
  have length : value.bytes.length = 32 := onCurve
  rw [writePublic, length_writeBin, length]
  rw [length]
  decide

/-- A record of few fields is as long as its fields, and one byte. -/
theorem length_writeArray_of_few {items : List Bytes} (few : items.length < 16) :
    (writeArray items).length = 1 + items.flatten.length := by
  unfold writeArray arrayHeader
  rw [if_pos few, List.length_append]
  rfl

theorem length_writeNewSponsor_le {s : NewSponsor} (onCurve : s.publicValue.OnCurve) :
    (writeNewSponsor s).length ≤ 47 := by
  have address : (writeBin s.endpoint.address.octets).length = 6 := rfl
  have port := length_writeNat_le s.endpoint.port.toNat_lt
  have id := length_writeId_le s.id
  have value := length_writePublic onCurve
  rw [writeNewSponsor, length_writeArray_of_few (by simp)]
  simp only [List.flatten_cons, List.flatten_nil, List.length_append, List.length_nil]
  omega

variable {config : MemberConfig} {inside : Endpoint → Prop} {m : Message}

/-- Messages that are no questions are short. -/
theorem length_encode_le_of_proper (proper : m.Proper config PublicValue.OnCurve inside)
    (plain : ∀ phase service ids, m ≠ .infoRequest phase service ids) : m.encode.length ≤ 125 := by
  have record (few : m.fields.length < 16) (body : m.body = writeArray m.fields) :
      m.encode.length = 2 + m.fields.flatten.length := by
    rw [encode, List.length_cons, body, length_writeArray_of_few few]
    omega
  cases m with
  | find s | offer s =>
    rw [record (by simp [fields]) rfl]
    have service := length_writeService_le s
    simp only [fields, List.flatten_cons, List.flatten_nil, List.length_append, List.length_nil]
    omega
  | request s v =>
    rw [record (by simp [fields]) rfl]
    have service := length_writeService_le s
    have value := length_writePublic proper.2
    simp only [fields, List.flatten_cons, List.flatten_nil, List.length_append, List.length_nil]
    omega
  | response r =>
    rw [record (by simp [fields]) rfl]
    have service := length_writeService_le r.service
    have before := length_writePublic proper.groupPublic
    have own := length_writePublic proper.predecessorPublic
    have sponsor := length_writeNewSponsor_le proper.newcomer
    have count := length_writeNat_le r.memberCount.toNat_lt
    simp only [fields, List.flatten_cons, List.flatten_nil, List.length_append, List.length_nil]
    omega
  | infoRequest phase s ids => exact absurd rfl (plain phase s ids)
  | infoResponse phase s id v =>
    rw [record (by simp [fields]) rfl]
    have service := length_writeService_le s
    have named := length_writeId_le id
    have value := length_writePublic proper.2.2
    simp only [fields, List.flatten_cons, List.flatten_nil, List.length_append, List.length_nil]
    omega
  | token target =>
    rw [record (by simp [fields]) rfl]
    have named := length_writeId_le target
    simp only [fields, List.flatten_cons, List.flatten_nil, List.length_append, List.length_nil]
    omega
  | finish | finishAck => decide
  | distributed r =>
    rw [record (by simp [fields]) rfl]
    have service := length_writeService_le r.service
    have sponsor := length_writePublic proper.sponsorPublic
    have hidden : (writeBin r.sealedSecret).length = 50 := by
      rw [length_writeBin] <;> rw [proper.sealedSecret] <;> decide
    have nonce : (writeBin r.nonce).length = 26 := by
      rw [length_writeBin] <;> rw [proper.nonce] <;> decide
    simp only [fields, List.flatten_cons, List.flatten_nil, List.length_append, List.length_nil]
    omega

theorem length_question_le (phase : Phase) (service : ServiceId) {ids : List MemberId}
    (few : ids.length < UInt16.size) :
    (infoRequest phase service ids).encode.length ≤ 10 + (ids.map writeId).flatten.length := by
  have named := length_writeService_le service
  have header := length_arrayHeader_le few
  rw [encode, List.length_cons, body, length_writeArray_of_few (by simp [fields])]
  · simp only [fields, List.flatten_cons, List.flatten_nil, List.length_append, List.length_nil,
      writeArray, List.length_map]
    omega
  all_goals simp

/-- Every id takes three bytes at most. -/
theorem length_writeIds_le (ids : List MemberId) :
    (ids.map writeId).flatten.length ≤ 3 * ids.length := by
  induction ids with
  | nil => simp
  | cons id ids ih =>
    have first := length_writeId_le id
    simp only [List.map_cons, List.flatten_cons, List.length_append, List.length_cons]
    omega

/-- In a group of some hundred members, all positions together take some hundred bytes. -/
theorem length_writeIds_le_of_sublist {gaps : List Nat} {size : Nat} (small : size ≤ 465)
    (part : gaps.Sublist (List.range' 1 size)) :
    ((gaps.map UInt16.ofNat).map writeId).flatten.length ≤ 1013 := by
  have whole : (((List.range' 1 465).map UInt16.ofNat).map writeId).flatten.length = 1013 := by
    decide +kernel
  have inside : gaps.Sublist (List.range' 1 465) :=
    part.trans (List.range'_sublist_right.mpr small)
  rw [← whole]
  exact ((inside.map _).map _).flatten.length_le

/-- The headers inside a datagram can state its length, whatever a member of a group has to say. -/
theorem Proper.short (proper : m.Proper config PublicValue.OnCurve inside) :
    m.encode.length < 2 ^ 32 := by
  by_cases question : ∃ phase service ids, m = .infoRequest phase service ids
  · obtain ⟨phase, service, ids, rfl⟩ := question
    obtain ⟨-, -, gaps, part, rfl⟩ := proper
    have few := config.length_ids_lt part
    have length := length_question_le phase service few
    have ids := length_writeIds_le (gaps.map UInt16.ofNat)
    have size : UInt16.size = 65536 := rfl
    omega
  · have length := length_encode_le_of_proper proper fun phase service ids same ↦
      question ⟨phase, service, ids, same⟩
    omega

end Message

/-! ## What members send fits -/

/-- Whatever happens to a chained member, what it sends fits into a datagram, unless it asks for
more than 338 members of a group of more than 465. -/
theorem emitted_messages_fit {secret : Bytes} {config : MemberConfig} {endpoint : Endpoint}
    {random : Random} {t : Turn Chain}
    (created : Chain.create config endpoint (.ofBytes secret) random = .ok t) {m : Message}
    (emits : (Chain.protocol x25519).Emits (fun _ ↦ Protocol.Outer fun _ ↦ True) t.member m) :
    m.encode.length ≤ defaultMaxDatagram ∨
      465 < config.size ∧
        ∃ phase service ids, m = .infoRequest phase service ids ∧ 338 < ids.length := by
  have accepted := (Chain.create_member created).1
  have proper : m.Proper config PublicValue.OnCurve fun _ ↦ True :=
    emits.upholds (Chain.orderly_create created (onCurve_ofBytes secret)) fun orderly outer ↦
      orderly.step accepted x25519_deals outer
  by_cases question : ∃ phase service ids, m = .infoRequest phase service ids
  · obtain ⟨phase, service, ids, rfl⟩ := question
    obtain ⟨-, -, gaps, part, rfl⟩ := proper
    have few := config.length_ids_lt part
    have length := Message.length_question_le phase service few
    by_cases small : config.size ≤ 465
    · left
      have ids := Message.length_writeIds_le_of_sublist small part
      unfold defaultMaxDatagram
      omega
    · have ids := Message.length_writeIds_le (gaps.map UInt16.ofNat)
      by_cases short : (gaps.map UInt16.ofNat).length ≤ 338
      · left
        unfold defaultMaxDatagram
        omega
      · exact .inr ⟨Nat.lt_of_not_le small, phase, service, _, rfl, Nat.lt_of_not_le short⟩
  · left
    have length := Message.length_encode_le_of_proper proper fun phase service ids same ↦
      question ⟨phase, service, ids, same⟩
    unfold defaultMaxDatagram
    omega

/-- What the sponsor of a group of three sends fits. -/
theorem emitted_messages_fit_doorway :
    ((Doorway.asked 40002).effects.filterMap Effect.message?).map Message.kind = [.response] ∧
    ∀ m ∈ (Doorway.asked 40002).effects.filterMap Effect.message?,
      m.encode.length ≤ defaultMaxDatagram := by
  refine ⟨by decide +kernel, fun m said ↦ ?_⟩
  have emits := Doorway.emits (fun _ ↦ True) trivial said
  rcases emitted_messages_fit Doorway.created emits with fits | ⟨large, -⟩
  · exact fits
  · exact absurd large (by decide)

namespace Crowd

def config : MemberConfig :=
  { service := 7, memberCount := 500, scatterDelay := .ofMillis 50 50 }

def endpoint : Endpoint := ⟨⟨10, 0, 0, 2⟩, 40002⟩

def keys : KeyPair := .ofBytes (List.replicate 32 1)

def guest : KeyPair := .ofBytes (List.replicate 32 2)

/-- A member of a large group that knows nobody. -/
def newcomer : Chain := { config, endpoint, keys, agenda := ⟨[], .ofSeed 1⟩ }

/-- It is let in late. -/
def handOver : Message :=
  .response
    { service := 7
      groupPublic := guest.publicValue
      predecessorPublic := guest.publicValue
      newSponsor := ⟨endpoint, 480, keys.publicValue⟩
      memberCount := 500 }

def joined : Chain :=
  ((Chain.protocol x25519).step (.datagram handOver.encode ⟨⟨10, 0, 0, 3⟩, 40003⟩)
    ((Chain.protocol x25519).step .start newcomer).member).member

/-- Before it can let in anybody itself, it asks for all members that came before. -/
def asked : Turn Chain :=
  (Chain.protocol x25519).step
    (.datagram (Message.request 7 guest.publicValue).encode ⟨⟨10, 0, 0, 9⟩, 40009⟩) joined

end Crowd

/-- A group of five hundred is accepted, but the question for four hundred and seventy-eight of its
members fits into no datagram. -/
theorem question_too_large :
    Chain.create Crowd.config Crowd.endpoint Crowd.keys (.ofSeed 1) =
      .ok (({ member := Crowd.newcomer } : Turn Chain).count .cryptoOperations) ∧
    ∃ m, (Chain.protocol x25519).Emits (fun _ ↦ Protocol.Outer fun _ ↦ True) Crowd.newcomer m ∧
      m.kind = .infoRequest .joining ∧ defaultMaxDatagram < m.encode.length := by
  have large : (Crowd.asked.effects.filterMap Effect.message?).any
      (fun m ↦ m.kind = .infoRequest .joining ∧ defaultMaxDatagram < m.encode.length) = true := by
    decide +kernel
  obtain ⟨m, said, large⟩ := List.any_eq_true.mp large
  obtain ⟨e, left, carries⟩ := List.mem_filterMap.mp said
  have started : Protocol.Outer (fun _ ↦ True) .start := trivial
  have told : Protocol.Outer (fun _ ↦ True)
    (.datagram Crowd.handOver.encode ⟨⟨10, 0, 0, 3⟩, 40003⟩) := trivial
  exact ⟨rfl, m, ⟨Crowd.joined, .datagram _ _, e, .next (.next .rest started) told, trivial, left,
    carries⟩, of_decide_eq_true large⟩

end GroupKey
