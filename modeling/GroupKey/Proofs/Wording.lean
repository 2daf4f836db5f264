import GroupKey.Proofs.Exposure
import GroupKey.Proofs.Isolation
import GroupKey.Proofs.TokenSafety

/-!
# Members say what others accept

What a member says passes the checks that its receivers make: it is for a positive service, names
members by their positions in the group, and carries values that come from the key exchange.  There
is one gap.  A candidate is let in wherever it asks from, but the announcement of a new sponsor
without a port is refused by everybody, so the sponsor's role is lost with it.
-/

namespace GroupKey

/-- A public value that can be written down and is accepted: it is not empty, nor too long for its
length to be written. -/
def PublicValue.Presentable (v : PublicValue) : Prop := v.bytes ≠ [] ∧ v.bytes.length < 2 ^ 32

/-- All public values that an exchange makes or agrees with are of one kind and presentable. -/
structure KeyExchange.Deals (kx : KeyExchange) (P : PublicValue → Prop) : Prop where
  publicOf : ∀ {s v}, kx.publicOf s = .ok v → P v
  agree : ∀ {s v r}, v.Presentable → kx.agree s v = .ok r → P v
  presentable : ∀ {v}, P v → v.Presentable

/-- The length of all public values on the curve. -/
def PublicValue.OnCurve (v : PublicValue) : Prop := v.bytes.length = Curve25519.keyLength

theorem onCurve_ofBytes (bytes : Bytes) : (KeyPair.ofBytes bytes).publicValue.OnCurve :=
  Curve25519.length_multiply _ _

theorem x25519_deals : x25519.Deals PublicValue.OnCurve where
  publicOf {s v} made := by
    change X25519.publicOf s = .ok v at made
    unfold X25519.publicOf at made
    cases checked : X25519.checkSecret s with
    | error e => simp [checked, bind, Except.bind] at made
    | ok _ =>
      simp only [checked, bind, Except.bind] at made
      cases made
      exact Curve25519.length_multiply _ _
  agree {s v r} _ agreed := by
    change X25519.agree s v = .ok r at agreed
    unfold X25519.agree at agreed
    by_cases whole : v.bytes.length = Curve25519.keyLength
    · exact whole
    · have refused : X25519.checkPublic v = .error (.publicLength v.bytes.length) := if_neg whole
      cases checked : X25519.checkSecret s with
      | error e => simp [checked, bind, Except.bind] at agreed
      | ok _ => simp [checked, refused, bind, Except.bind] at agreed
  presentable {v} whole := by
    have length : v.bytes.length = 32 := whole
    refine ⟨?_, by omega⟩
    intro empty
    rw [empty] at length
    cases length

/-- A hand-over within a group: the newcomer has one of the later positions. -/
structure Response.Proper (config : MemberConfig) (P : PublicValue → Prop)
    (inside : Endpoint → Prop) (r : Response) : Prop where
  service : r.service = config.service
  groupPublic : P r.groupPublic
  predecessorPublic : P r.predecessorPublic
  newcomer : P r.newSponsor.publicValue
  endpoint : inside r.newSponsor.endpoint
  later : 2 ≤ r.newSponsor.id.toNat
  id_le : r.newSponsor.id.toNat ≤ config.size
  memberCount : r.memberCount = config.memberCount

/-- An answer with a whole group secret in it. -/
structure SealedResponse.Proper (config : MemberConfig) (P : PublicValue → Prop)
    (r : SealedResponse) : Prop where
  service : r.service = config.service
  sponsorPublic : P r.sponsorPublic
  sealedSecret : r.sealedSecret.length = Curve25519.keyLength + SealedBox.tagLength
  nonce : r.nonce.length = nonceLength

namespace Message

/-- What a member of a group has to say. -/
def Proper (config : MemberConfig) (P : PublicValue → Prop) (inside : Endpoint → Prop) :
    Message → Prop
  | find service => service = config.service
  | offer service => service = config.service
  | request service value => service = config.service ∧ P value
  | response r => r.Proper config P inside
  | infoRequest _ service ids => service = config.service ∧ ids ≠ [] ∧
      ∃ gaps : List Nat, gaps.Sublist (List.range' 1 config.size) ∧ ids = gaps.map UInt16.ofNat
  | infoResponse _ service id value => service = config.service ∧ id ≠ 0 ∧ P value
  | token target => target ≠ 0
  | finish => True
  | finishAck => True
  | distributed r => r.Proper config P

/-- The refusal of a new sponsor that cannot be reached. -/
def portless : DecodeError := .invalidField "new_sponsor.port" "must be non-zero"

end Message

theorem MemberConfig.service_ne_zero {c : MemberConfig} (accepted : c.validate = .ok ()) :
    c.service ≠ 0 := by
  intro none
  rw [validate, if_pos none] at accepted
  cases accepted

theorem MemberConfig.size_lt (c : MemberConfig) : c.size < UInt16.size := c.memberCount.toNat_lt

/-- A question names fewer members than a word can count. -/
theorem MemberConfig.length_ids_lt (c : MemberConfig) {gaps : List Nat}
    (part : gaps.Sublist (List.range' 1 c.size)) :
    (gaps.map UInt16.ofNat).length < UInt16.size := by
  have short := part.length_le
  rw [List.length_range'] at short
  rw [List.length_map]
  exact Nat.lt_of_le_of_lt short c.size_lt

/-- Positions of a group fit into their words. -/
theorem MemberConfig.ofNat_ne_zero {c : MemberConfig} {id : Nat} (positive : 1 ≤ id)
    (id_le : id ≤ c.size) : UInt16.ofNat id ≠ 0 := by
  intro none
  have same : (UInt16.ofNat id).toNat = id :=
    UInt16.toNat_ofNat_of_lt' (Nat.lt_of_le_of_lt id_le c.size_lt)
  rw [none] at same
  change 0 = id at same
  omega

namespace Message

section Proper

variable {config : MemberConfig} {P : PublicValue → Prop} {inside : Endpoint → Prop} {m : Message}
  (presentable : ∀ {v}, P v → v.Presentable)

include presentable

theorem Proper.fits (proper : m.Proper config P inside) : m.Fits := by
  cases m with
  | request service value => exact (presentable proper.2).2
  | response r =>
    exact ⟨(presentable proper.groupPublic).2, (presentable proper.predecessorPublic).2,
      (presentable proper.newcomer).2⟩
  | infoRequest phase service ids =>
    obtain ⟨-, -, gaps, part, rfl⟩ := proper
    exact Nat.lt_trans (config.length_ids_lt part) (by decide)
  | infoResponse phase service id value => exact (presentable proper.2.2).2
  | distributed r =>
    refine ⟨(presentable proper.sponsorPublic).2, ?_, ?_⟩
    · rw [proper.sealedSecret]
      decide
    · rw [proper.nonce]
      decide
  | _ => trivial

/-- Every check of a hand-over holds before the port is looked at. -/
theorem Proper.valid (proper : m.Proper config P inside) (accepted : config.validate = .ok ())
    (reachable : ∀ r, m = .response r → r.newSponsor.endpoint.port ≠ 0) : m.Valid := by
  have positive := MemberConfig.service_ne_zero accepted
  have filled {v : PublicValue} (proper : P v) : v.bytes ≠ [] := (presentable proper).1
  unfold Valid checks
  cases m with
  | find service | offer service =>
    obtain rfl : service = config.service := proper
    simpa [FieldCheck.service] using positive
  | request service value =>
    obtain ⟨rfl, own⟩ := proper
    simpa [FieldCheck.service, FieldCheck.publicValue, positive] using filled own
  | response r =>
    have port := reachable r rfl
    have later : 2 ≤ r.newSponsor.id := UInt16.le_iff_toNat_le.mpr proper.later
    have inside : r.newSponsor.id ≤ r.memberCount := by
      rw [proper.memberCount]
      exact UInt16.le_iff_toNat_le.mpr proper.id_le
    have service : r.service ≠ 0 := by
      rw [proper.service]
      exact positive
    simpa [Response.checks, FieldCheck.service, FieldCheck.publicValue, service, port, later,
      inside] using And.intro (filled proper.groupPublic)
        ⟨filled proper.predecessorPublic, filled proper.newcomer⟩
  | infoRequest phase service ids =>
    obtain ⟨rfl, asked, gaps, part, rfl⟩ := proper
    have named : ∀ gap ∈ gaps, UInt16.ofNat gap ≠ 0 := by
      intro gap here
      have range := List.mem_range'_1.mp (part.subset here)
      exact MemberConfig.ofNat_ne_zero (c := config) range.1 (by omega)
    simpa [FieldCheck.service, FieldCheck.filled, FieldCheck.memberId, positive]
      using And.intro asked named
  | infoResponse phase service id value =>
    obtain ⟨rfl, named, own⟩ := proper
    simpa [FieldCheck.service, FieldCheck.memberId, FieldCheck.publicValue, positive, named]
      using filled own
  | token target =>
    have named : target ≠ 0 := proper
    simpa [FieldCheck.memberId] using named
  | finish | finishAck => simp
  | distributed r =>
    have service : r.service ≠ 0 := by
      rw [proper.service]
      exact positive
    have whole : r.sealedSecret ≠ [] := List.ne_nil_of_length_pos (by
      rw [proper.sealedSecret]
      decide)
    have fresh : r.nonce ≠ [] := List.ne_nil_of_length_pos (by
      rw [proper.nonce]
      decide)
    simpa [FieldCheck.service, FieldCheck.filled, FieldCheck.publicValue, service, whole, fresh]
      using filled proper.sponsorPublic

/-- Nothing but the port is wrong with a hand-over to a sponsor without one. -/
theorem check_of_portless {r : Response} (proper : r.Proper config P inside)
    (accepted : config.validate = .ok ()) (port : r.newSponsor.endpoint.port = 0) :
    (response r).check = .error portless := by
  have service : r.service ≠ 0 := by
    rw [proper.service]
    exact MemberConfig.service_ne_zero accepted
  have filled {v : PublicValue} (proper : P v) : v.bytes.isEmpty = false := by
    simpa using (presentable proper).1
  have fault : (response r).firstFault? =
      some ⟨"new_sponsor.port", "must be non-zero", r.newSponsor.endpoint.port ≠ 0⟩ := by
    simp [firstFault?, checks, Response.checks, FieldCheck.service, FieldCheck.publicValue, service,
      filled proper.groupPublic, filled proper.predecessorPublic, filled proper.newcomer, port]
  rw [check, fault]
  rfl

/-- A proper message is read as it was written, unless it announces a sponsor without a port. -/
theorem Proper.decode_encode (proper : m.Proper config P inside)
    (accepted : config.validate = .ok ()) :
    decode m.encode = .ok m ∨
      ∃ r, m = .response r ∧ inside r.newSponsor.endpoint ∧ r.newSponsor.endpoint.port = 0 ∧
        decode m.encode = .error portless := by
  rw [Message.decode_encode m (proper.fits presentable)]
  have read (reachable : ∀ r, m = .response r → r.newSponsor.endpoint.port ≠ 0) :
      m.check = .ok m :=
    check_eq_ok_iff.mpr ⟨rfl, proper.valid presentable accepted reachable⟩
  cases m with
  | response r =>
    by_cases port : r.newSponsor.endpoint.port = 0
    · exact .inr ⟨r, rfl, proper.endpoint, port, check_of_portless presentable proper accepted port⟩
    · left
      apply read
      rintro _ ⟨⟩
      exact port
  | _ =>
    left
    apply read
    rintro _ ⟨⟩

end Proper

end Message

/-! ## Chained members -/

namespace Chain

variable {kx : KeyExchange} {cause input : Input} {c d : Chain} {said : List Outgoing}
  {config : MemberConfig} {P : PublicValue → Prop} {inside : Endpoint → Prop}

/-- A member of a group has a position in it, and what it keeps to be said is proper.  Candidates
are not checked before they are let in. -/
structure Orderly (config : MemberConfig) (P : PublicValue → Prop) (inside : Endpoint → Prop)
    (c : Chain) : Prop where
  configured : c.config = config
  own : P c.keys.publicValue
  order : c.token.taken → c.token.passed
  position : ∀ s, c.seat = some s → 1 ≤ s.id ∧ s.id ≤ config.size
  rootPublic : ∀ s, c.seat = some s → ∀ v, s.tree.head.rootPublic = some v → P v
  pending : ∀ p ∈ c.pending, p.publicValue.Presentable ∧ inside p.endpoint
  handOver : ∀ h, c.handOver = some h → h.response.Proper config P inside

/-- What is said to a member has passed the checks, and comes from inside. -/
def Checked (inside : Endpoint → Prop) (cause : Input) : Prop :=
  ∀ said source, cause = .message said source → inside source ∧ said.Fits ∧ said.Valid

theorem checked_of_hears (hears : Protocol.Hears inside input cause) : Checked inside cause := by
  rintro said source rfl
  obtain ⟨here, bytes, -, read⟩ := hears
  exact ⟨here, Message.of_decode_eq_ok read⟩

/-- A public value in an accepted request is presentable. -/
theorem Checked.request {service : ServiceId} {value : PublicValue} {source : Endpoint}
    (checked : Checked inside (.message (.request service value) source)) :
    value.Presentable ∧ inside source := by
  obtain ⟨here, fits, valid⟩ := checked _ _ rfl
  have filled := valid (FieldCheck.publicValue "requester_public_value" value) (by
    simp [Message.checks])
  exact ⟨⟨by simpa [FieldCheck.publicValue] using filled, fits⟩, here⟩

/-- An accepted hand-over gives one of the later positions of the group. -/
theorem Checked.response {r : Response} {source : Endpoint}
    (checked : Checked inside (.message (.response r) source)) :
    2 ≤ r.newSponsor.id.toNat ∧ r.newSponsor.id.toNat ≤ r.memberCount.toNat := by
  obtain ⟨-, -, valid⟩ := checked _ _ rfl
  have later := valid ⟨"new_sponsor.assigned_id", "must be at least 2", 2 ≤ r.newSponsor.id⟩ (by
    simp [Message.checks, Response.checks])
  have bounded := valid ⟨"member_count", "must not be smaller than the assigned id",
    r.newSponsor.id ≤ r.memberCount⟩ (by simp [Message.checks, Response.checks])
  rw [decide_eq_true_eq, UInt16.le_iff_toNat_le] at later bounded
  exact ⟨later, bounded⟩

theorem isOpen_of_seat {s : Seat} (isOpen : c.isOpen) (seat : c.seat = some s) :
    s.sponsor = true ∧ s.id < c.size := by
  simpa [Chain.isOpen, seat] using isOpen

theorem Orderly.size (orderly : c.Orderly config P inside) : c.size = config.size := by
  rw [Chain.size, orderly.configured]

/-- The public value that the group had before somebody joined it. -/
theorem Orderly.before (orderly : c.Orderly config P inside) (deals : kx.Deals P) {s : Seat}
    {before : PublicValue} (seat : c.seat = some s) (made : s.tree.rootPublic kx = .ok before) :
    P before := by
  unfold KeyTree.rootPublic at made
  split at made
  · next value stored =>
    cases made
    exact orderly.rootPublic s seat _ stored
  · exact deals.publicOf made

/-- Whoever is let in agreed with the group on a secret, so its value is of the right kind. -/
theorem Orderly.enrol (orderly : c.Orderly config P inside) (deals : kx.Deals P) {s new : Seat}
    {candidate : Candidate} {before : PublicValue} (seat : c.seat = some s) (isOpen : c.isOpen)
    (waiting : candidate ∈ c.pending) (granted : seatAfter kx s candidate = .ok (new, before)) :
    (c.responseFor (s.id + 1) candidate before).Proper config P inside := by
  obtain ⟨tree, made, extended, -⟩ := seatAfter_eq_ok granted
  obtain ⟨root, agreed, -⟩ := KeyTree.extend_silent_eq_ok extended
  obtain ⟨presentable, here⟩ := orderly.pending candidate waiting
  have room : s.id < config.size := by
    rw [← orderly.size]
    exact (isOpen_of_seat isOpen seat).2
  have whole : (UInt16.ofNat (s.id + 1)).toNat = s.id + 1 :=
    UInt16.toNat_ofNat_of_lt' (Nat.lt_of_le_of_lt room config.size_lt)
  have first := (orderly.position s seat).1
  exact
    { service := congrArg MemberConfig.service orderly.configured
      groupPublic := orderly.before deals seat made
      predecessorPublic := orderly.own
      newcomer := deals.agree presentable agreed
      endpoint := here
      later := by
        change 2 ≤ (UInt16.ofNat (s.id + 1)).toNat
        omega
      id_le := by
        change (UInt16.ofNat (s.id + 1)).toNat ≤ config.size
        omega
      memberCount := congrArg MemberConfig.memberCount orderly.configured }

theorem Orderly.open (orderly : c.Orderly config P inside) (accepted : config.validate = .ok ()) :
    ({ c with
      seat := some c.openingSeat
      directory := (c.directory.record c.endpoint 1 c.keys.publicValue).2 } : Chain).Orderly
        config P inside := by
  refine { orderly with position := ?_, rootPublic := ?_ }
  · rintro _ ⟨⟩
    exact ⟨Nat.le_refl 1, MemberConfig.size_pos accepted⟩
  · rintro _ ⟨⟩ _ ⟨⟩
    exact orderly.own

theorem Orderly.move (orderly : c.Orderly config P inside) (accepted : config.validate = .ok ())
    (deals : kx.Deals P) (checked : Checked inside cause) (move : Move kx cause c said d) :
    d.Orderly config P inside := by
  cases move with
  | learn endpoint id value =>
    unfold learn
    split
    · exact orderly
    · exact { orderly with pending := fun p here ↦ orderly.pending p (List.mem_of_mem_filter here) }
  | confirm =>
    refine { orderly with handOver := fun h confirmed ↦ ?_ }
    obtain ⟨h', old, rfl⟩ := Option.map_eq_some_iff.mp confirmed
    exact orderly.handOver h' old
  | enqueue service value source asked =>
    unfold enqueue
    split
    · exact orderly
    · refine { orderly with pending := fun p here ↦ ?_ }
      rcases List.mem_append.mp here with old | new
      · exact orderly.pending p old
      · rw [List.mem_singleton.mp new]
        subst asked
        exact checked.request
  | forget pending part =>
    exact { orderly with pending := fun p here ↦ orderly.pending p (part.subset here) }
  | openGroup => exact orderly.open accepted
  | takeSeat r source s named own value count free running granted =>
    obtain ⟨root, rootPublic, -, made, rfl⟩ := firstSeat_eq_ok granted
    subst named
    obtain ⟨later, bounded⟩ := checked.response
    rw [count, orderly.configured] at bounded
    refine { orderly with position := ?_, rootPublic := ?_ }
    · rintro _ ⟨⟩
      exact ⟨Nat.le_of_succ_le later, bounded⟩
    · rintro _ ⟨⟩ _ ⟨⟩
      exact deals.publicOf made
  | resign s seat =>
    refine { orderly with position := ?_, rootPublic := ?_ }
    · rintro _ ⟨⟩
      exact orderly.position s seat
    · rintro _ ⟨⟩
      exact orderly.rootPublic s seat
  | enrol s new candidate rest before seat isOpen known queue unknown granted =>
    have response := orderly.enrol deals seat isOpen (queue.subset (List.mem_cons_self ..)) granted
    obtain ⟨tree, -, extended, rfl⟩ := seatAfter_eq_ok granted
    obtain ⟨root, -, rfl⟩ := KeyTree.extend_silent_eq_ok extended
    refine { orderly with position := ?_, rootPublic := ?_, pending := ?_, handOver := ?_ }
    · rintro _ ⟨⟩
      exact orderly.position s seat
    · rintro _ ⟨⟩ _ ⟨⟩
    · exact fun p here ↦ orderly.pending p (queue.subset (List.mem_cons_of_mem _ here))
    · rintro _ ⟨⟩
      exact response
  | extend s value tree seat known room granted =>
    obtain ⟨root, -, rfl⟩ := KeyTree.extend_silent_eq_ok granted
    refine { orderly with position := ?_, rootPublic := ?_ }
    · rintro _ ⟨⟩
      exact orderly.position s seat
    · rintro _ ⟨⟩ _ ⟨⟩
  | seeTaken passed => exact { orderly with order := fun _ ↦ passed }
  | pass => exact { orderly with order := fun _ ↦ rfl }
  | _ => exact { orderly with }

/-- All positions that a member can ask for. -/
theorem missing_sublist (d : Directory) {first bound size : Nat} (positive : 1 ≤ first)
    (bounded : bound ≤ size + 1) : (d.missing first bound).Sublist (List.range' 1 size) := by
  refine List.filter_sublist.trans ?_
  unfold Directory.idsBelow
  by_cases room : first ≤ size + 1
  · have parts : List.range' 1 (first - 1) ++ List.range' first (size + 1 - first) =
        List.range' 1 size := by
      have joined := @List.range'_append_1 1 (first - 1) (size + 1 - first)
      have whole : first - 1 + (size + 1 - first) = size := by omega
      rwa [Nat.add_sub_cancel' positive, whole] at joined
    rw [← parts]
    exact (List.range'_sublist_right.mpr (by omega)).trans (List.sublist_append_right _ _)
  · have none : bound - first = 0 := by omega
    rw [none]
    exact List.nil_sublist _

theorem Orderly.asks (orderly : c.Orderly config P inside) {ids : List MemberId}
    (lacks : c.Lacks ids) :
    ids ≠ [] ∧ ∃ gaps : List Nat, gaps.Sublist (List.range' 1 config.size) ∧
      ids = gaps.map UInt16.ofNat := by
  have size := orderly.size
  obtain ⟨asked, below | above⟩ := lacks
  · refine ⟨asked, c.gapsBelow, ?_, below⟩
    unfold gapsBelow
    split
    · next s seat =>
      have position := orderly.position s seat
      exact missing_sublist c.directory (Nat.le_refl 1) (by omega)
    · exact List.nil_sublist _
  · refine ⟨asked, c.gapsAbove, ?_, above⟩
    unfold gapsAbove
    split
    · next s seat =>
      have position := orderly.position s seat
      exact missing_sublist c.directory (by omega) (by omega)
    · exact List.nil_sublist _

theorem Orderly.token (orderly : c.Orderly config P inside) (accepted : config.validate = .ok ())
    (id : Nat) : UInt16.ofNat (successor id c.size) ≠ 0 := by
  rw [orderly.size]
  exact MemberConfig.ofNat_ne_zero (successor_pos id config.size)
    (successor_le id (MemberConfig.size_pos accepted))

theorem Orderly.maySay (orderly : c.Orderly config P inside) (accepted : config.validate = .ok ())
    {m : Message} (may : c.MaySay m) : m.Proper config P inside := by
  have service : c.config.service = config.service :=
    congrArg MemberConfig.service orderly.configured
  cases m with
  | find s => exact may.trans service
  | offer s => exact may.1.trans service
  | request s value =>
    obtain ⟨same, -, rfl⟩ := may
    exact ⟨same.trans service, orderly.own⟩
  | response r =>
    obtain ⟨h, handOver, rfl⟩ := may
    exact orderly.handOver h handOver
  | infoRequest phase s ids => exact ⟨may.1.trans service, orderly.asks may.2.2⟩
  | infoResponse phase s id value =>
    obtain ⟨same, rfl, seat, here, rfl⟩ := may
    obtain ⟨first, last⟩ := orderly.position seat here
    exact ⟨same.trans service, MemberConfig.ofNat_ne_zero first last, orderly.own⟩
  | token target =>
    obtain ⟨-, s, -, rfl⟩ := may
    exact orderly.token accepted s.id
  | finish => trivial
  | finishAck | distributed => exact may.elim

theorem Orderly.says (orderly : c.Orderly config P inside) (accepted : config.validate = .ok ())
    (move : Move kx cause c said d) : ∀ o ∈ said, o.message.Proper config P inside := by
  intro o here
  cases move with
  | say target m may =>
    obtain rfl := List.mem_singleton.mp here
    exact orderly.maySay accepted may
  | bowOut =>
    obtain rfl := List.mem_singleton.mp here
    trivial
  | _ => cases here

/-- Whatever happens to an orderly member, it stays orderly and what it says is proper. -/
theorem Orderly.step (orderly : c.Orderly config P inside) (accepted : config.validate = .ok ())
    (deals : kx.Deals P) (outer : Protocol.Outer inside input) :
    Protocol.Upholds (Orderly config P inside) (Message.Proper config P inside)
      ((Chain.protocol kx).step input c) := by
  have service : c.config.service = config.service :=
    congrArg MemberConfig.service orderly.configured
  rcases step_cases kx outer orderly.order with
    ⟨-, same⟩ | ⟨-, same⟩ | ⟨cause, hears, follows⟩
  · rw [same]
    obtain ⟨⟨agenda, announced, finished, begun⟩, messages⟩ := begin_frame c
    refine ⟨?_, fun o here ↦ ?_⟩
    · rcases begun with member | ⟨-, member⟩
      · rw [member]
        exact { orderly with }
      · rw [member]
        exact { orderly.open accepted with }
    · rcases messages o here with said | said
      · rw [said]
        exact service
      · rw [said]
        exact service
  · rw [same]
    obtain ⟨⟨agenda, member, -⟩, messages⟩ := repeatToken_frame kx c
    refine ⟨?_, fun o here ↦ ?_⟩
    · rw [member]
      exact { orderly with }
    · obtain ⟨s, -, said⟩ := messages o here
      rw [said]
      exact orderly.token accepted s.id
  · have checked := checked_of_hears hears
    exact follows.upholds orderly fun before move ↦
      ⟨before.move accepted deals checked move, before.says accepted move⟩

theorem orderly_create {endpoint : Endpoint} {keys : KeyPair} {random : Random} {t : Turn Chain}
    (created : create config endpoint keys random = .ok t) (own : P keys.publicValue) :
    t.member.Orderly config P inside := by
  rw [(create_member created).2]
  exact ⟨rfl, own, by simp, by simp, by simp, by simp, by simp⟩

end Chain

/-! ## Star members -/

namespace Star

variable {kx : KeyExchange} {cause input : Input} {m d : Star} {config : MemberConfig}
  {P : PublicValue → Prop} {inside : Endpoint → Prop}

/-- A sponsor's group secret is a drawn one, and the answers with it are proper. -/
structure Orderly (config : MemberConfig) (P : PublicValue → Prop) (m : Star) : Prop where
  configured : m.config = config
  own : P m.keys.publicValue
  source : m.source?.isSome → m.config.sponsor = false ∧ m.groupSecret?.isSome
  secret : config.sponsor = true →
    ∀ K, m.groupSecret? = some K → K.bytes.length = Curve25519.keyLength
  served : ∀ s ∈ m.served, s.answer.Proper config P

theorem Orderly.change (orderly : m.Orderly config P) (started : cause ≠ .start)
    (change : Change kx cause m d) : d.Orderly config P := by
  cases change with
  | plan | acknowledge | finish => exact { orderly with }
  | openGroup _ _ _ first => exact absurd first started
  | serve _ service value source group shared nonce _ chosen _ _ known _ whole =>
    refine { orderly with served := fun s here ↦ ?_ }
    rcases List.mem_append.mp here with old | new
    · exact orderly.served s old
    · rw [List.mem_singleton.mp new]
      rw [orderly.configured] at chosen
      refine ⟨congrArg MemberConfig.service orderly.configured, orderly.own, ?_, whole⟩
      calc (group.sealFor shared nonce).length
          = group.bytes.length + SealedBox.tagLength := SealedBox.length_box _ _ _
        _ = Curve25519.keyLength + SealedBox.tagLength := by rw [orderly.secret chosen group known]
  | keep _ answer source secret _ other =>
    refine { orderly with source := fun _ ↦ ⟨other, rfl⟩, secret := fun chosen ↦ ?_ }
    rw [orderly.configured, chosen] at other
    cases other

theorem Orderly.vouches (orderly : m.Orderly config P) {target : Option Endpoint} {said : Message}
    (vouches : m.Vouches target said) : said.Proper config P inside := by
  have service : m.config.service = config.service :=
    congrArg MemberConfig.service orderly.configured
  cases said with
  | find s | offer s => exact Eq.trans vouches service
  | request s value =>
    obtain ⟨same, rfl⟩ := vouches
    exact ⟨same.trans service, orderly.own⟩
  | distributed answer =>
    obtain ⟨e, -, here⟩ := vouches
    exact orderly.served _ here
  | finish | finishAck => trivial
  | _ => exact vouches.elim

/-- Whatever happens to an orderly member, it stays orderly and what it says is proper.  It hands
its role to nobody. -/
theorem Orderly.step (orderly : m.Orderly config P) (outer : Protocol.Outer inside input) :
    Protocol.Upholds (Orderly config P) (Message.Proper config P fun _ ↦ False)
      ((Star.protocol kx).step input m) := by
  have service : m.config.service = config.service :=
    congrArg MemberConfig.service orderly.configured
  rcases step_cases kx outer orderly.source with ⟨-, same⟩ | ⟨cause, other, -, does⟩
  · rw [same]
    obtain ⟨⟨agenda, secret?, finished, member, drawn⟩, messages⟩ := begin_frame m
    refine ⟨?_, fun o here ↦ ?_⟩
    · rw [member]
      rcases drawn with kept | ⟨secret, rfl, whole⟩
      · subst kept
        exact { orderly with }
      · refine { orderly with source := fun found ↦ ⟨(orderly.source found).1, rfl⟩, secret := ?_ }
        rintro - _ ⟨⟩
        exact whole
    · rcases messages o here with said | said
      · rw [said]
        exact service
      · rw [said]
        exact service
  · have after := orderly.change other does.change
    exact ⟨after, fun o here ↦ after.vouches (does.vouches o here)⟩

theorem orderly_create {endpoint : Endpoint} {keys : KeyPair} {random : Random} {t : Turn Star}
    (created : create config endpoint keys random = .ok t) (own : P keys.publicValue) :
    t.member.Orderly config P := by
  rw [create_member created]
  exact ⟨rfl, own, by simp, by simp, by simp⟩

end Star

/-- Whatever happens to a member of either variant, everybody can read what it sends as it was sent,
unless it hands the sponsor's role to somebody who asked from port zero. -/
theorem emitted_messages_decode {kx : KeyExchange}
    (presents : ∀ s v, kx.publicOf s = .ok v → v.Presentable) {config : MemberConfig}
    {endpoint : Endpoint} {keys : KeyPair} {random : Random} (own : keys.publicValue.Presentable)
    (inside : Endpoint → Prop) :
    (∀ t, Chain.create config endpoint keys random = .ok t →
      ∀ m, (Chain.protocol kx).Emits (fun _ ↦ Protocol.Outer inside) t.member m →
        Message.decode m.encode = .ok m ∨
          ∃ r, m = .response r ∧ inside r.newSponsor.endpoint ∧ r.newSponsor.endpoint.port = 0 ∧
            Message.decode m.encode =
              .error (.invalidField "new_sponsor.port" "must be non-zero")) ∧
    ∀ t, Star.create config endpoint keys random = .ok t →
      ∀ m, (Star.protocol kx).Emits (fun _ ↦ Protocol.Outer inside) t.member m →
        Message.decode m.encode = .ok m := by
  have deals : kx.Deals PublicValue.Presentable :=
    ⟨presents _ _, fun presentable _ ↦ presentable, id⟩
  refine ⟨fun t created m emits ↦ ?_, fun t created m emits ↦ ?_⟩
  · have accepted := (Chain.create_member created).1
    have proper : m.Proper config PublicValue.Presentable inside :=
      emits.upholds (Chain.orderly_create created own) fun orderly outer ↦
        orderly.step accepted deals outer
    exact proper.decode_encode id accepted
  · have accepted := (MemberConfig.accepted_of_eq_ok created).1
    have proper : m.Proper config PublicValue.Presentable fun _ ↦ False :=
      emits.upholds (Star.orderly_create created own) fun orderly outer ↦ orderly.step outer
    rcases proper.decode_encode id accepted with read | ⟨r, -, nobody, -⟩
    · exact read
    · exact nobody.elim

namespace Doorway

def config : MemberConfig :=
  { service := 7, memberCount := 3, sponsor := true, scatterDelay := .ofMillis 50 50 }

def endpoint : Endpoint := ⟨⟨10, 0, 0, 1⟩, 40001⟩

def keys : KeyPair := .ofBytes (List.replicate 32 1)

def guest : KeyPair := .ofBytes (List.replicate 32 2)

/-- A sponsor before its start. -/
def sponsor : Chain := { config, endpoint, keys, agenda := ⟨[], .ofSeed 1⟩ }

/-- What the sponsor does when somebody asks from a port. -/
def asked (port : UInt16) : Turn Chain :=
  (Chain.protocol x25519).step
    (.datagram (Message.request 7 guest.publicValue).encode ⟨⟨10, 0, 0, 2⟩, port⟩)
    ((Chain.protocol x25519).step .start sponsor).member

theorem created : Chain.create config endpoint keys (.ofSeed 1) =
    .ok (({ member := sponsor } : Turn Chain).count .cryptoOperations) := rfl

theorem emits (inside : Endpoint → Prop) {port : UInt16} (here : inside ⟨⟨10, 0, 0, 2⟩, port⟩)
    {m : Message} (said : m ∈ (asked port).effects.filterMap Effect.message?) :
    (Chain.protocol x25519).Emits (fun _ ↦ Protocol.Outer inside) sponsor m := by
  obtain ⟨e, left, carries⟩ := List.mem_filterMap.mp said
  have started : Protocol.Outer inside .start := trivial
  exact ⟨_, .datagram _ _, e, .next .rest started, here, left, carries⟩

end Doorway

/-- Somebody who asks from a port is let in, and everybody can read so. -/
theorem emitted_messages_decode_doorway :
    ((Doorway.asked 40002).effects.filterMap Effect.message?).map Message.kind = [.response] ∧
    ∀ m ∈ (Doorway.asked 40002).effects.filterMap Effect.message?,
      Message.decode m.encode = .ok m := by
  refine ⟨by decide +kernel, fun m said ↦ ?_⟩
  have presents (s : Secret) (v : PublicValue) (made : x25519.publicOf s = .ok v) :
      v.Presentable := x25519_deals.presentable (x25519_deals.publicOf made)
  have own : Doorway.keys.publicValue.Presentable :=
    x25519_deals.presentable (onCurve_ofBytes _)
  have emits := Doorway.emits (fun e ↦ e.port ≠ 0) (by decide) said
  rcases (emitted_messages_decode presents own fun e ↦ e.port ≠ 0).1 _ Doorway.created m emits with
    read | ⟨r, -, port, none, -⟩
  · exact read
  · exact absurd none port

/-- Somebody who asks from port zero is made the sponsor, and nobody can read so. -/
theorem portless_sponsor_unread :
    (Doorway.asked 0).member.isSponsor = false ∧
    ∃ m, (Chain.protocol x25519).Emits (fun _ ↦ Protocol.Outer fun _ ↦ True) Doorway.sponsor m ∧
      m.kind = .response ∧ Message.decode m.encode ≠ .ok m := by
  have unread : ((Doorway.asked 0).effects.filterMap Effect.message?).any
      (fun m ↦ m.kind = .response ∧ Message.decode m.encode ≠ .ok m) = true := by
    decide +kernel
  obtain ⟨m, said, unread⟩ := List.any_eq_true.mp unread
  exact ⟨by decide +kernel, m, Doorway.emits (fun _ ↦ True) trivial said, of_decide_eq_true unread⟩

end GroupKey
