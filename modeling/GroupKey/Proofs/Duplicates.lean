import GroupKey.Proofs.CascadeOrder
import GroupKey.Proofs.GroupOfOne

/-!
# Second copies

The network may deliver a datagram twice.  A second copy of a request, of a hand-over or of an
answer tells nothing new, and whatever the first one made possible was done at once.  A sponsor
that could let somebody in has done so, and another member has applied all that it can.
-/

namespace GroupKey

namespace Directory

variable {d d' : Directory} {endpoint : Endpoint} {id : Nat}

/-- The endpoint or the id is taken, so there is no room for an entry with both. -/
def Covers (d : Directory) (endpoint : Endpoint) (id : Nat) : Prop :=
  ∃ e ∈ d.entries, e.endpoint = endpoint ∨ e.id = id

theorem Covers.mono (covers : d.Covers endpoint id) (grows : d.entries ⊆ d'.entries) :
    d'.Covers endpoint id := by
  obtain ⟨e, here, same⟩ := covers
  exact ⟨e, grows here, same⟩

theorem Covers.record (covers : d.Covers endpoint id) (value : PublicValue) :
    (d.record endpoint id value).2 = d := by
  rcases d.record_cases endpoint id value with ⟨-, kept⟩ | ⟨unknown, free, -⟩
  · rw [kept]
  · obtain ⟨e, here, same | same⟩ := covers
    · simp [containsEndpoint_iff.mpr ⟨e, here, same⟩] at unknown
    · simp [containsId_iff.mpr ⟨e, here, same⟩] at free

end Directory

namespace Chain

variable {kx : KeyExchange} {cause : Input} {c d e : Chain} {s : Seat} {t : Turn Chain}
  {said : List Outgoing} {endpoint source : Endpoint} {id : Nat} {r : Response}

/-- The member has the same seat and directory, and the same hand-over to repeat. -/
structure Stays (c d : Chain) : Prop where
  seat : d.seat = c.seat
  directory : d.directory = c.directory
  response : d.handOver.map HandOver.response = c.handOver.map HandOver.response

theorem Stays.refl (c : Chain) : c.Stays c := ⟨rfl, rfl, rfl⟩

theorem Stays.trans (first : c.Stays d) (second : d.Stays e) : c.Stays e :=
  ⟨second.seat.trans first.seat, second.directory.trans first.directory,
    second.response.trans first.response⟩

/-- The member was told what it knew: it may take somebody for let in who was waiting, and its
hand-over for arrived. -/
def Recalls (c d : Chain) : Prop :=
  ∃ handOver pending, handOver.map HandOver.response = c.handOver.map HandOver.response ∧
    pending ⊆ c.pending ∧ d = { c with handOver, pending }

theorem Recalls.refl (c : Chain) : c.Recalls c :=
  ⟨c.handOver, c.pending, rfl, List.Subset.refl _, rfl⟩

theorem Recalls.trans (first : c.Recalls d) (second : d.Recalls e) : c.Recalls e := by
  obtain ⟨handOver, pending, same, part, rfl⟩ := first
  obtain ⟨handOver', pending', same', part', rfl⟩ := second
  exact ⟨handOver', pending', same'.trans same, List.Subset.trans part' part, rfl⟩

theorem Recalls.stays (recalls : c.Recalls d) : c.Stays d := by
  obtain ⟨handOver, pending, same, -, rfl⟩ := recalls
  exact ⟨rfl, rfl, same⟩

theorem recalls_confirm (c : Chain) : c.Recalls c.confirm := by
  refine ⟨c.confirm.handOver, c.pending, ?_, List.Subset.refl _, rfl⟩
  rw [confirm, Option.map_map]
  rfl

theorem recalls_hearAssigned (c : Chain) (source : Endpoint) :
    c.Recalls (c.hearAssigned source) := by
  unfold hearAssigned
  split
  · exact recalls_confirm c
  · exact .refl c

theorem recalls_learn (known : endpoint = c.endpoint ∨ c.directory.Covers endpoint id)
    (value : PublicValue) : c.Recalls (c.learn endpoint id value) := by
  unfold learn
  split
  · exact .refl c
  · next foreign =>
    rw [(known.resolve_left foreign).record]
    exact ⟨c.handOver, _, rfl, fun _ here ↦ List.mem_of_mem_filter here, rfl⟩

theorem subset_learn (c : Chain) (endpoint : Endpoint) (id : Nat) (value : PublicValue) :
    c.directory.entries ⊆ (c.learn endpoint id value).directory.entries := by
  unfold learn
  split
  · exact List.Subset.refl _
  · exact Directory.subset_record _ _ _ _

theorem covers_learn (foreign : endpoint ≠ c.endpoint) (id : Nat) (value : PublicValue) :
    (c.learn endpoint id value).directory.Covers endpoint id := by
  rw [learn, if_neg foreign]
  exact Directory.record_takes _ _ _ _

/-- What a hand-over says before it tells of others. -/
theorem learnFrom_eq (r : Response) (source : Endpoint) (c : Chain) :
    ∃ heard, c.Recalls heard ∧ learnFrom r source c =
      (heard.learn source (r.newSponsor.id.toNat - 1) r.predecessorPublic).learn
        r.newSponsor.endpoint r.newSponsor.id.toNat r.newSponsor.publicValue := by
  have heard := recalls_hearAssigned c source
  unfold learnFrom
  dsimp only
  split
  · exact ⟨_, heard.trans (recalls_confirm _), rfl⟩
  · exact ⟨_, heard, rfl⟩

theorem recalls_learnFrom
    (sender : c.directory.Covers source (r.newSponsor.id.toNat - 1))
    (newcomer : r.newSponsor.endpoint = c.endpoint ∨
      c.directory.Covers r.newSponsor.endpoint r.newSponsor.id.toNat) :
    c.Recalls (learnFrom r source c) := by
  obtain ⟨heard, recalls, eq⟩ := learnFrom_eq r source c
  rw [eq]
  obtain ⟨handOver, pending, -, -, same⟩ := id recalls
  have first : heard.Recalls
      (heard.learn source (r.newSponsor.id.toNat - 1) r.predecessorPublic) := by
    refine recalls_learn (.inr ?_) _
    rw [same]
    exact sender
  obtain ⟨handOver', pending', -, -, same'⟩ := id first
  refine (recalls.trans first).trans (recalls_learn ?_ _)
  rw [same', same]
  exact newcomer

theorem covers_learnFrom (foreign : source ≠ c.endpoint) (r : Response) :
    (learnFrom r source c).directory.Covers source (r.newSponsor.id.toNat - 1) ∧
      (r.newSponsor.endpoint = c.endpoint ∨ (learnFrom r source c).directory.Covers
        r.newSponsor.endpoint r.newSponsor.id.toNat) := by
  obtain ⟨heard, ⟨handOver, pending, -, -, same⟩, eq⟩ := learnFrom_eq r source c
  have endpoint : heard.endpoint = c.endpoint := by rw [same]
  obtain ⟨directory, pending', learnt⟩ := learn_frame heard source
    (r.newSponsor.id.toNat - 1) r.predecessorPublic
  rw [eq]
  rw [← endpoint] at foreign
  refine ⟨(covers_learn foreign _ _).mono (subset_learn _ _ _ _), ?_⟩
  by_cases own : r.newSponsor.endpoint = c.endpoint
  · exact .inl own
  · refine .inr (covers_learn ?_ _ _)
    rw [learnt, endpoint]
    exact own

theorem Move.directory_subset (move : Move kx cause c said d) :
    c.directory.entries ⊆ d.directory.entries := by
  cases move with
  | learn endpoint id value => exact subset_learn c endpoint id value
  | enqueue service value source =>
    obtain ⟨pending, waiting⟩ := enqueue_frame c ⟨source, value⟩
    rw [waiting]
    exact List.Subset.refl _
  | openGroup | takeSeat | enrol => exact Directory.subset_record _ _ _ _
  | _ => exact List.Subset.refl _

theorem Follows.directory_subset (follows : Follows kx cause c t) :
    c.directory.entries ⊆ t.member.directory.entries :=
  follows.keeps (P := fun d ↦ c.directory.entries ⊆ d.directory.entries) (List.Subset.refl _)
    fun before move ↦ List.Subset.trans before move.directory_subset

/-- The candidate is a member already, or its value is rejected. -/
def Unfit (kx : KeyExchange) (c : Chain) (s : Seat) (candidate : Candidate) : Prop :=
  c.directory.containsEndpoint candidate.endpoint = true ∨
    ∃ e, seatAfter kx s candidate = .error e

/-- There is nobody waiting that the member could let in. -/
def Idle (kx : KeyExchange) (c : Chain) : Prop :=
  ∀ s, c.seat = some s → c.isOpen = true → c.gapsBelow = [] → ∀ p ∈ c.pending, c.Unfit kx s p

theorem Idle.of_part (idle : c.Idle kx) {agenda : Agenda} {handOver : Option HandOver}
    {pending : List Candidate} (part : pending ⊆ c.pending) :
    ({ c with agenda, handOver, pending } : Chain).Idle kx :=
  fun s seat isOpen known p here ↦ idle s seat isOpen known p (part here)

theorem enrolFirst_of_unfit {s : Seat} {t : Turn Chain} {candidate : Candidate}
    (unfit : t.member.Unfit kx s candidate) (queue : List Candidate) :
    enrolFirst kx s (candidate :: queue) t = enrolFirst kx s queue t := by
  rw [enrolFirst]
  split
  · rfl
  · next unknown =>
    obtain ⟨fault, rejected⟩ := unfit.resolve_left unknown
    rw [rejected]

theorem enrolFirst_of_granted {s new : Seat} {before : PublicValue} {t : Turn Chain}
    {candidate : Candidate}
    (unknown : ¬ t.member.directory.containsEndpoint candidate.endpoint = true)
    (granted : seatAfter kx s candidate = .ok (new, before)) (queue : List Candidate) :
    enrolFirst kx s (candidate :: queue) t =
      enrol s new before candidate (t.modify fun c ↦ { c with pending := queue }) := by
  rw [enrolFirst, if_neg unknown, granted]

/-- Either the whole queue is unfit and forgotten, or somebody is let in. -/
theorem enrolFirst_cases (kx : KeyExchange) (s : Seat) (queue : List Candidate) (t : Turn Chain) :
    ((∀ p ∈ queue, t.member.Unfit kx s p) ∧
      ∃ agenda, (enrolFirst kx s queue t).member = { t.member with agenda, pending := [] }) ∨
    ∃ new before candidate rest, candidate ∈ queue ∧ ¬ t.member.Unfit kx s candidate ∧
      seatAfter kx s candidate = .ok (new, before) ∧
      enrolFirst kx s queue t =
        enrol s new before candidate (t.modify fun c ↦ { c with pending := rest }) := by
  induction queue with
  | nil =>
    obtain ⟨agenda, member⟩ := Turn.member_keepSending (t.modify fun c ↦ { c with pending := [] })
      .offer none t.member.offerMessage
    exact .inl ⟨by simp, agenda, member⟩
  | cons candidate queue ih =>
    by_cases unfit : t.member.Unfit kx s candidate
    · rw [enrolFirst_of_unfit unfit]
      rcases ih with ⟨rest, agenda, member⟩ | ⟨new, before, other, rest, here, fit, granted, eq⟩
      · exact .inl ⟨List.forall_mem_cons.mpr ⟨unfit, rest⟩, agenda, member⟩
      · exact .inr ⟨new, before, other, rest, List.mem_cons_of_mem _ here, fit, granted, eq⟩
    · cases granted : seatAfter kx s candidate with
      | error fault => exact absurd (.inr ⟨fault, granted⟩) unfit
      | ok result =>
        obtain ⟨new, before⟩ := result
        have unknown := fun listed ↦ unfit (.inl listed)
        exact .inr ⟨new, before, candidate, queue, List.mem_cons_self, unfit, granted,
          enrolFirst_of_granted unknown granted queue⟩

/-- To let somebody in repeats the hand-over from then on. -/
theorem enrol_frame (old new : Seat) (before : PublicValue) (candidate : Candidate)
    (t : Turn Chain) :
    ∃ agenda : Agenda, ∃ announced, (enrol old new before candidate t).member =
      { t.member with
        agenda, announced
        seat := some new
        directory := (t.member.directory.record candidate.endpoint (old.id + 1)
          candidate.publicValue).2
        handOver := some { response := t.member.responseFor (old.id + 1) candidate before } } ∧
      agenda.isArmed .response := by
  rw [enrol_eq]
  generalize reported : reportKey (letIn old new before candidate t) = u
  obtain ⟨announced, announce⟩ := Follows.member_announceKey
    (u.keepSending .response none
      (.response (t.member.responseFor (old.id + 1) candidate before)))
  obtain ⟨agenda, sent, armed⟩ := arms_keepSending u .response none
    (.response (t.member.responseFor (old.id + 1) candidate before))
  refine ⟨agenda, announced, ?_, by simp [armed]⟩
  rw [announce, sent, ← reported, Follows.member_reportKey, Follows.member_letIn]

/-- A sponsor that looks after its queue lets somebody in, or there was nobody to be let in. -/
theorem attendQueue_cases (kx : KeyExchange) (t : Turn Chain) :
    (t.member.Idle kx ∧ ∃ agenda pending, pending ⊆ t.member.pending ∧
      (attendQueue kx t).member = { t.member with agenda, pending }) ∨
    ¬ t.member.Idle kx ∧ ∃ s new before candidate, t.member.seat = some s ∧
      t.member.isOpen = true ∧ seatAfter kx s candidate = .ok (new, before) ∧
      ∃ handOver agenda announced pending, (attendQueue kx t).member =
        { t.member with
          handOver, agenda, announced, pending
          seat := some new
          directory := (t.member.directory.record candidate.endpoint (s.id + 1)
            candidate.publicValue).2 } := by
  unfold attendQueue
  split
  · next free =>
    refine .inl ⟨fun s seat ↦ ?_, t.member.agenda, t.member.pending, List.Subset.refl _, rfl⟩
    rw [free] at seat
    cases seat
  · next s seat =>
    split
    · next closed =>
      refine .inl ⟨fun _ _ isOpen ↦ ?_, t.member.agenda, t.member.pending, List.Subset.refl _,
        rfl⟩
      rw [isOpen] at closed
      cases closed
    · next notClosed =>
      have isOpen : t.member.isOpen = true := by simpa using notClosed
      dsimp only
      split
      · next gaps =>
        have known : t.member.gapsBelow = [] := by simpa using gaps
        rw [Follows.member_cancel]
        rcases enrolFirst_cases kx s t.member.pending (t.cancel .infoRequest) with
          ⟨unfit, agenda, member⟩ | ⟨new, before, candidate, rest, here, fit, granted, eq⟩
        · rw [Follows.member_cancel] at unfit member
          refine .inl ⟨fun s' seat' _ _ ↦ ?_, agenda, [], List.nil_subset _, member⟩
          cases seat.symm.trans seat'
          exact unfit
        · rw [Follows.member_cancel] at fit
          obtain ⟨agenda, announced, member, -⟩ := enrol_frame s new before candidate
            ((t.cancel .infoRequest).modify fun c ↦ { c with pending := rest })
          rw [← eq, Turn.member_modify, Follows.member_cancel] at member
          exact .inr ⟨fun idle ↦ fit (idle s seat isOpen known candidate here), s, new, before,
            candidate, seat, isOpen, granted, _, agenda, announced, rest, member⟩
      · next gaps =>
        obtain ⟨agenda, member⟩ := t.member_keepSending .infoRequest none
          (t.member.questionMessage .joining t.member.gapsBelow)
        refine .inl ⟨fun _ _ _ known ↦ ?_, agenda, t.member.pending, List.Subset.refl _, member⟩
        rw [known] at gaps
        exact absurd rfl gaps

/-- Who is still the sponsor has let nobody in. -/
theorem attendQueue_of_sponsor (still : (attendQueue kx t).member.isSponsor = true) :
    t.member.Idle kx ∧ ∃ agenda pending, pending ⊆ t.member.pending ∧
      (attendQueue kx t).member = { t.member with agenda, pending } := by
  rcases attendQueue_cases kx t with here | ⟨-, s, new, before, candidate, -, -, granted, handOver,
    agenda, announced, pending, member⟩
  · exact here
  · obtain ⟨tree, -, -, rfl⟩ := seatAfter_eq_ok granted
    rw [member] at still
    cases still

/-- There is nothing left that the member could do with what it knows. -/
structure Settled (kx : KeyExchange) (c : Chain) : Prop where
  idle : c.Idle kx
  stuck : ∀ s, c.seat = some s → s.sponsor = false →
    s.Stuck kx c.directory.publicOf? c.size

/-- A member that can let somebody in is the newest that its directory knows of. -/
def Newest (c : Chain) : Prop :=
  ∀ s, c.seat = some s → c.isOpen = true →
    s.keysComputed = 1 ∧ ∀ e ∈ c.directory.entries, e.id ≤ s.id

theorem Recalls.settled (recalls : c.Recalls d) (settled : c.Settled kx) : d.Settled kx := by
  obtain ⟨handOver, pending, -, part, rfl⟩ := recalls
  exact ⟨settled.idle.of_part part, settled.stuck⟩

theorem makeProgress_of_settled (settled : t.member.Settled kx) :
    t.member.Stays (makeProgress kx t).member := by
  unfold makeProgress
  split
  · exact .refl _
  · next s seat =>
    split
    · rcases attendQueue_cases kx t with ⟨-, agenda, pending, -, member⟩ | ⟨busy, -⟩
      · rw [member]
        exact ⟨rfl, rfl, rfl⟩
      · exact absurd settled.idle busy
    · next other =>
      obtain ⟨s', announced, member, climbs, -⟩ := cascade_climbs kx seat
      obtain ⟨agenda, token, tended⟩ := tendToken_frame (cascade kx t)
      have stuck := settled.stuck s seat (by simpa using other)
      rw [tended, member, ← stuck.eq_of_gains climbs, ← seat]
      exact ⟨rfl, rfl, rfl⟩

theorem makeProgress_of_recalls (recalls : d.Recalls t.member) (settled : d.Settled kx) :
    d.Stays (makeProgress kx t).member :=
  recalls.stays.trans (makeProgress_of_settled (recalls.settled settled))

/-- A member that has gone as far as it can is settled. -/
theorem settled_makeProgress (newest : t.member.Newest) :
    (makeProgress kx t).member.Settled kx := by
  unfold makeProgress
  split
  · next free =>
    refine ⟨fun s seat ↦ ?_, fun s seat ↦ ?_⟩
    all_goals
      rw [free] at seat
      cases seat
  · next s seat =>
    split
    · next sponsor =>
      rcases attendQueue_cases kx t with ⟨idle, agenda, pending, part, member⟩ |
        ⟨-, s', new, before, candidate, seat', isOpen, granted, handOver, agenda, announced,
          pending, member⟩
      · rw [member]
        refine ⟨idle.of_part part, fun s' seat' other ↦ ?_⟩
        cases seat.symm.trans seat'
        rw [sponsor] at other
        cases other
      · obtain ⟨tree, -, -, rfl⟩ := seatAfter_eq_ok granted
        obtain ⟨one, upper⟩ := newest s' seat' isOpen
        rw [member]
        refine ⟨?_, ?_⟩
        · rintro _ - shut
          simp [Chain.isOpen] at shut
        · -- Nobody behind the newcomer can be known.
          rintro _ ⟨⟩ - next ⟨-, value, -, known, -⟩
          obtain ⟨e, here, id, -⟩ := Directory.publicOf?_eq_some known
          dsimp only at id
          rcases Directory.mem_record here with old | rfl
          · have := upper e old
            omega
          · dsimp only at id
            omega
    · next other =>
      obtain ⟨s', announced, member, climbs, stuck⟩ := cascade_climbs kx seat
      obtain ⟨agenda, token, tended⟩ := tendToken_frame (cascade kx t)
      obtain ⟨-, -, sponsor, -⟩ := Seat.grown_of_gains climbs
      have idle : s'.sponsor = false := sponsor.trans (by simpa using other)
      rw [tended, member]
      refine ⟨?_, ?_⟩
      · rintro _ ⟨⟩ isOpen
        simp [Chain.isOpen, idle] at isOpen
      · rintro _ ⟨⟩ -
        exact stuck

/-! ## Second copies -/

/-- An answer that is heard again. -/
theorem takeAnswer_again (kx : KeyExchange) {service : ServiceId} {number : MemberId}
    {value : PublicValue} (foreign : source ≠ c.endpoint)
    (newest : ((c.hearAssigned source).learn source number.toNat value).Newest)
    (first : d = (takeAnswer kx service number value source { member := c }).member) :
    d.Stays (takeAnswer kx service number value source { member := d }).member := by
  unfold takeAnswer at first ⊢
  split
  · exact .refl d
  · next heeded =>
    split at first
    · next ignored =>
      subst first
      exact absurd ignored heeded
    · obtain ⟨handOver, hear⟩ := hearAssigned_frame c source
      have same : (c.hearAssigned source).endpoint = c.endpoint := by rw [hear]
      have grows := ((Follows.start kx .start
        ((c.hearAssigned source).learn source number.toNat value)).makeProgress).directory_subset
      have covers := (covers_learn (same ▸ foreign) number.toNat value).mono grows
      have settled : d.Settled kx := by
        rw [first]
        exact settled_makeProgress newest
      have heard := recalls_hearAssigned d source
      obtain ⟨handOver', pending, -, -, hear'⟩ := id heard
      have recalls : d.Recalls ((d.hearAssigned source).learn source number.toNat value) := by
        refine heard.trans (recalls_learn (.inr ?_) value)
        rw [hear', first]
        exact covers
      exact makeProgress_of_recalls recalls settled

theorem mem_enqueue {candidate : Candidate}
    (truthful : ∀ p ∈ c.pending, p.endpoint = candidate.endpoint → p = candidate) :
    candidate ∈ (c.enqueue candidate).pending := by
  unfold enqueue
  split
  · next waits =>
    obtain ⟨p, here, same⟩ := List.any_eq_true.mp waits
    rw [← truthful p here (by simpa using same)]
    exact here
  · simp

theorem pending_enqueue_subset (c : Chain) (candidate : Candidate) :
    (c.enqueue candidate).pending ⊆ c.pending ++ [candidate] := by
  unfold enqueue
  split
  · exact List.subset_append_left _ _
  · exact List.Subset.refl _

theorem stays_answerRequest (kx : KeyExchange) {service : ServiceId} {value : PublicValue}
    (idle : d.isSponsor = true → (d.enqueue ⟨source, value⟩).Idle kx) :
    d.Stays (answerRequest kx service value source { member := d }).member := by
  obtain ⟨waiting, asks⟩ := enqueue_frame d ⟨source, value⟩
  unfold answerRequest
  split
  · exact .refl d
  · split
    · exact .refl d
    · dsimp only
      split
      · next sponsor =>
        rw [Turn.member_modify, asks] at sponsor
        rcases attendQueue_cases kx
          (({ member := d } : Turn Chain).modify fun c ↦ c.enqueue ⟨source, value⟩) with
          ⟨-, agenda, pending, -, member⟩ | ⟨busy, -⟩
        · rw [member, Turn.member_modify, asks]
          exact ⟨rfl, rfl, rfl⟩
        · exact absurd (idle sponsor) busy
      · rw [Turn.member_modify, asks]
        exact ⟨rfl, rfl, rfl⟩

/-- A request that is heard again, from somebody who always asks with the same value. -/
theorem answerRequest_again (kx : KeyExchange) {service : ServiceId} {value : PublicValue}
    (truthful : ∀ p ∈ c.pending, p.endpoint = source → p = ⟨source, value⟩)
    (first : d = (answerRequest kx service value source { member := c }).member) :
    d.Stays (answerRequest kx service value source { member := d }).member := by
  unfold answerRequest at first
  split at first
  · next ignored =>
    subst first
    unfold answerRequest
    rw [if_pos ignored]
    exact .refl _
  · split at first
    · next ignored known =>
      subst first
      unfold answerRequest
      rw [if_neg ignored, if_pos known]
      exact .refl _
    · refine stays_answerRequest kx fun sponsor ↦ ?_
      obtain ⟨waiting, asks⟩ := enqueue_frame c ⟨source, value⟩
      dsimp only at first
      split at first
      · -- Still a sponsor, it could let in nobody who waited, and the candidate was among them.
        rw [first] at sponsor
        obtain ⟨idle, agenda, pending, part, member⟩ := attendQueue_of_sponsor sponsor
        rw [Turn.member_modify] at idle part member
        have waited : pending ++ [⟨source, value⟩] ⊆ (c.enqueue ⟨source, value⟩).pending :=
          List.append_subset.mpr ⟨part, by simpa using mem_enqueue truthful⟩
        have all : (d.enqueue ⟨source, value⟩).pending ⊆ (c.enqueue ⟨source, value⟩).pending := by
          refine List.Subset.trans (pending_enqueue_subset d ⟨source, value⟩) ?_
          rw [first, member]
          exact waited
        obtain ⟨pending', asks'⟩ := enqueue_frame d ⟨source, value⟩
        rw [asks'] at all ⊢
        rw [first, member]
        exact idle.of_part all
      · next other =>
        rw [first] at sponsor
        exact absurd sponsor other

theorem isSome_seat_openOffice (kx : KeyExchange) (seat : t.member.seat = some s) :
    (openOffice kx s t).member.seat.isSome := by
  unfold openOffice passToken
  dsimp only
  split
  · split
    · obtain ⟨agenda, member⟩ := t.member_keepSending .offer none t.member.offerMessage
      rw [member]
      exact Option.isSome_iff_exists.mpr ⟨s, seat⟩
    · rcases attendQueue_cases kx t with ⟨-, agenda, pending, -, member⟩ |
        ⟨-, s', new, before, candidate, -, -, -, handOver, agenda, announced, pending, member⟩
      · rw [member]
        exact Option.isSome_iff_exists.mpr ⟨s, seat⟩
      · rw [member]
        rfl
  · obtain ⟨announced, announce⟩ := Follows.member_announceKey
      (t.modify fun c ↦ { c with seat := some { s with sponsor := false } })
    split
    · next next _ =>
      obtain ⟨agenda, member⟩ := Turn.member_keepSending
        ((announceKey (t.modify fun c ↦ { c with seat := some { s with sponsor := false } })).modify
          fun c ↦ { c with token.passed := true }) .synchToken none (tokenMessage next)
      rw [member, Turn.member_modify, announce]
      rfl
    · rw [announce]
      rfl

/-- A member that is named takes its seat, or the group's value is rejected. -/
theorem takeSeat_cases (kx : KeyExchange) (groupPublic : PublicValue) (id : Nat) (t : Turn Chain) :
    ((∃ e, firstSeat kx t.member.keys groupPublic id = .error e) ∧
      (takeSeat kx groupPublic id t).member = t.member) ∨
    (takeSeat kx groupPublic id t).member.seat.isSome := by
  unfold takeSeat
  cases granted : firstSeat kx t.member.keys groupPublic id with
  | error e => exact .inl ⟨⟨e, rfl⟩, rfl⟩
  | ok s =>
    refine .inr (isSome_seat_openOffice kx ?_)
    rw [Follows.member_reportKey, Turn.member_emit, Turn.member_emit, Follows.member_cancel,
      Follows.member_cancel]
    rfl

theorem stays_answerResponse (kx : KeyExchange) (recalls : d.Recalls (learnFrom r source d))
    (settled : r.newSponsor.endpoint ≠ d.endpoint → d.Settled kx)
    (denied : r.newSponsor.endpoint = d.endpoint → d.seat = none →
      r.newSponsor.publicValue = d.keys.publicValue →
      ∃ e, firstSeat kx d.keys r.groupPublic r.newSponsor.id.toNat = .error e) :
    d.Stays (answerResponse kx r source { member := d }).member := by
  obtain ⟨handOver, pending, -, -, learnt⟩ := id recalls
  unfold answerResponse
  split
  · exact .refl d
  · split
    · exact .refl d
    · dsimp only
      split
      · next named =>
        rw [Turn.member_modify, learnt] at named
        split
        · exact recalls.stays
        · next free =>
          rw [Turn.member_modify, learnt, Bool.or_eq_true, not_or] at free
          have value := Decidable.byContradiction fun differs ↦ free.2 (decide_eq_true differs)
          obtain ⟨e, rejected⟩ := denied named (by simpa using free.1) value
          have same : (takeSeat kx r.groupPublic r.newSponsor.id.toNat
              (({ member := d } : Turn Chain).modify (learnFrom r source))).member =
                learnFrom r source d := by
            unfold takeSeat
            rw [Turn.member_modify, learnt, rejected]
            exact learnt
          rw [same]
          exact recalls.stays
      · next other =>
        rw [Turn.member_modify, learnt] at other
        exact makeProgress_of_recalls recalls (settled other)

/-- A hand-over that is heard again. -/
theorem answerResponse_again (kx : KeyExchange) (foreign : source ≠ c.endpoint)
    (endpoint : d.endpoint = c.endpoint) (newest : (learnFrom r source c).Newest)
    (first : d = (answerResponse kx r source { member := c }).member) :
    d.Stays (answerResponse kx r source { member := d }).member := by
  obtain ⟨handOver, directory, pending, frame⟩ := Follows.learnFrom_frame r source c
  obtain ⟨sender, newcomer⟩ := covers_learnFrom foreign r
  have begun := Follows.start kx (.message (.response r) source) (learnFrom r source c)
  -- Whatever became of the member, it has not forgotten what it was told.
  have again (grows : (learnFrom r source c).directory.entries ⊆ d.directory.entries)
      (settled : r.newSponsor.endpoint ≠ d.endpoint → d.Settled kx)
      (denied : r.newSponsor.endpoint = d.endpoint → d.seat = none →
        r.newSponsor.publicValue = d.keys.publicValue →
        ∃ e, firstSeat kx d.keys r.groupPublic r.newSponsor.id.toNat = .error e) :
      d.Stays (answerResponse kx r source { member := d }).member := by
    refine stays_answerResponse kx (recalls_learnFrom (sender.mono grows) ?_) settled denied
    rw [endpoint]
    exact newcomer.imp id fun covers ↦ covers.mono grows
  unfold answerResponse at first
  split at first
  · next ignored =>
    subst first
    unfold answerResponse
    rw [if_pos ignored]
    exact .refl _
  · next heeded =>
    split at first
    · next count =>
      subst first
      unfold answerResponse
      rw [if_neg heeded, if_pos count]
      exact .refl _
    · next count =>
      dsimp only at first
      split at first
      · next own =>
        have named : r.newSponsor.endpoint = d.endpoint := by
          rw [endpoint, own, Turn.member_modify, frame]
        split at first
        · next refused =>
          rw [Turn.member_modify] at first refused
          refine again (first ▸ List.Subset.refl _) (absurd named) ?_
          intro _ free value
          rw [← first, free, value] at refused
          simp at refused
        · next free =>
          rw [Bool.or_eq_true, not_or] at free
          have value := Decidable.byContradiction fun differs ↦ free.2 (decide_eq_true differs)
          have counted : r.memberCount = (learnFrom r source c).config.memberCount := by
            rw [frame]
            simpa using count
          have running : (learnFrom r source c).finished = false := by
            rw [frame]
            simp_all
          have grows := (begun.takeSeat rfl own value counted (by simpa using free.1)
            running).directory_subset
          refine again (first ▸ grows) (absurd named) ?_
          intro _ free value
          rcases takeSeat_cases kx r.groupPublic r.newSponsor.id.toNat
            (({ member := c } : Turn Chain).modify (learnFrom r source)) with
            ⟨rejected, member⟩ | seated
          · rw [first, member]
            exact rejected
          · rw [← first, free] at seated
            cases seated
      · next other =>
        have grows := begun.makeProgress.directory_subset
        have settled : d.Settled kx := by
          rw [first]
          exact settled_makeProgress newest
        refine again (first ▸ grows) (fun _ ↦ settled) fun named ↦ ?_
        rw [Turn.member_modify, frame, ← endpoint] at other
        exact absurd named other

end Chain

/-- Requests, hand-overs and answers. -/
def Message.Tidings : Message → Prop
  | .request _ _ => True
  | .response _ => True
  | .infoResponse _ _ _ _ => True
  | _ => False

namespace Roster

variable {ι : Type} {g : Roster ι} {kx : KeyExchange} {w : World ι} {i : ι} {cause : Input}
  {t : Turn Chain} {order : List ι}

theorem Ordered.newest (sound : g.Sound w) (ordered : g.Ordered w order) :
    (w.members i).Newest := by
  intro s seat isOpen
  obtain ⟨last, one, -⟩ := ordered.last_of_isOpen sound seat isOpen
  refine ⟨one, fun e here ↦ ?_⟩
  obtain ⟨j, listed, -⟩ := (ordered.placed i).directory e here
  rw [last]
  exact listed.le_length

/-- Who asks twice asks with the same value. -/
theorem Ordered.truthful (sound : g.Sound w) (ordered : g.Ordered w order) {service : ServiceId}
    {value : PublicValue} {source : Endpoint}
    (hears : w.Hears i (.message (.request service value) source)) :
    ∀ p ∈ (w.members i).pending, p.endpoint = source → p = ⟨source, value⟩ := by
  intro p here same
  obtain ⟨j, -, sender, own⟩ := sound.heard hears
  obtain ⟨k, rfl⟩ := (ordered.placed i).pending p here
  obtain rfl := g.endpoint_injective (same.trans sender)
  rw [sender, own, sound.keys]
  rfl

variable [DecidableEq ι]

/-- The same holds of a member in the middle of what it does. -/
theorem Ordered.newest_of_follows (sound : g.Sound w) (ordered : g.Ordered w order)
    (hears : w.Hears i cause) (follows : Chain.Follows kx cause (w.members i) t) :
    t.member.Newest := by
  obtain ⟨sound', order', ordered'⟩ := sound.act_induction
    (P := fun v ↦ ∃ order, g.Ordered v order) hears follows ⟨order, ordered⟩
    fun sound hears move ⟨_, before⟩ ↦ by
      obtain ⟨order', -, after⟩ := before.act sound hears move
      exact ⟨order', after⟩
  have newest := ordered'.newest sound' (i := i)
  rwa [World.act_self] at newest

/-- What a member of a group heard it may as well hear again. -/
theorem Reaches.stays (reaches : g.Reaches kx w) {m : Message} {source : Endpoint}
    (tidings : m.Tidings) (hears : w.Hears i (.message m source)) {d : Chain}
    (endpoint : d.endpoint = (w.members i).endpoint)
    (first : d = (Chain.answer kx m source { member := w.members i }).member) :
    d.Stays (Chain.answer kx m source { member := d }).member := by
  have sound := reaches.sound
  obtain ⟨order, ordered⟩ := reaches.ordered
  have begun := Chain.Follows.start kx (.message m source) (w.members i)
  cases m with
  | request service value =>
    exact Chain.answerRequest_again kx (ordered.truthful sound hears) first
  | response r =>
    exact Chain.answerResponse_again kx hears.2.1 endpoint
      (ordered.newest_of_follows sound hears (begun.learnFrom rfl)) first
  | infoResponse phase service id value =>
    have told : Chain.Tells (.message (.infoResponse phase service id value) source)
        source id.toNat value := .inl ⟨phase, service, id, rfl, rfl⟩
    exact Chain.takeAnswer_again kx hears.2.1 (ordered.newest_of_follows sound hears
      ((begun.hearAssigned rfl trivial).learn told)) first
  | _ => exact tidings.elim

end Roster

/-! ## Copies on the network -/

/-- What a second copy must not change. -/
structure Chain.Steady (c d : Chain) : Prop where
  memberId : d.memberId? = c.memberId?
  sponsor : d.isSponsor = c.isSponsor
  keys : d.keysComputed = c.keysComputed
  tree : d.tree? = c.tree?
  directory : d.directory = c.directory
  heir : d.heir? = c.heir?
  response : d.handOver.map HandOver.response = c.handOver.map HandOver.response

theorem Chain.Stays.steady {c d : Chain} (stays : c.Stays d) : c.Steady d := by
  obtain ⟨seat, directory, response⟩ := stays
  have heir := congrArg (Option.map fun r : Response ↦ r.newSponsor.endpoint) response
  rw [Option.map_map, Option.map_map] at heir
  refine ⟨?_, ?_, ?_, ?_, directory, heir, response⟩
  · rw [Chain.memberId?, seat, Chain.memberId?]
  · rw [Chain.isSponsor, seat, Chain.isSponsor]
  · rw [Chain.keysComputed, seat, Chain.keysComputed]
  · rw [Chain.tree?, seat, Chain.tree?]

/-- The arrival of a message at a member. -/
def Dispatch.arrival (x : Dispatch) : Input := .datagram x.message.encode x.source

/-- A datagram is dropped, or its message is heard, by members of that endpoint in any state. -/
theorem World.arrives {ι : Type} {w : World ι} {i : ι} {x : Dispatch} (kx : KeyExchange)
    (allowed : w.Allows i x.arrival) :
    (Chain.protocol kx).step x.arrival (w.members i) = { member := w.members i } ∨
      w.Hears i (.message x.message x.source) ∧
        ∀ d : Chain, d.endpoint = (w.members i).endpoint →
          (Chain.protocol kx).step x.arrival d =
            Chain.answer kx x.message x.source { member := d } := by
  obtain ⟨started, short, y, sent, source, bytes, -⟩ := allowed
  by_cases own : x.source = (w.members i).endpoint
  · exact .inl (Protocol.receive_own own)
  · cases decoded : Message.decode x.message.encode with
    | error e => exact .inl (Protocol.receive_of_error own decoded)
    | ok m =>
      obtain rfl := Message.eq_of_decode_encode short decoded
      rw [← bytes] at short
      have said := Message.eq_of_decode_encode short (bytes ▸ decoded)
      refine .inr ⟨⟨started, own, y, sent, source, said.symm⟩, fun d endpoint ↦ ?_⟩
      have foreign : x.source ≠ d.endpoint := fun same ↦ own (same.trans endpoint)
      exact Protocol.receive_of_ok foreign decoded

/-- Wherever a group of any size can get, the second copy of a request, of a hand-over or of an
answer changes neither what its receiver is, nor its keys, nor what it knows, nor whom it let in. -/
theorem Lineup.second_copy_changes_nothing {ι : Type} [DecidableEq ι] {l : Lineup ι}
    {kx : KeyExchange} {w : World ι} (reaches : l.Reaches kx w) {i : ι} {x : Dispatch}
    (tidings : x.message.Tidings) (allowed : w.Allows i x.arrival) :
    ((Chain.protocol kx).after (w.members i) [x.arrival]).Steady
      ((Chain.protocol kx).after (w.members i) [x.arrival, x.arrival]) := by
  refine Chain.Stays.steady ?_
  change ((Chain.protocol kx).step x.arrival (w.members i)).member.Stays
    ((Chain.protocol kx).step x.arrival
      ((Chain.protocol kx).step x.arrival (w.members i)).member).member
  rcases World.arrives kx allowed with dropped | ⟨hears, answered⟩
  · rw [dropped, dropped]
    exact .refl _
  · have positive : 0 < (l.config i).size := MemberConfig.size_pos (l.accepted i)
    rw [MemberConfig.size, l.memberCount_eq] at positive
    by_cases one : l.memberCount = 1
    · obtain ⟨-, -, y, sent, -, said⟩ := hears
      obtain ⟨service, search⟩ := (reaches.quiet one).searches y sent
      rw [← said, search] at tidings
      exact tidings.elim
    · have two : 2 ≤ l.memberCount.toNat := by
        have other : l.memberCount.toNat ≠ 1 := fun same ↦ one (UInt16.toNat_inj.mp same)
        omega
      have reaches' : (l.roster two).Reaches kx w := reaches
      have next : (l.roster two).Reaches kx (w.react kx i x.arrival) :=
        reaches.tail ⟨i, _, allowed, rfl⟩
      have endpoint : ((Chain.protocol kx).step x.arrival (w.members i)).member.endpoint =
          (w.members i).endpoint := by
        have same := next.sound.endpoint i
        rw [World.react, World.act_self] at same
        rw [same, reaches'.sound.endpoint]
      rw [answered _ endpoint]
      exact reaches'.stays tidings hears endpoint (by rw [answered _ rfl])

namespace Trio

/-- The three as a lineup. -/
def lineup : Lineup (Fin 3) := { roster with }

/-- Up to the second member's request. -/
def inquiry : World (Fin 3) := roster.world.play exchange (script.take 5)

def request : Dispatch :=
  ⟨roster.endpoint second, none, .request 7 (roster.publicValue second)⟩

end Trio

/-- The opener lets the second member in when it hears its request, and not once more when it hears
a copy. -/
theorem second_copy_changes_nothing_trio :
    ((Chain.protocol Trio.exchange).after (Trio.inquiry.members 0)
      [Trio.request.arrival]).Steady
        ((Chain.protocol Trio.exchange).after (Trio.inquiry.members 0)
          [Trio.request.arrival, Trio.request.arrival]) ∧
    (Trio.inquiry.members 0).keysComputed = 1 ∧
    ((Chain.protocol Trio.exchange).after (Trio.inquiry.members 0)
      [Trio.request.arrival]).keysComputed = 2 := by
  have admits : Trio.roster.world.Admits Trio.exchange (Trio.script.take 5) := by decide +kernel
  have reaches : Trio.lineup.Reaches Trio.exchange Trio.inquiry := World.leads_play admits
  exact ⟨Lineup.second_copy_changes_nothing reaches trivial (by decide +kernel),
    by decide +kernel, by decide +kernel⟩

end GroupKey
