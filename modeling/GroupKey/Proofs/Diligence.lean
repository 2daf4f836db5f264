import GroupKey.Proofs.Duties

/-!
# No reaction neglects a duty

One lemma for each reaction of a chained member: if a duty was met before it, the duty is met after
it.  Where a reaction is the one that takes a duty up, nothing need be known of this duty before.
What passes from phase to phase is seen in these exceptions.
-/

namespace GroupKey.Chain

variable {kx : KeyExchange} {c : Chain} {t : Turn Chain} {duty : Duty} {task : Task}

/-- To apply values changes the seat only. -/
theorem applyAll_frame (kx : KeyExchange) (ids : List Nat) (t : Turn Chain) :
    ∃ seat, (applyAll kx ids t).member = { t.member with seat } := by
  induction ids generalizing t with
  | nil => exact ⟨t.member.seat, rfl⟩
  | cons id ids ih =>
    unfold applyAll
    split
    · split
      · exact ⟨t.member.seat, rfl⟩
      · obtain ⟨seat, member⟩ := ih _
        rw [member, Follows.member_reportKey]
        exact ⟨seat, rfl⟩
    · exact ⟨t.member.seat, rfl⟩

theorem cascade_frame (kx : KeyExchange) (t : Turn Chain) :
    ∃ seat announced, (cascade kx t).member = { t.member with seat, announced } := by
  unfold cascade
  split
  · obtain ⟨announced, announce⟩ := Follows.member_announceKey (applyAll kx _ t)
    obtain ⟨seat, apply⟩ := applyAll_frame kx _ t
    rw [announce, apply]
    exact ⟨seat, announced, rfl⟩
  · exact ⟨t.member.seat, t.member.announced, rfl⟩

namespace Mindful

/-- With the token taken the duty to repeat it is over. -/
theorem seeTokenTaken (mindful : t.member.Mindful duty) :
    (Chain.seeTokenTaken t).member.Mindful duty := by
  unfold Chain.seeTokenTaken
  split
  · exact mindful
  · have taken : (t.modify fun c ↦ { c with token.taken := true }).member.Mindful duty := by
      refine mindful.mono rfl (fun due ↦ ?_) fun met ↦ ?_
      · cases duty with
        | token => cases due.2.1
        | _ => exact due
      · cases duty <;> exact met
    refine taken.cancel fun serves due ↦ ?_
    cases serves
    cases due.2.1

/-- To pass the token on takes care of all that is due with the token. -/
theorem passToken (seated : t.member.seat.isSome)
    (before : duty ≠ .opening → duty ≠ .passOn → duty ≠ .token → t.member.Mindful duty) :
    (Chain.passToken t).member.Mindful duty := by
  obtain ⟨s, seat⟩ := Option.isSome_iff_exists.mp seated
  unfold Chain.passToken successorId? memberId?
  rw [seat]
  refine keepSending fun other ↦ ?_
  cases duty with
  | opening => exact fun _ _ ↦ rfl
  | passOn => exact fun _ _ ↦ rfl
  | token => exact absurd rfl other
  | _ => exact (before (by decide) (by decide) (by decide)).mono rfl (fun due ↦ due) fun met ↦ met

/-- Tending the token sees to the question and to passing it on, whatever was seen to before. -/
theorem tendToken (order : t.member.token.taken → t.member.token.passed)
    (before : duty ≠ .question → duty ≠ .passOn → t.member.Mindful duty) :
    (Chain.tendToken t).member.Mindful duty := by
  unfold Chain.tendToken
  dsimp only
  split
  · next guard =>
    have idle (running : t.member.finished = false) (held : t.member.token.held)
        (still : t.member.isClosing = false) : False := by
      simp [running, held, still] at guard
    cases duty with
    | question => exact fun running due ↦ (idle running due.1 due.2.1).elim
    | passOn => exact fun running due ↦ (idle running due.1 due.2.1).elim
    | _ => exact before (by decide) (by decide)
  · split
    · next complete =>
      have answered : duty ≠ .passOn → (t.cancel .synchRequest).member.Mindful duty := by
        intro other
        refine cancel (except .question (fun other' ↦ before other' other) ?_) ?_
        · exact fun _ due ↦ absurd (gapsAbove_of_isComplete complete) due.2.2
        · intro serves due
          cases serves
          exact due.2.2 (gapsAbove_of_isComplete complete)
      split
      · next taken =>
        rw [Follows.member_cancel] at answered taken ⊢
        exact except .passOn answered fun _ _ ↦ order taken
      · refine passToken ?_ fun _ other _ ↦ answered other
        rw [Follows.member_cancel]
        exact isSome_seat_of_isComplete complete
    · next incomplete =>
      have passOn : t.member.Mindful .passOn := fun _ due ↦ absurd due.2.2 incomplete
      split
      · next gaps =>
        have known : t.member.gapsAbove = [] := by simpa using gaps
        refine except .question (fun other ↦ except .passOn (before other) passOn) ?_
        exact fun _ due ↦ absurd known due.2.2
      · refine keepSending fun other ↦ except .passOn (before ?_) passOn
        rintro rfl
        exact other rfl

theorem applyAll (ids : List Nat) (mindful : t.member.Mindful duty) (other : duty ≠ .passOn) :
    (Chain.applyAll kx ids t).member.Mindful duty := by
  induction ids generalizing t with
  | nil => exact mindful
  | cons id ids ih =>
    unfold Chain.applyAll
    split
    · next s value seat known =>
      split
      · exact mindful
      · refine ih (reportKey (mindful.reseat seat rfl (Nat.le_succ _) (fun _ office ↦ office) ?_))
        exact fun passOn ↦ absurd passOn other
    · exact mindful

/-- More keys can only relieve a member, except of passing the token on. -/
theorem cascade (mindful : t.member.Mindful duty) (other : duty ≠ .passOn) :
    (Chain.cascade kx t).member.Mindful duty := by
  unfold Chain.cascade
  split
  · exact (mindful.applyAll _ other).announceKey
  · exact mindful

/-- Whoever hands over is not open any more.  Only a holder of the token could be complete by it. -/
theorem handOver (before : duty ≠ .admission → c.Mindful duty) (other : duty ≠ .handOver)
    (idle : duty = .passOn → c.token.held = false) {s : Seat} (seat : c.seat = some s)
    (tree : KeyTree) (candidate : Candidate) (id : Nat) (h : HandOver) :
    Mindful
      { c with
        seat := some { s with tree, keysComputed := s.keysComputed + 1, sponsor := false }
        directory := (c.directory.record candidate.endpoint id candidate.publicValue).2
        handOver := some h } duty := by
  refine except .admission (fun inner ↦ ?_) fun _ due ↦ by simp [Due, isOpen] at due
  have seated : Mindful
      { c with
        seat := some { s with tree, keysComputed := s.keysComputed + 1, sponsor := false } }
      duty := by
    refine (before inner).reseat seat rfl (Nat.le_succ _) (by simp) fun passOn held ↦ ?_
    rw [idle passOn] at held
    cases held
  refine (seated.record candidate.endpoint id candidate.publicValue).mono rfl
    (fun due ↦ ?_) fun met ↦ ?_
  · cases duty with
    | handOver => exact absurd rfl other
    | _ => exact due
  · cases duty <;> exact met

/-- An admission sees to the queue, and makes the hand-over a duty with its task armed. -/
theorem enrol {s new : Seat} {value : PublicValue} {candidate : Candidate}
    (before : duty ≠ .admission → t.member.Mindful duty) (seat : t.member.seat = some s)
    (granted : seatAfter kx s candidate = .ok (new, value))
    (idle : duty = .passOn → t.member.token.held = false) :
    (Chain.enrol s new value candidate t).member.Mindful duty := by
  obtain ⟨tree, -, -, rfl⟩ := seatAfter_eq_ok granted
  rw [enrol_eq]
  refine announceKey (keepSending fun other ↦ reportKey ?_)
  unfold letIn
  rw [Turn.member_emit]
  refine cancel (cancel ?_ fun serves due ↦ ?_) fun serves due ↦ ?_
  · rw [Turn.member_modify, member_countAdmission]
    refine handOver before ?_ idle seat tree candidate _ _
    rintro rfl
    exact other rfl
  · cases serves
    simp [Due, isOpen] at due
  · cases serves
    rw [Follows.member_cancel] at due
    simp [Due, isOpen] at due

/-- The induction is on the queue, which ends in an admission or in an offer. -/
theorem enrolFirst {s : Seat} (queue : List Candidate)
    (before : duty ≠ .admission → t.member.Mindful duty) (seat : t.member.seat = some s)
    (idle : duty = .passOn → t.member.token.held = false) :
    (Chain.enrolFirst kx s queue t).member.Mindful duty := by
  induction queue with
  | nil =>
    refine keepSending fun other ↦ (before ?_).forget []
    rintro rfl
    exact other rfl
  | cons candidate rest ih =>
    unfold Chain.enrolFirst
    split
    · exact ih
    · split
      · exact ih
      · next new value granted =>
        exact enrol (fun other ↦ (before other).forget rest) seat granted idle

/-- To look after the queue is all that admission asks for. -/
theorem attendQueue (before : duty ≠ .admission → t.member.Mindful duty)
    (idle : duty = .passOn → t.member.isOpen → t.member.token.held = false) :
    (Chain.attendQueue kx t).member.Mindful duty := by
  unfold Chain.attendQueue
  split
  · next free => exact except .admission before fun _ due ↦ by simp [Due, isOpen, free] at due
  · next s seat =>
    split
    · next shut => exact except .admission before fun _ due ↦ by simp_all [Due]
    · next guard =>
      have isOpen : t.member.isOpen = true := by simpa using guard
      dsimp only
      split
      · refine enrolFirst _ (fun other ↦ (before other).cancel ?_) ?_ fun passOn ↦ ?_
        · intro serves
          cases serves
          exact absurd rfl other
        · rw [Follows.member_cancel]
          exact seat
        · rw [Follows.member_cancel]
          exact idle passOn isOpen
      · refine keepSending fun other ↦ before ?_
        rintro rfl
        exact other rfl

/-- A member that learned more applies it before it looks at the token. -/
theorem pressOn (before : duty ≠ .question → duty ≠ .passOn → t.member.Mindful duty)
    (order : t.member.token.taken → t.member.token.passed) :
    (Chain.tendToken (Chain.cascade kx t)).member.Mindful duty := by
  obtain ⟨seat, announced, member⟩ := cascade_frame kx t
  refine tendToken ?_ fun inner other ↦ (before inner other).cascade other
  rw [member]
  exact order

/-- Every branch sees to what it may have made due. -/
theorem makeProgress (mindful : t.member.Mindful duty)
    (order : t.member.token.taken → t.member.token.passed)
    (idle : duty = .passOn → t.member.isOpen → t.member.token.held = false) :
    (Chain.makeProgress kx t).member.Mindful duty := by
  unfold Chain.makeProgress
  split
  · exact mindful
  · split
    · exact attendQueue (fun _ ↦ mindful) idle
    · exact pressOn (fun _ _ ↦ mindful) order

/-! ## Messages -/

theorem answerFind (mindful : t.member.Mindful duty) (service : ServiceId) :
    (Chain.answerFind service t).member.Mindful duty := by
  unfold Chain.answerFind
  split <;> exact mindful

theorem enqueue (mindful : c.Mindful duty) (candidate : Candidate) :
    (c.enqueue candidate).Mindful duty := by
  obtain ⟨pending, frame⟩ := enqueue_frame c candidate
  rw [frame]
  exact mindful.forget pending

theorem answerRequest (mindful : t.member.Mindful duty) (service : ServiceId) (value : PublicValue)
    (source : Endpoint) (idle : duty = .passOn → t.member.isOpen → t.member.token.held = false) :
    (Chain.answerRequest kx service value source t).member.Mindful duty := by
  unfold Chain.answerRequest
  obtain ⟨pending, frame⟩ := enqueue_frame t.member ⟨source, value⟩
  split
  · exact mindful
  · split
    · exact mindful
    · dsimp only
      split
      · refine attendQueue (fun _ ↦ mindful.enqueue _) ?_
        rw [Turn.member_modify, frame]
        exact idle
      · exact mindful.enqueue _

theorem answerQuestion (mindful : t.member.Mindful duty) (phase : Phase) (service : ServiceId)
    (ids : List MemberId) (source : Endpoint) :
    (Chain.answerQuestion phase service ids source t).member.Mindful duty := by
  unfold Chain.answerQuestion
  split
  · exact mindful
  · split
    · exact mindful
    · have heard := mindful.hearAssigned source
      have noticed (seen : Bool) : (if seen = true then
          Chain.seeTokenTaken (t.modify fun c ↦ c.hearAssigned source)
        else t.modify fun c ↦ c.hearAssigned source).member.Mindful duty := by
        split
        · exact seeTokenTaken heard
        · exact heard
      dsimp only
      split
      · exact (noticed _).schedule _
      · exact noticed _

theorem takeAnswer (mindful : t.member.Mindful duty) (service : ServiceId) (id : MemberId)
    (value : PublicValue) (source : Endpoint)
    (order : t.member.token.taken → t.member.token.passed)
    (idle : duty = .passOn → t.member.isOpen → t.member.token.held = false) :
    (Chain.takeAnswer kx service id value source t).member.Mindful duty := by
  obtain ⟨handOver, hear⟩ := hearAssigned_frame t.member source
  obtain ⟨directory, pending, learn_⟩ := learn_frame (t.member.hearAssigned source) source id.toNat
    value
  unfold Chain.takeAnswer
  split
  · exact mindful
  · refine makeProgress ((mindful.hearAssigned source).learn source id.toNat value) ?_ ?_
    · rw [Turn.member_modify, learn_, hear]
      exact order
    · rw [Turn.member_modify, learn_, hear]
      exact idle

theorem answerOffer (mindful : t.member.Mindful duty) (service : ServiceId) (source : Endpoint) :
    (Chain.answerOffer service source t).member.Mindful duty := by
  unfold Chain.answerOffer
  split
  · exact mindful.hearAssigned source
  · dsimp only
    split
    · exact mindful.schedule _
    · refine (arms_schedule _ _).mindful fun _ ↦ mindful.mono rfl (fun due ↦ ?_) fun met ↦ ?_
      · cases duty with
        | search => cases due.2.1
        | _ => exact due
      · cases duty <;> exact met

/-- A new sponsor sees to its queue, and the last member to the token. -/
theorem openOffice {s : Seat} (seat : t.member.seat = some s)
    (idle : t.member.token.held = false)
    (before : duty ≠ .admission → duty ≠ .opening → t.member.Mindful duty) :
    (Chain.openOffice kx s t).member.Mindful duty := by
  unfold Chain.openOffice
  split
  · next room =>
    have inner : t.member.Mindful .opening := by
      rintro - ⟨other, same, last⟩
      rw [seat] at same
      cases same
      exact absurd room (Nat.not_lt.mpr last)
    have opened : duty ≠ .admission → t.member.Mindful duty := fun other ↦
      except .opening (before other) inner
    split
    · refine keepSending fun other ↦ opened ?_
      rintro rfl
      exact other rfl
    · exact attendQueue opened fun _ _ ↦ idle
  · next room =>
    obtain ⟨announced, announce⟩ := Follows.member_announceKey
      (t.modify fun c ↦ { c with seat := some { s with sponsor := false } })
    dsimp only
    refine passToken (by rw [announce]; rfl) fun opening passOn token ↦ announceKey ?_
    refine except .admission (fun other ↦ ?_) fun _ due ↦ by simp [Due, isOpen] at due
    exact (before other opening).reseat seat rfl (Nat.le_refl _) (by simp) fun _ _ ↦ rfl

/-- A seat that is new opens the group to others, or is the last one. -/
theorem sit (mindful : c.Mindful duty) (admission : duty ≠ .admission) (opening : duty ≠ .opening)
    (idle : c.token.held = false) (s : Seat) (directory : Directory) :
    Mindful { c with seat := some s, directory } duty := by
  have not_held {p : Prop} (held : c.token.held = true) : p := by
    rw [idle] at held
    cases held
  refine mindful.mono rfl (fun due ↦ ?_) fun met ↦ ?_
  · cases duty with
    | admission => exact absurd rfl admission
    | opening => exact absurd rfl opening
    | search => cases due.1
    | question | passOn | closing => exact not_held due.1
    | _ => exact due
  · cases duty with
    | founding => rfl
    | _ => exact met

theorem takeSeat (mindful : t.member.Mindful duty) (groupPublic : PublicValue) (id : Nat)
    (idle : t.member.token.held = false) :
    (Chain.takeSeat kx groupPublic id t).member.Mindful duty := by
  unfold Chain.takeSeat
  split
  · exact mindful
  · next s granted =>
    dsimp only
    refine openOffice ?_ ?_ fun admission opening ↦ reportKey (cancel (cancel ?_ ?_) ?_)
    · rw [Follows.member_reportKey, Turn.member_emit, Turn.member_emit, Follows.member_cancel,
        Follows.member_cancel]
      rfl
    · rw [Follows.member_reportKey, Turn.member_emit, Turn.member_emit, Follows.member_cancel,
        Follows.member_cancel]
      exact idle
    · exact mindful.sit admission opening idle s _
    · simp [Task.duty?]
    · intro serves due
      cases serves
      rw [Follows.member_cancel] at due
      cases due.1

theorem learnFrom (mindful : c.Mindful duty) (r : Response) (source : Endpoint) :
    (Chain.learnFrom r source c).Mindful duty := by
  unfold Chain.learnFrom
  dsimp only
  split
  · exact ((mindful.hearAssigned source).confirm.learn _ _ _).learn _ _ _
  · exact ((mindful.hearAssigned source).learn _ _ _).learn _ _ _

/-- A hand-over makes a newcomer responsible for the queue, and others for their keys. -/
theorem answerResponse (mindful : t.member.Mindful duty) (r : Response) (source : Endpoint)
    (held : t.member.token.held → t.member.seat.isSome)
    (order : t.member.token.taken → t.member.token.passed)
    (idle : duty = .passOn → t.member.isOpen → t.member.token.held = false) :
    (Chain.answerResponse kx r source t).member.Mindful duty := by
  obtain ⟨handOver, directory, pending, frame⟩ := Follows.learnFrom_frame r source t.member
  have learned := mindful.learnFrom r source
  unfold Chain.answerResponse
  split
  · exact mindful
  · split
    · exact mindful
    · dsimp only
      split
      · split
        · exact learned
        · next free =>
          refine takeSeat learned _ _ (Bool.eq_false_iff.mpr fun holds ↦ free ?_)
          rw [Turn.member_modify, frame] at holds ⊢
          simp [held holds]
      · refine makeProgress learned ?_ ?_
        · rw [Turn.member_modify, frame]
          exact order
        · rw [Turn.member_modify, frame]
          exact idle

/-- To announce the end takes care of whatever a holder of the token has to do. -/
theorem announceEnd
    (before : duty ≠ .question → duty ≠ .passOn → duty ≠ .closing → t.member.Mindful duty) :
    (Chain.announceEnd t).member.Mindful duty := by
  unfold Chain.announceEnd
  refine (arms_scheduleAfter _ _ _).mindful fun patience ↦ keepSending fun farewell ↦ ?_
  have closed : (t.modify fun c ↦ { c with farewells := some [] }).member.Mindful duty := by
    cases duty with
    | closing => exact fun _ _ ↦ rfl
    | farewell => exact absurd rfl farewell
    | patience => exact absurd rfl patience
    | token => exact fun _ due ↦ by cases due.2.2
    | question | passOn => exact fun _ due ↦ by cases due.2.1
    | _ => exact (before (by decide) (by decide) (by decide)).mono rfl (fun due ↦ due) fun met ↦ met
  refine closed.cancel fun serves due ↦ ?_
  cases serves
  cases due.2.2

theorem hold (mindful : c.Mindful duty) (question : duty ≠ .question) (passOn : duty ≠ .passOn)
    (closing : duty ≠ .closing) : Mindful { c with token.held := true } duty := by
  refine mindful.mono rfl (fun due ↦ ?_) fun met ↦ ?_
  · cases duty with
    | question => exact absurd rfl question
    | passOn => exact absurd rfl passOn
    | closing => exact absurd rfl closing
    | _ => exact due
  · cases duty <;> exact met

/-- The token makes its holder responsible for its keys and for passing it on. -/
theorem holdToken (mindful : t.member.Mindful duty) (source : Endpoint) {s : Seat}
    (seat : t.member.seat = some s) (order : t.member.token.taken → t.member.token.passed)
    (supplied : t.member.token.passed → t.member.Supplied) :
    (Chain.holdToken kx source s t).member.Mindful duty := by
  unfold Chain.holdToken
  dsimp only
  generalize received : (if t.member.token.held = true then t
    else (t.modify fun c ↦ { c with token.held := true }).emit (.tokenReceived source)) = u
  have member : u.member = { t.member with token.held := true } := by
    rw [← received]
    split
    · next already => rw [← already]
    · rfl
  have held : duty ≠ .question → duty ≠ .passOn → duty ≠ .closing → u.member.Mindful duty := by
    rw [member]
    exact mindful.hold
  have inner (other : s.id ≠ u.member.size) : u.member.Mindful .closing := by
    rintro - ⟨-, last⟩
    rw [member] at other last
    exact absurd (Option.some.inj ((memberId?_of_seat seat).symm.trans last)) other
  split
  · split
    · next closing =>
      cases duty with
      | question | passOn =>
        rintro - ⟨-, still, -⟩
        rw [closing] at still
        cases still
      | closing => exact fun _ _ ↦ closing
      | _ => exact held (by decide) (by decide) (by decide)
    · exact announceEnd held
  · next other =>
    split
    · next taken =>
      rw [Turn.member_unicast]
      rw [member] at taken
      have passed : u.member.token.passed := by
        rw [member]
        exact order taken
      have known : u.member.gapsAbove = [] := by
        rw [member]
        exact (supplied (order taken)).known
      cases duty with
      | question => exact fun _ due ↦ absurd known due.2.2
      | passOn => exact fun _ _ ↦ passed
      | closing => exact inner other
      | _ => exact held (by decide) (by decide) (by decide)
    · refine pressOn (fun question passOn ↦ except .closing (held question passOn) (inner other)) ?_
      rw [member]
      exact order

theorem overhearToken (mindful : t.member.Mindful duty) (target : Nat) (source : Endpoint)
    (s : Seat) : (Chain.overhearToken target source s t).member.Mindful duty := by
  unfold Chain.overhearToken
  dsimp only
  split
  · exact mindful
  · split
    · exact mindful.seeTokenTaken
    · exact mindful

theorem answerToken (mindful : t.member.Mindful duty) (target : Nat) (source : Endpoint)
    (order : t.member.token.taken → t.member.token.passed)
    (supplied : t.member.token.passed → t.member.Supplied) :
    (Chain.answerToken kx target source t).member.Mindful duty := by
  obtain ⟨handOver, frame⟩ := hearAssigned_frame t.member source
  unfold Chain.answerToken
  split
  · exact mindful
  · split
    · exact mindful
    · next s seat =>
      have heard := mindful.hearAssigned source
      dsimp only
      split
      · refine holdToken heard source ?_ ?_ ?_
        · rw [Turn.member_modify, frame]
          exact seat
        · rw [Turn.member_modify, frame]
          exact order
        · rw [Turn.member_modify, frame]
          exact fun passed ↦ ⟨(supplied passed).seated, (supplied passed).known⟩
      · exact overhearToken heard target source s

theorem answerFinish (mindful : t.member.Mindful duty) (source : Endpoint) :
    (Chain.answerFinish source t).member.Mindful duty := by
  unfold Chain.answerFinish
  split
  · exact mindful
  · split
    · exact endRun t
    · exact endRun _

theorem answerFinishAck (mindful : t.member.Mindful duty) (source : Endpoint) :
    (Chain.answerFinishAck source t).member.Mindful duty := by
  unfold Chain.answerFinishAck
  split
  · exact mindful
  · next acks closing =>
    split
    · exact mindful
    · dsimp only
      split
      · exact endRun _
      · refine mindful.mono rfl (fun due ↦ ?_) fun met ↦ ?_
        · have still : t.member.isClosing = true := isClosing_of_farewells closing
          cases duty with
          | farewell => exact still
          | patience => exact still
          | token => cases due.2.2
          | question | passOn => cases due.2.1
          | _ => exact due
        · cases duty with
          | closing => rfl
          | _ => exact met

/-! ## The member as a whole -/

/-- Whatever is heard, the member goes on seeing to its duties. -/
theorem answer (mindful : t.member.Mindful duty) (m : Message) (source : Endpoint)
    (held : t.member.token.held → t.member.seat.isSome)
    (order : t.member.token.taken → t.member.token.passed)
    (supplied : t.member.token.passed → t.member.Supplied)
    (idle : duty = .passOn → t.member.isOpen → t.member.token.held = false) :
    (Chain.answer kx m source t).member.Mindful duty := by
  cases m with
  | find service => exact mindful.answerFind service
  | offer service => exact mindful.answerOffer service source
  | request service value => exact mindful.answerRequest service value source idle
  | response r => exact mindful.answerResponse r source held order idle
  | infoRequest phase service ids => exact mindful.answerQuestion phase service ids source
  | infoResponse phase service id value =>
    exact mindful.takeAnswer service id value source order idle
  | token target => exact mindful.answerToken target.toNat source order supplied
  | finish => exact mindful.answerFinish source
  | finishAck => exact mindful.answerFinishAck source
  | distributed body => exact mindful

/-- Whichever duty the deadline was for, the task that runs takes it up again. -/
theorem runTask (before : task.duty? ≠ some duty → t.member.Mindful duty)
    (supplied : t.member.token.passed → t.member.Supplied)
    (idle : duty = .passOn → t.member.isOpen → t.member.token.held = false) :
    (Chain.runTask kx task t).member.Mindful duty := by
  unfold Chain.runTask
  cases task with
  | find | offer | finish => exact keepSending before
  | request | finishAck => exact before (by simp [Task.duty?])
  | infoRequest =>
    refine attendQueue (fun other ↦ before ?_) idle
    rintro ⟨⟩
    exact other rfl
  | response =>
    dsimp only
    split
    · exact keepSending before
    · next none_ =>
      refine except .handOver (fun other ↦ before ?_) ?_
      · rintro ⟨⟩
        exact other rfl
      · rintro - ⟨h, handOver, -⟩
        rw [none_] at handOver
        cases handOver
  | infoResponse | synchResponse =>
    dsimp only [tellValue]
    split <;> exact before (by simp [Task.duty?])
  | synchRequest =>
    dsimp only
    split
    · next gaps =>
      refine except .question (fun other ↦ before ?_) ?_
      · rintro ⟨⟩
        exact other rfl
      · exact fun _ due ↦ absurd (List.isEmpty_iff.mp gaps) due.2.2
    · exact keepSending before
  | synchToken =>
    dsimp only
    split
    · exact keepSending before
    · next free =>
      refine except .token (fun other ↦ before ?_) ?_
      · rintro ⟨⟩
        exact other rfl
      · rintro - ⟨passed, -⟩
        obtain ⟨s, seat⟩ := Option.isSome_iff_exists.mp (supplied passed).seated
        rw [successorId?, memberId?_of_seat seat] at free
        cases free
  | finishTimeout => exact endRun t

theorem expire (mindful : t.member.Mindful duty) (task : Task)
    (supplied : t.member.token.passed → t.member.Supplied)
    (idle : duty = .passOn → t.member.isOpen → t.member.token.held = false) :
    (Chain.expire kx task t).member.Mindful duty := by
  have spared (other : task.duty? ≠ some duty) : (t.disarm task).member.Mindful duty :=
    mindful.unplan fun serves ↦ absurd serves other
  unfold Chain.expire
  dsimp only
  split
  · exact runTask spared (fun passed ↦ ⟨(supplied passed).seated, (supplied passed).known⟩) idle
  · next unwanted =>
    by_cases serves : task.duty? = some duty
    · exact fun running due ↦ absurd (wants_of_due running due serves) unwanted
    · exact spared serves

/-- No input makes a member neglect a duty. -/
theorem step (mindful : c.Mindful duty) {input : Input} (later : input ≠ .start)
    (held : c.token.held → c.seat.isSome) (order : c.token.taken → c.token.passed)
    (supplied : c.token.passed → c.Supplied)
    (idle : duty = .passOn → c.isOpen → c.token.held = false) :
    ((Chain.protocol kx).step input c).member.Mindful duty := by
  cases input with
  | start => exact absurd rfl later
  | timer task => exact expire mindful task supplied idle
  | message m source => exact answer mindful m source held order supplied idle
  | datagram bytes source =>
    unfold Protocol.step Protocol.receive
    dsimp only
    split
    · exact mindful
    · split
      · next m _ => exact answer mindful m source held order supplied idle
      · exact mindful

end Mindful

/-- A member takes its duties up when it starts. -/
theorem mindful_start (free : c.seat = none) (idle : c.handOver = none) (silent : c.token = {})
    (still : c.farewells = none) (positive : 0 < c.size) :
    ((Chain.protocol kx).step .start c).member.Mindful duty := by
  have unheld : c.token.held = false := by rw [silent]
  -- Before its start a member has nothing to do but to start.
  have rested : duty ≠ .founding → duty ≠ .search → c.Mindful duty := by
    intro founding search _ due
    cases duty with
    | founding => exact absurd rfl founding
    | search => exact absurd rfl search
    | admission => simp [Due, isOpen, free] at due
    | handOver => simp [Due, idle] at due
    | opening => simp [Due, free] at due
    | farewell | patience => simp [Due, isClosing, still] at due
    | _ => simp [Due, silent] at due
  change (begin { member := c }).member.Mindful duty
  unfold begin openGroup
  dsimp only
  split
  · split
    · exact Mindful.endRun _
    · next more =>
      refine Mindful.keepSending fun admission ↦ Mindful.reportKey ?_
      cases duty with
      | founding => exact fun _ _ ↦ rfl
      | search => exact fun _ due ↦ by cases due.1
      | admission => exact absurd rfl admission
      | opening =>
        rintro - ⟨_, ⟨⟩, last⟩
        rw [Follows.member_reportKey] at more
        have size : c.size ≤ 1 := last
        exact absurd (Nat.le_antisymm size positive) more
      | _ => exact (rested (by decide) (by decide)).sit (by decide) (by decide) unheld _ _
  · next unchosen =>
    refine Mindful.keepSending fun search ↦ ?_
    cases duty with
    | founding => exact fun _ due ↦ absurd due unchosen
    | search => exact absurd rfl search
    | _ => exact rested (by decide) (by decide)

end GroupKey.Chain
