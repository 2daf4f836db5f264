import GroupKey.Proofs.Moves

/-!
# Reactions are made of moves

One lemma for each reaction of a chained member: if a turn has followed the moves so far, it still
does after the reaction.  The lemmas follow the reactions' own branches, and each guard of a move
is a test that the reaction makes.
-/

namespace GroupKey.Chain

variable {kx : KeyExchange} {cause : Input} {c : Chain} {t : Turn Chain}

/-- The turn's member came about by moves from `c`, and what left it left it by these moves. -/
def Follows (kx : KeyExchange) (cause : Input) (c : Chain) (t : Turn Chain) : Prop :=
  Moves kx cause c t.outgoing t.member

/-- An admission counts the operations it took: the new key, and the public value of the old one
unless it was stored with the tree. -/
def countAdmission (old : Seat) (t : Turn Chain) : Turn Chain :=
  (if old.tree.head.rootPublic.isNone then t.count .cryptoOperations else t).count
    .cryptoOperations

@[simp] theorem member_countAdmission (old : Seat) (t : Turn Chain) :
    (countAdmission old t).member = t.member := by
  unfold countAdmission
  split <;> rfl

@[simp] theorem effects_countAdmission (old : Seat) (t : Turn Chain) :
    (countAdmission old t).effects = t.effects := by
  unfold countAdmission
  split <;> rfl

/-- The turn of a sponsor that has just let somebody in.  It has yet to report its key, to hand its
office over and to announce the group key. -/
def letIn (old new : Seat) (before : PublicValue) (candidate : Candidate) (t : Turn Chain) :
    Turn Chain :=
  ((((countAdmission old t).modify fun c ↦
    { c with
      seat := some new
      directory := (c.directory.record candidate.endpoint (old.id + 1) candidate.publicValue).2
      handOver := some { response := c.responseFor (old.id + 1) candidate before } }).cancel
    .offer).cancel .infoRequest).emit (.admitted (old.id + 1) candidate.endpoint)

theorem enrol_eq (old new : Seat) (before : PublicValue) (candidate : Candidate)
    (t : Turn Chain) :
    enrol old new before candidate t =
      announceKey ((reportKey (letIn old new before candidate t)).keepSending .response none
        (.response (t.member.responseFor (old.id + 1) candidate before))) := by
  unfold enrol letIn countAdmission
  split <;> rfl

namespace Follows

theorem start (kx : KeyExchange) (cause : Input) (c : Chain) : Follows kx cause c { member := c } :=
  .rest

theorem emit (f : Follows kx cause c t) (e : Event) : Follows kx cause c (t.emit e) := by
  simpa [Follows] using f

theorem count (f : Follows kx cause c t) (m : CountMetric) : Follows kx cause c (t.count m) := f

theorem mark (f : Follows kx cause c t) (m : TimeMetric) : Follows kx cause c (t.mark m) := f

theorem terminate (f : Follows kx cause c t) : Follows kx cause c (t.act .terminate) := by
  simpa [Follows] using f

theorem modify (f : Follows kx cause c t) {g : Chain → Chain}
    (move : Move kx cause t.member [] (g t.member)) : Follows kx cause c (t.modify g) :=
  Moves.silent f move

theorem multicast (f : Follows kx cause c t) {m : Message} (may : t.member.MaySay m) :
    Follows kx cause c (t.multicast m) := by
  simpa [Follows] using Moves.tail f (.say none m may)

theorem unicast (f : Follows kx cause c t) {m : Message} (target : Endpoint)
    (may : t.member.MaySay m) : Follows kx cause c (t.unicast target m) := by
  simpa [Follows] using Moves.tail f (.say (some target) m may)

/-- Any agenda will do, as long as there are grounds for each task that is new in it. -/
theorem replan (f : Follows kx cause c t) {u : Turn Chain} (agenda : Agenda)
    (member : u.member = { t.member with agenda }) (said : u.outgoing = t.outgoing)
    (grounds : ∀ task, agenda.isArmed task → t.member.agenda.isArmed task ∨ t.member.MayArm task) :
    Follows kx cause c u := by
  unfold Follows
  rw [member, said]
  exact Moves.silent f (.plan agenda grounds)

/-- What is armed after an insertion was armed before, or there are grounds for it. -/
theorem insert_armed {a : Agenda} {task other : Task} (may : c.MayArm task)
    (armed : (a.insert task).isArmed other) : a.isArmed other ∨ c.MayArm other := by
  rw [Agenda.isArmed_insert, Bool.or_eq_true, decide_eq_true_eq] at armed
  rcases armed with rfl | old
  · exact .inr may
  · exact .inl old

/-- Grounds are asked for even where the task is armed already and nothing changes. -/
theorem schedule (f : Follows kx cause c t) {task : Task} (may : t.member.MayArm task) :
    Follows kx cause c (t.schedule task) := by
  unfold Turn.schedule
  split
  · exact f
  · exact f.replan _ rfl (by simp) fun _ armed ↦ insert_armed may armed

theorem scheduleAfter (f : Follows kx cause c t) {task : Task} (delay : Nat)
    (may : t.member.MayArm task) : Follows kx cause c (t.scheduleAfter task delay) :=
  f.replan _ rfl (t.outgoing_scheduleAfter task delay) fun _ armed ↦ insert_armed may armed

theorem isArmed_of_remove {a : Agenda} {task other : Task}
    (armed : (a.remove task).isArmed other) : a.isArmed other := by
  rw [Agenda.isArmed_remove, Bool.and_eq_true] at armed
  exact armed.2

theorem cancel (f : Follows kx cause c t) (task : Task) : Follows kx cause c (t.cancel task) := by
  unfold Turn.cancel
  split
  · exact f.replan _ rfl (by simp) fun _ armed ↦ .inl (isArmed_of_remove armed)
  · exact f

theorem disarm (f : Follows kx cause c t) (task : Task) : Follows kx cause c (t.disarm task) :=
  f.replan _ rfl rfl fun _ armed ↦ .inl (isArmed_of_remove armed)

/-- To repeat a message takes the right to say it now, and grounds for saying it again. -/
theorem keepSending (f : Follows kx cause c t) {task : Task} {m : Message}
    (may : t.member.MaySay m) (grounds : t.member.MayArm task) :
    Follows kx cause c (t.keepSending task none m) := by
  unfold Turn.keepSending
  split
  · exact f
  · exact (f.multicast may).schedule grounds

/-- Whether the task was armed does not matter to the agenda that is left. -/
theorem member_cancel (t : Turn Chain) (task : Task) :
    (t.cancel task).member = { t.member with agenda := t.member.agenda.remove task } := by
  unfold Turn.cancel
  split
  · rfl
  · next idle =>
    have same : t.member.agenda.remove task = t.member.agenda :=
      Agenda.remove_eq_self (Bool.eq_false_iff.mpr idle)
    rw [same]

theorem member_letIn (old new : Seat) (before : PublicValue) (candidate : Candidate)
    (t : Turn Chain) : (letIn old new before candidate t).member =
      { t.member with
        agenda := (t.member.agenda.remove .offer).remove .infoRequest
        seat := some new
        directory := (t.member.directory.record candidate.endpoint (old.id + 1)
          candidate.publicValue).2
        handOver := some { response := t.member.responseFor (old.id + 1) candidate before } } := by
  unfold letIn
  rw [Turn.member_emit, member_cancel, member_cancel, Turn.member_modify, member_countAdmission]

theorem outgoing_letIn (old new : Seat) (before : PublicValue) (candidate : Candidate)
    (t : Turn Chain) : (letIn old new before candidate t).outgoing = t.outgoing := by
  unfold letIn
  rw [Turn.outgoing_emit, Turn.outgoing_cancel, Turn.outgoing_cancel, Turn.outgoing_modify,
    Turn.outgoing, effects_countAdmission, Turn.outgoing]

theorem isArmed_letIn (old new : Seat) (before : PublicValue) (candidate : Candidate)
    (t : Turn Chain) (task : Task) : (letIn old new before candidate t).isArmed task =
      (decide (task ≠ .infoRequest) && (decide (task ≠ .offer) && t.isArmed task)) := by
  change (letIn old new before candidate t).member.agenda.isArmed task = _
  rw [member_letIn]
  change ((t.member.agenda.remove .offer).remove .infoRequest).isArmed task = _
  rw [Agenda.isArmed_remove, Agenda.isArmed_remove]
  rfl

/-! ## Shared steps -/

theorem reportKey (f : Follows kx cause c t) : Follows kx cause c (reportKey t) := by
  unfold Chain.reportKey
  split
  · exact f.emit _
  · exact f.emit _

theorem member_reportKey (t : Turn Chain) : (Chain.reportKey t).member = t.member := by
  unfold Chain.reportKey
  split <;> rfl

theorem isArmed_reportKey (t : Turn Chain) (task : Task) :
    (Chain.reportKey t).isArmed task = t.isArmed task := by
  unfold Turn.isArmed
  rw [member_reportKey]

/-- The group key is announced in one move, and from then on in none. -/
theorem announceKey (f : Follows kx cause c t) : Follows kx cause c (announceKey t) := by
  unfold Chain.announceKey
  split
  · split
    · exact f
    · exact (f.modify .announce).emit _
  · exact f

/-- A run that has ended is not ended again, so the reason is needed for the first time only. -/
theorem endRun (f : Follows kx cause c t) (may : t.member.MayFinish cause) :
    Follows kx cause c t.endRun := by
  unfold Turn.endRun
  split
  · exact f
  · next running =>
    have idle : t.member.finished = false := by simpa using running
    exact (((f.modify (.finish idle may)).mark _).emit _).terminate

/-- Evidence that the successor took the token counts only after the token was passed on. -/
theorem seeTokenTaken (f : Follows kx cause c t) (seen : t.member.SeesToken cause) :
    Follows kx cause c (seeTokenTaken t) := by
  unfold Chain.seeTokenTaken
  split
  · exact f
  · next guard =>
    have passed : t.member.token.passed = true := by
      simp only [Bool.or_eq_true, not_or] at guard
      simpa using guard.1
    exact (f.modify (.seeTaken passed seen)).cancel _

theorem noticeToken (f : Follows kx cause c t) (shown : Bool)
    (evidence : shown = true → t.member.SeesToken cause) :
    Follows kx cause c (if shown = true then Chain.seeTokenTaken t else t) := by
  split
  · next seen => exact f.seeTokenTaken (evidence seen)
  · exact f

/-- The token leaves a complete member that was given it, or that is the last and starts the round.
-/
theorem passToken (f : Follows kx cause c t) (complete : t.member.isComplete)
    (turn : t.member.token.held ∨ ∃ s, t.member.seat = some s ∧ t.member.size ≤ s.id) :
    Follows kx cause c (passToken t) := by
  unfold Chain.passToken successorId? memberId?
  cases seat : t.member.seat with
  | none => exact f
  | some s =>
    have turn : t.member.token.held ∨ t.member.size ≤ s.id := by
      rcases turn with held | ⟨other, same, last⟩
      · exact .inl held
      · rw [seat] at same
        cases same
        exact .inr last
    exact (f.modify (.pass s seat complete turn)).keepSending ⟨rfl, s, seat, rfl⟩ rfl

/-- A member that holds the token passes it on once it is complete, and asks for values until then.
-/
theorem tendToken (f : Follows kx cause c t) : Follows kx cause c (tendToken t) := by
  unfold Chain.tendToken
  dsimp only
  split
  · exact f
  · next guard =>
    have held : t.member.token.held = true := by
      simp only [Bool.or_eq_true, not_or] at guard
      simpa using guard.1.1
    split
    · next complete =>
      split
      · exact f.cancel _
      · refine (f.cancel _).passToken ?_ (.inl ?_)
        · rw [member_cancel]
          exact complete
        · rw [member_cancel]
          exact held
    · next incomplete =>
      split
      · exact f
      · next gaps =>
        refine f.keepSending ⟨rfl, ⟨?_, fun _ ↦ held⟩, by simpa using gaps, .inr rfl⟩ trivial
        cases seat : t.member.seat with
        | none => exact absurd (by simp [gapsAbove, seat]) gaps
        | some s => rfl

/-- The last member announces the end when the token has come round to it. -/
theorem announceEnd (f : Follows kx cause c t) (s : Seat) (seat : t.member.seat = some s)
    (last : s.id = t.member.size) (held : t.member.token.held) (still : t.member.farewells = none)
    (running : t.member.finished = false) : Follows kx cause c (announceEnd t) := by
  have closed : Follows kx cause c (t.modify fun c ↦ { c with farewells := some [] }) :=
    f.modify (.close s seat last held still running)
  have told : Follows kx cause c
      (((t.modify fun c ↦ { c with farewells := some [] }).cancel .synchToken).keepSending .finish
        none .finish) := by
    refine (closed.cancel .synchToken).keepSending ?_ trivial
    rw [member_cancel]
    rfl
  exact told.scheduleAfter _ trivial

/-- The induction is on the ids that are left.  Each value that is applied moves the place of the
next one, so the seat's end and the first id stay together. -/
theorem applyAll (count first : Nat) (f : Follows kx cause c t)
    (place : ∀ s, t.member.seat = some s → s.id + s.keysComputed = first)
    (room : first + count ≤ t.member.size + 1)
    (right : t.member.isSponsor = false ∨ t.member.Summoned cause) :
    Follows kx cause c (applyAll kx (List.range' first count) t) := by
  induction count generalizing first t with
  | zero => exact f
  | succ count ih =>
    rw [List.range'_succ]
    unfold Chain.applyAll
    split
    · next s value seat known =>
      obtain rfl := place s seat
      split
      · exact f.emit _
      · next tree granted =>
        have fits : s.id + s.keysComputed ≤ t.member.size := by omega
        have right' : s.sponsor = false ∨ t.member.Summoned cause := by
          simpa [isSponsor, seat] using right
        have extended : Follows kx cause c ((t.count .cryptoOperations).modify fun c ↦
            { c with seat := some { s with tree, keysComputed := s.keysComputed + 1 } }) :=
          (f.count _).modify (.extend s value tree seat known fits granted right')
        refine ih _ extended.reportKey ?_ ?_ ?_
        · rw [member_reportKey]
          rintro _ ⟨⟩
          rfl
        · rw [member_reportKey]
          change s.id + s.keysComputed + 1 + count ≤ t.member.size + 1
          omega
        · rw [member_reportKey]
          refine right'.imp id ?_
          rintro ⟨target, source, other, sent, same, own⟩
          rw [seat] at same
          cases same
          exact ⟨target, source, _, sent, rfl, own⟩
    · exact f

/-- A sponsor applies values only when the token was handed to it. -/
theorem cascade (f : Follows kx cause c t)
    (right : t.member.isSponsor = false ∨ t.member.Summoned cause) :
    Follows kx cause c (cascade kx t) := by
  unfold Chain.cascade Directory.idsBelow
  split
  · next s seat =>
    by_cases room : s.id + s.keysComputed ≤ t.member.size + 1
    · refine (f.applyAll _ _ ?_ (by omega) right).announceKey
      intro other same
      rw [seat] at same
      cases same
      rfl
    · rw [Nat.sub_eq_zero_of_le (by omega)]
      exact f.announceKey
  · exact f

/-- An admission is a single move.  The member reports its key and repeats the hand-over from the
state behind that move. -/
theorem enrol {s new : Seat} {before : PublicValue} {candidate : Candidate}
    {rest : List Candidate} (f : Follows kx cause c t) (seat : t.member.seat = some s)
    (isOpen : t.member.isOpen) (known : t.member.gapsBelow = [])
    (queue : (candidate :: rest).Sublist t.member.pending)
    (unknown : t.member.directory.containsEndpoint candidate.endpoint = false)
    (granted : seatAfter kx s candidate = .ok (new, before)) :
    Follows kx cause c
      (enrol s new before candidate (t.modify fun c ↦ { c with pending := rest })) := by
  have entered := Moves.silent f
    (.enrol s new candidate rest before seat isOpen known queue unknown granted)
  have moved : Follows kx cause c
      (letIn s new before candidate (t.modify fun c ↦ { c with pending := rest })) := by
    unfold Follows
    rw [outgoing_letIn, member_letIn]
    refine Moves.silent entered (.plan _ fun _ armed ↦ .inl ?_)
    exact isArmed_of_remove (isArmed_of_remove armed)
  rw [enrol_eq]
  refine (moved.reportKey.keepSending ?_ ?_).announceKey
  · rw [member_reportKey, member_letIn]
    exact ⟨_, rfl, rfl⟩
  · rw [member_reportKey, member_letIn]
    rfl

/-- Candidates that are passed over need no move of their own: the admission drops them with the
candidate it is about. -/
theorem enrolFirst {s : Seat} (queue : List Candidate) (f : Follows kx cause c t)
    (seat : t.member.seat = some s) (isOpen : t.member.isOpen) (known : t.member.gapsBelow = [])
    (part : queue.Sublist t.member.pending) : Follows kx cause c (enrolFirst kx s queue t) := by
  induction queue with
  | nil => exact (f.modify (.forget [] (by simp))).keepSending ⟨rfl, isOpen⟩ trivial
  | cons candidate rest ih =>
    have later : rest.Sublist t.member.pending := List.sublist_of_cons_sublist part
    unfold Chain.enrolFirst
    split
    · exact ih later
    · next unknown =>
      split
      · exact ih later
      · next new before granted =>
        exact f.enrol seat isOpen known part (by simpa using unknown) granted

/-- A sponsor that knows all members below itself lets somebody in or offers, and otherwise asks. -/
theorem attendQueue (f : Follows kx cause c t) : Follows kx cause c (attendQueue kx t) := by
  unfold Chain.attendQueue
  split
  · exact f
  · next s seat =>
    split
    · exact f
    · next guard =>
      have isOpen : t.member.isOpen = true := by simpa using guard
      dsimp only
      split
      · next gaps =>
        have known : t.member.gapsBelow = [] := by simpa using gaps
        refine (f.cancel .infoRequest).enrolFirst _ ?_ ?_ ?_ (List.Sublist.refl _)
        · rw [member_cancel]
          exact seat
        · rw [member_cancel]
          exact isOpen
        · rw [member_cancel]
          exact known
      · next gaps =>
        exact f.keepSending ⟨rfl, ⟨by simp [seat], by simp⟩, by simpa using gaps, .inl rfl⟩ trivial

/-- Whoever applies values here is not the sponsor, which is all that the cascade asks for. -/
theorem makeProgress (f : Follows kx cause c t) : Follows kx cause c (makeProgress kx t) := by
  unfold Chain.makeProgress
  split
  · exact f
  · next s seat =>
    split
    · exact f.attendQueue
    · next idle => exact (f.cascade (.inl (by simpa [isSponsor, seat] using idle))).tendToken

theorem answerFind (f : Follows kx cause c t) (service : ServiceId) :
    Follows kx cause c (answerFind service t) := by
  unfold Chain.answerFind
  split
  · next guard =>
    rw [Bool.and_eq_true] at guard
    exact f.multicast ⟨rfl, guard.2⟩
  · exact f

/-- Members do not become candidates again, and the queue is attended to by a sponsor only. -/
theorem answerRequest (f : Follows kx cause c t) {service : ServiceId} {value : PublicValue}
    {source : Endpoint} (asked : cause = .message (.request service value) source) :
    Follows kx cause c (answerRequest kx service value source t) := by
  unfold Chain.answerRequest
  split
  · exact f
  · split
    · exact f
    · next unknown =>
      have queued : Follows kx cause c (t.modify fun c ↦ c.enqueue ⟨source, value⟩) :=
        f.modify (.enqueue service value source asked (by simpa using unknown))
      dsimp only
      split
      · exact queued.attendQueue
      · exact queued

/-- To see the heir act confirms the hand-over.  Anybody else changes nothing by it. -/
theorem hearAssigned (f : Follows kx cause c t) {m : Message} {source : Endpoint}
    (sent : cause = .message m source) (shows : ShowsSeat m) :
    Follows kx cause c (t.modify fun c ↦ c.hearAssigned source) := by
  by_cases heir : t.member.heir? = some source
  · have same : t.member.hearAssigned source = t.member.confirm := if_pos heir
    refine f.modify ?_
    rw [same]
    exact .confirm (.inl ⟨m, source, sent, shows, heir⟩)
  · have same : t.member.hearAssigned source = t.member := if_neg heir
    unfold Follows
    rw [Turn.outgoing_modify, Turn.member_modify, same]
    exact f

theorem learn (f : Follows kx cause c t) {endpoint : Endpoint} {id : Nat} {value : PublicValue}
    (told : Tells cause endpoint id value) :
    Follows kx cause c (t.modify fun c ↦ c.learn endpoint id value) :=
  f.modify (.learn endpoint id value told)

/-- A question of the token round from the successor on the ring shows that it took the token. -/
theorem answerQuestion (f : Follows kx cause c t) {phase : Phase} {service : ServiceId}
    {ids : List MemberId} {source : Endpoint}
    (sent : cause = .message (.infoRequest phase service ids) source) :
    Follows kx cause c (answerQuestion phase service ids source t) := by
  unfold Chain.answerQuestion
  split
  · exact f
  · split
    · exact f
    · have heard := f.hearAssigned sent trivial
      have seen := heard.noticeToken
        (decide (phase = .synch) &&
          decide ((t.member.hearAssigned source).directory.idOf? source =
            (t.member.hearAssigned source).successorId?)) fun guard ↦ by
          simp only [Bool.and_eq_true, decide_eq_true_eq] at guard
          obtain ⟨rfl, successor⟩ := guard
          exact .inl ⟨service, ids, source, sent, successor⟩
      have free (e : Chain) : e.MayArm (answerTask phase) := by cases phase <;> trivial
      dsimp only
      split
      · exact seen.schedule (free _)
      · exact seen

/-- An answer is recorded under its sender's endpoint, whoever asked for it. -/
theorem takeAnswer (f : Follows kx cause c t) {phase : Phase} {service : ServiceId} {id : MemberId}
    {value : PublicValue} {source : Endpoint}
    (sent : cause = .message (.infoResponse phase service id value) source) :
    Follows kx cause c (takeAnswer kx service id value source t) := by
  unfold Chain.takeAnswer
  split
  · exact f
  · have told : Tells cause source id.toNat value :=
      .inl ⟨phase, service, id, sent, rfl⟩
    exact ((f.hearAssigned sent trivial).learn told).makeProgress

/-- Only a member without a seat asks to be let in, and it finds a sponsor once. -/
theorem answerOffer (f : Follows kx cause c t) {service : ServiceId} {source : Endpoint}
    (sent : cause = .message (.offer service) source) :
    Follows kx cause c (answerOffer service source t) := by
  unfold Chain.answerOffer
  split
  · exact f.hearAssigned sent trivial
  · dsimp only
    split
    · exact f.schedule trivial
    · exact ((f.modify (.findSponsor service source sent)).mark _).schedule trivial

/-- Announcing the group key leaves the state as it was but for one flag. -/
theorem member_announceKey (t : Turn Chain) :
    ∃ announced, (Chain.announceKey t).member = { t.member with announced } := by
  unfold Chain.announceKey
  split
  · split
    · exact ⟨t.member.announced, rfl⟩
    · exact ⟨true, rfl⟩
  · exact ⟨t.member.announced, rfl⟩

/-- A new sponsor lets somebody in or offers.  The last member resigns at once and starts the token
round, as its own key makes it complete. -/
theorem openOffice (f : Follows kx cause c t) {s : Seat} (seat : t.member.seat = some s)
    (sponsor : s.sponsor = true) (first : s.keysComputed = 1) :
    Follows kx cause c (openOffice kx s t) := by
  unfold Chain.openOffice
  split
  · next room =>
    split
    · have isOpen : t.member.isOpen = true := by simp [isOpen, seat, sponsor, room]
      exact f.keepSending ⟨rfl, isOpen⟩ trivial
    · exact f.attendQueue
  · next room =>
    have last : t.member.size ≤ s.id := by omega
    have resigned : Follows kx cause c
        (t.modify fun c ↦ { c with seat := some { s with sponsor := false } }) :=
      f.modify (.resign s seat last)
    obtain ⟨announced, member⟩ := member_announceKey
      (t.modify fun c ↦ { c with seat := some { s with sponsor := false } })
    refine resigned.announceKey.passToken ?_ (.inr ⟨{ s with sponsor := false }, ?_, ?_⟩)
    · rw [member]
      have alone : 1 = t.member.size - s.id + 1 := by omega
      simpa [isComplete, first, size] using alone
    · rw [member]
      rfl
    · rw [member]
      exact last

/-- A seat is taken in one move, and the events about it tell what that move did. -/
theorem takeSeat (f : Follows kx cause c t) {r : Response} {source : Endpoint}
    (sent : cause = .message (.response r) source)
    (own : r.newSponsor.endpoint = t.member.endpoint)
    (value : r.newSponsor.publicValue = t.member.keys.publicValue)
    (count : r.memberCount = t.member.config.memberCount) (free : t.member.seat = none)
    (running : t.member.finished = false) :
    Follows kx cause c (takeSeat kx r.groupPublic r.newSponsor.id.toNat t) := by
  unfold Chain.takeSeat
  split
  · exact f.emit _
  · next s granted =>
    have seated : Follows kx cause c
        (((t.count .cryptoOperations).count .cryptoOperations).modify fun c ↦
          { c with
            seat := some s
            directory :=
              (c.directory.record c.endpoint r.newSponsor.id.toNat c.keys.publicValue).2 }) :=
      ((f.count _).count _).modify
        (.takeSeat r source s sent own value count free running granted)
    obtain ⟨root, rootPublic, -, -, fresh⟩ := firstSeat_eq_ok granted
    refine Follows.openOffice (s := s) (((((seated.mark _).cancel _).cancel _).emit _).emit
      _).reportKey ?_ (by rw [fresh]) (by rw [fresh])
    rw [member_reportKey, Turn.member_emit, Turn.member_emit, member_cancel, member_cancel]
    rfl

/-- A hand-over teaches about members, candidates and the heir, and about nothing else. -/
theorem learnFrom_frame (r : Response) (source : Endpoint) (c : Chain) :
    ∃ handOver directory pending,
      learnFrom r source c = { c with handOver, directory, pending } := by
  unfold Chain.learnFrom
  dsimp only
  obtain ⟨heard, hear⟩ := hearAssigned_frame c source
  have noticed : ∃ handOver, (if (c.hearAssigned source).seat.any
      (fun s ↦ decide (s.id + 1 < r.newSponsor.id.toNat)) = true then
        (c.hearAssigned source).confirm else c.hearAssigned source) = { c with handOver } := by
    rw [hear]
    split
    · exact ⟨_, rfl⟩
    · exact ⟨heard, rfl⟩
  obtain ⟨handOver, notice⟩ := noticed
  rw [notice]
  obtain ⟨directory, pending, first⟩ :=
    learn_frame { c with handOver } source (r.newSponsor.id.toNat - 1) r.predecessorPublic
  rw [first]
  obtain ⟨directory, pending, second⟩ :=
    learn_frame { c with handOver, directory, pending } r.newSponsor.endpoint
      r.newSponsor.id.toNat r.newSponsor.publicValue
  rw [second]
  exact ⟨handOver, directory, pending, rfl⟩

/-- What a hand-over teaches takes three moves: the heir was seen, then the sender's value is
recorded, then the newcomer's. -/
theorem learnFrom (f : Follows kx cause c t) {r : Response} {source : Endpoint}
    (sent : cause = .message (.response r) source) :
    Follows kx cause c (t.modify (learnFrom r source)) := by
  have heard := f.hearAssigned sent trivial
  have confirmed : Follows kx cause c (t.modify fun c ↦
      if (c.hearAssigned source).seat.any fun s ↦ s.id + 1 < r.newSponsor.id.toNat then
        (c.hearAssigned source).confirm
      else c.hearAssigned source) := by
    unfold Follows at heard ⊢
    rw [Turn.outgoing_modify, Turn.member_modify] at heard ⊢
    split
    · next beyond =>
      rw [Option.any_eq_true] at beyond
      obtain ⟨s, seat, further⟩ := beyond
      exact heard.silent (.confirm (.inr ⟨r, source, s, sent, seat, by simpa using further⟩))
    · exact heard
  exact (confirmed.learn (.inr (.inl ⟨r, sent, rfl, rfl⟩))).learn
    (.inr (.inr ⟨r, source, sent, rfl, rfl, rfl⟩))

/-- A member learns from a hand-over first, and takes the seat it is given there afterwards. -/
theorem answerResponse (f : Follows kx cause c t) {r : Response} {source : Endpoint}
    (sent : cause = .message (.response r) source) :
    Follows kx cause c (answerResponse kx r source t) := by
  unfold Chain.answerResponse
  split
  · exact f
  · next guard =>
    have running : t.member.finished = false := by
      simp only [Bool.or_eq_true, not_or] at guard
      simpa using guard.2
    split
    · exact f
    · next size =>
      obtain ⟨handOver, directory, pending, frame⟩ := learnFrom_frame r source t.member
      have learned := f.learnFrom sent
      dsimp only
      split
      · next own =>
        split
        · exact learned
        · next free =>
          rw [Bool.or_eq_true, not_or] at free
          have value := Decidable.byContradiction fun differs ↦ free.2 (decide_eq_true differs)
          refine learned.takeSeat sent own value ?_ (by simpa using free.1) ?_
          · rw [Turn.member_modify, frame]
            simpa using size
          · rw [Turn.member_modify, frame]
            exact running
      · exact learned.makeProgress

/-- The last member announces the end, a member that was relieved of the token tells the sender so,
and any other one works on its keys. -/
theorem holdToken (f : Follows kx cause c t) {target : MemberId} {source : Endpoint} {s : Seat}
    (sent : cause = .message (.token target) source) (seat : t.member.seat = some s)
    (own : target.toNat = s.id) (running : t.member.finished = false)
    (order : t.member.token.taken → t.member.token.passed) :
    Follows kx cause c (holdToken kx source s t) := by
  unfold Chain.holdToken
  dsimp only
  have held : ∃ u, u = (if t.member.token.held = true then t
      else (t.modify fun c ↦ { c with token.held := true }).emit (.tokenReceived source)) ∧
      Follows kx cause c u ∧ u.member = { t.member with token.held := true } := by
    refine ⟨_, rfl, ?_⟩
    split
    · next already => exact ⟨f, by rw [← already]⟩
    · exact ⟨(f.modify (.hold target source s sent seat own running)).emit _, rfl⟩
  obtain ⟨u, same, follows, member⟩ := held
  rw [← same]
  split
  · next last =>
    split
    · exact follows
    · next open_ =>
      refine follows.announceEnd s ?_ last ?_ ?_ ?_
      · rw [member]
        exact seat
      · rw [member]
      · simpa [isClosing] using open_
      · rw [member]
        exact running
  · split
    · next taken =>
      refine follows.unicast source ?_
      rw [member] at taken ⊢
      exact ⟨order taken, s, seat, rfl⟩
    · refine (follows.cascade (.inr ?_)).tendToken
      rw [member]
      exact ⟨target, source, s, sent, seat, own⟩

/-- A token that the successor sends, or that is meant for the one behind it, shows that the
successor has had it. -/
theorem overhearToken (f : Follows kx cause c t) {target : MemberId} {source : Endpoint} {s : Seat}
    (sent : cause = .message (.token target) source) (seat : t.member.seat = some s) :
    Follows kx cause c (overhearToken target.toNat source s t) := by
  unfold Chain.overhearToken
  dsimp only
  split
  · exact f
  · next inner =>
    split
    · next seen =>
      simp only [Bool.or_eq_true, decide_eq_true_eq] at seen
      exact f.seeTokenTaken (.inr ⟨target, source, s, sent, seat, inner, seen⟩)
    · exact f

/-- The sender shows its seat by sending a token, before it is known whom that is for. -/
theorem answerToken (f : Follows kx cause c t) {target : MemberId} {source : Endpoint}
    (sent : cause = .message (.token target) source)
    (order : t.member.token.taken → t.member.token.passed) :
    Follows kx cause c (answerToken kx target.toNat source t) := by
  unfold Chain.answerToken
  split
  · exact f
  · next running =>
    split
    · exact f
    · next s seat =>
      obtain ⟨handOver, frame⟩ := hearAssigned_frame t.member source
      have heard := f.hearAssigned sent trivial
      have seat' : (t.member.hearAssigned source).seat = some s := by rw [frame]; exact seat
      dsimp only
      split
      · next own =>
        refine heard.holdToken sent seat' own ?_ ?_
        · rw [Turn.member_modify, frame]
          simpa using running
        · rw [Turn.member_modify, frame]
          exact order
      · exact heard.overhearToken sent seat'

/-- A member with a seat acknowledges the end and stops, one without a seat just stops. -/
theorem answerFinish (f : Follows kx cause c t) {source : Endpoint}
    (sent : cause = .message .finish source) : Follows kx cause c (answerFinish source t) := by
  unfold Chain.answerFinish
  split
  · exact f
  · next guard =>
    simp only [Bool.or_eq_true, not_or, Bool.not_eq_true] at guard
    obtain ⟨running, still⟩ := guard
    have still : t.member.farewells = none := by simpa [isClosing] using still
    split
    · next free => exact f.endRun (.inr (.inl ⟨source, sent, free⟩))
    · next s seat =>
      unfold Turn.endRun Follows
      rw [if_neg (by simp [running])]
      simpa using Moves.tail f (.bowOut source sent (by simp [seat]) running still)

/-- The last acknowledgement that is missing ends the run. -/
theorem answerFinishAck (f : Follows kx cause c t) {source : Endpoint}
    (sent : cause = .message .finishAck source) :
    Follows kx cause c (answerFinishAck source t) := by
  unfold Chain.answerFinishAck
  split
  · exact f
  · next acks closing =>
    split
    · exact f
    · next running =>
      have counted : Follows kx cause c
          (t.modify fun c ↦ { c with farewells := some (acks.insert source) }) :=
        f.modify (.acknowledge source acks sent closing (by simpa using running))
      dsimp only
      split
      · next enough =>
        refine ((counted.cancel _).cancel _).endRun ?_
        rw [member_cancel, member_cancel]
        exact .inr (.inr (.inl ⟨_, rfl, enough⟩))
      · exact counted

/-! ## The member as a whole -/

/-- Member one seats itself.  Alone it is done, and with others to come it offers. -/
theorem openGroup (f : Follows kx cause c t) (first : cause = .start)
    (chosen : t.member.config.sponsor = true) (free : t.member.seat = none)
    (positive : 0 < t.member.size) : Follows kx cause c (openGroup t) := by
  have seated : Follows kx cause c ((t.mark .keyAgreementStart).modify fun c ↦
      { c with
        seat := some c.openingSeat
        directory := (c.directory.record c.endpoint 1 c.keys.publicValue).2 }) :=
    (f.mark _).modify (.openGroup first chosen free)
  have told := ((seated.emit (.assigned 1)).emit (.becameSponsor 1)).reportKey
  unfold Chain.openGroup
  dsimp only
  split
  · next alone =>
    refine told.announceKey.endRun (.inl ⟨first, ?_⟩)
    obtain ⟨announced, member⟩ := member_announceKey _
    rw [member]
    exact alone
  · next more =>
    rw [member_reportKey] at more
    have room : 1 < t.member.size := by
      change t.member.size ≠ 1 at more
      omega
    refine told.keepSending ⟨rfl, ?_⟩ trivial
    rw [member_reportKey]
    exact decide_eq_true room

theorem begin (f : Follows kx cause c t) (first : cause = .start) (free : t.member.seat = none)
    (positive : 0 < t.member.size) : Follows kx cause c (begin t) := by
  unfold Chain.begin
  dsimp only
  split
  · next chosen => exact ((f.count _).mark _).openGroup first chosen free positive
  · exact ((f.count _).mark _).keepSending rfl trivial

theorem tellValue (f : Follows kx cause c t) (phase : Phase) :
    Follows kx cause c (tellValue phase t) := by
  unfold Chain.tellValue
  split
  · next s seat => exact f.multicast ⟨rfl, rfl, s, seat, rfl⟩
  · exact f

/-- What a deadline makes a member say is what it could have said anyway, as the task is still
wanted. -/
theorem runTask (f : Follows kx cause c t) {task : Task} (fired : cause = .timer task)
    (wanted : t.member.wants task) (duty : task = .synchToken → t.member.token.passed) :
    Follows kx cause c (runTask kx task t) := by
  unfold Chain.runTask
  simp only [wants, Bool.and_eq_true] at wanted
  cases task with
  | find => exact f.keepSending rfl trivial
  | offer => exact f.keepSending ⟨rfl, wanted.2⟩ trivial
  | request => exact f.multicast ⟨rfl, by simpa using wanted.2, rfl⟩
  | response =>
    dsimp only
    split
    · next h handOver =>
      refine f.keepSending ⟨h, handOver, rfl⟩ ?_
      rw [MayArm, handOver]
      rfl
    · exact f
  | infoRequest => exact f.attendQueue
  | infoResponse => exact f.tellValue .joining
  | synchRequest =>
    dsimp only
    split
    · exact f
    · next gaps =>
      refine f.keepSending ⟨rfl, ⟨?_, fun _ ↦ ?_⟩, by simpa using gaps, .inr rfl⟩ trivial
      · cases seat : t.member.seat with
        | none => exact absurd (by simp [gapsAbove, seat]) gaps
        | some s => rfl
      · exact (Bool.and_eq_true _ _ |>.mp wanted.2).1
  | synchResponse => exact f.tellValue .synch
  | synchToken =>
    unfold successorId? memberId?
    cases seat : t.member.seat with
    | none => exact f
    | some s => exact f.keepSending ⟨duty rfl, s, seat, rfl⟩ (duty rfl)
  | finish => exact f.keepSending wanted.2 trivial
  | finishAck => exact f
  | finishTimeout => exact f.endRun (.inr (.inr (.inr ⟨fired, wanted.2⟩)))

/-- The deadline is disarmed whether or not its task is still wanted. -/
theorem expire (f : Follows kx cause c t) {task : Task} (fired : cause = .timer task)
    (duty : task = .synchToken → t.member.token.passed) :
    Follows kx cause c (expire kx task t) := by
  unfold Chain.expire
  dsimp only
  split
  · next wanted => exact (f.disarm task).runTask fired wanted duty
  · exact f.disarm task

/-- Every message a chained member reacts to is answered in moves, and those of a star are dropped.
-/
theorem answer (f : Follows kx cause c t) {m : Message} {source : Endpoint}
    (sent : cause = .message m source) (order : t.member.token.taken → t.member.token.passed) :
    Follows kx cause c (answer kx m source t) := by
  cases m with
  | find service => exact f.answerFind service
  | offer service => exact f.answerOffer sent
  | request service value => exact f.answerRequest sent
  | response r => exact f.answerResponse sent
  | infoRequest phase service ids => exact f.answerQuestion sent
  | infoResponse phase service id value => exact f.takeAnswer sent
  | token target => exact f.answerToken sent order
  | finish => exact f.answerFinish sent
  | finishAck => exact f.answerFinishAck sent
  | distributed body => exact f

end Follows

end GroupKey.Chain
