import GroupKey.Proofs.Accounts
import GroupKey.Proofs.KeyBounds
import Mathlib.Data.List.Infix

/-!
# The ledger

What a member has told its application is a ledger of its state, whatever reaches it.  Everything
that happens once is told once, in the step in which it happens, and the keys are told one by one.
-/

namespace GroupKey

namespace Chain

variable {kx : KeyExchange} {past : List Event} {c : Chain} {t : Turn Chain} {s : Seat}

/-- A key is reported under the number of keys there are. -/
theorem account_reportKey (seat : t.member.seat = some s) :
    (reportKey t).account past =
      (t.account past).tell [.keyComputed s.keysComputed s.tree.rootSecret.fingerprint] := by
  unfold reportKey
  rw [seat]
  exact Turn.account_emit past t _

/-- The announcement clears up whatever key is due. -/
theorem booked_announceKey (due : (t.account past).Due c) :
    ((announceKey t).account past).Booked c := by
  unfold announceKey
  split
  · split
    · next silent =>
      refine due.booked ?_
      simpa [Turn.account, standing, Standing.complete, isComplete] using silent
    · next speaks =>
      obtain ⟨silent, complete⟩ : t.member.announced = false ∧ t.member.isComplete = true := by
        simpa using speaks
      rw [Turn.account_emit]
      exact due.announce silent complete _ _
  · next free =>
    refine due.booked (.inr ?_)
    simp [Turn.account, standing, Standing.complete, free]

/-- The ids that are applied one after the other end with that of the last member. -/
theorem due_applyAll (kx : KeyExchange) (count : Nat) (seat : t.member.seat = some s)
    (within : s.id + s.keysComputed + count ≤ t.member.size + 1 ∨ count = 0)
    (due : (t.account past).Due c) :
    ((applyAll kx (List.range' (s.id + s.keysComputed) count) t).account past).Due c := by
  induction count generalizing s t with
  | zero => exact due
  | succ count ih =>
    rw [List.range'_succ]
    unfold applyAll
    rw [seat]
    split
    · next value here known =>
      cases here
      split
      · rw [Turn.account_emit]
        exact due.aside trivial
      · next tree granted =>
        dsimp only
        have room : s.id + s.keysComputed ≤ t.member.size := by omega
        refine ih (s := { s with tree, keysComputed := s.keysComputed + 1 }) ?_ ?_ ?_
        · rw [Follows.member_reportKey]
          rfl
        · rw [Follows.member_reportKey]
          change s.id + (s.keysComputed + 1) + count ≤ t.member.size + 1 ∨ count = 0
          omega
        · rw [account_reportKey rfl]
          exact due.extended seat (Seat.grows_of_extend granted s.sponsor) rfl room _
    · exact due

/-- The cascade reports each key as it computes it, and announces at its end. -/
theorem booked_cascade (kx : KeyExchange) (early : (t.account past).Early c) :
    ((cascade kx t).account past).Booked c := by
  unfold cascade
  split
  · next s seat =>
    exact booked_announceKey (due_applyAll kx _ seat (by omega) early.due)
  · exact early.booked

/-- To let somebody in gives the member its next seat and is told at once. -/
theorem account_letIn (old new : Seat) (before : PublicValue) (candidate : Candidate) :
    (letIn old new before candidate t).account past =
      ({ t.account past with seat := some new, handedOver := true } : Account).tell
        [.admitted (old.id + 1) candidate.endpoint] := by
  have same : (countAdmission old t).account past = t.account past := by
    unfold countAdmission
    split <;> rfl
  rw [← same]
  unfold letIn
  rw [Turn.account_emit, Turn.account_cancel, Turn.account_cancel]
  rfl

/-- An admission tells of the newcomer before it tells of the key. -/
theorem booked_enrol {new : Seat} {before : PublicValue} {candidate : Candidate}
    (seat : t.member.seat = some s) (inOffice : s.sponsor = true)
    (granted : seatAfter kx s candidate = .ok (new, before)) (early : (t.account past).Early c) :
    ((enrol s new before candidate t).account past).Booked c := by
  obtain ⟨tree, -, grown, named⟩ := seatAfter_eq_ok granted
  have grows : s.Grows new := by
    rw [named]
    exact Seat.grows_of_extend grown false
  have seated : (letIn s new before candidate t).member.seat = some new := by
    rw [Follows.member_letIn]
  rw [enrol_eq]
  refine booked_announceKey ?_
  rw [Turn.account_keepSending, account_reportKey seated, account_letIn, Account.tell_tell]
  exact early.enrolled seat inOffice grows (by rw [named]) _ _ _

/-- The induction is on the queue.  Only the admission at its end is told. -/
theorem booked_enrolFirst (kx : KeyExchange) (queue : List Candidate)
    (seat : t.member.seat = some s) (inOffice : s.sponsor = true)
    (early : (t.account past).Early c) :
    ((enrolFirst kx s queue t).account past).Booked c := by
  induction queue with
  | nil =>
    unfold enrolFirst
    rw [Turn.account_keepSending]
    exact early.booked
  | cons candidate queue ih =>
    unfold enrolFirst
    split
    · exact ih
    · split
      · exact ih
      · next granted => exact booked_enrol (t := t.modify _) seat inOffice granted early

theorem booked_attendQueue (kx : KeyExchange) (early : (t.account past).Early c) :
    ((attendQueue kx t).account past).Booked c := by
  unfold attendQueue
  split
  · exact early.booked
  · next s seat =>
    split
    · exact early.booked
    · next notClosed =>
      have isOpen : t.member.isOpen = true := by simpa using notClosed
      dsimp only
      split
      · refine booked_enrolFirst kx _ ?_ (isOpen_of_seat isOpen seat).1 ?_
        · rw [Follows.member_cancel]
          exact seat
        · rwa [Turn.account_cancel]
      · rw [Turn.account_keepSending]
        exact early.booked

theorem booked_makeProgress (kx : KeyExchange) (early : (t.account past).Early c) :
    ((makeProgress kx t).account past).Booked c := by
  unfold makeProgress
  split
  · exact early.booked
  · split
    · exact booked_attendQueue kx early
    · rw [account_tendToken]
      exact booked_cascade kx early

/-- The last member has its only key and announces that. -/
theorem booked_openOffice (kx : KeyExchange) (seat : t.member.seat = some s)
    (fresh : s.keysComputed = 1) (due : (t.account past).Due c) :
    ((openOffice kx s t).account past).Booked c := by
  unfold openOffice
  split
  · next behind =>
    have early : (t.account past).Early c := by
      refine due.early seat ?_
      change s.keysComputed < t.member.size - s.id + 1
      omega
    split
    · rw [Turn.account_keepSending]
      exact early.booked
    · exact booked_attendQueue kx early
  · dsimp only
    rw [account_passToken]
    refine booked_announceKey ?_
    exact due.resigned seat

/-- A member that was seated is told its position, its office and its first key. -/
theorem due_firstKey {a : Account} (early : a.Early c) (free : a.seat = none)
    (fresh : s.keysComputed = 1) (one : s.tree.length = 1)
    (seated : t.account past = { a with seat := some s }) :
    ((reportKey ((t.emit (.assigned s.id)).emit (.becameSponsor s.id))).account past).Due c := by
  have seat : t.member.seat = some s := congrArg (fun a ↦ a.seat) seated
  rw [account_reportKey (t := (t.emit _).emit _) seat, Turn.account_emit, Turn.account_emit, seated,
    Account.tell_tell, Account.tell_tell]
  exact early.seated free fresh one _

/-- A seat that cannot be taken is told as a failure, which counts for nothing. -/
theorem booked_takeSeat (kx : KeyExchange) (groupPublic : PublicValue) (id : Nat)
    (free : t.member.seat = none) (early : (t.account past).Early c) :
    ((takeSeat kx groupPublic id t).account past).Booked c := by
  unfold takeSeat
  split
  · next fault =>
    rw [Turn.account_emit]
    exact (early.aside (e := .failed _) trivial).booked
  · next s granted =>
    obtain ⟨root, rootPublic, -, -, named⟩ := firstSeat_eq_ok granted
    obtain ⟨rfl, fresh, one⟩ : s.id = id ∧ s.keysComputed = 1 ∧ s.tree.length = 1 := by
      rw [named]
      exact ⟨rfl, rfl, rfl⟩
    dsimp only
    refine booked_openOffice kx ?_ fresh (due_firstKey early free fresh one ?_)
    · rw [Follows.member_reportKey, Turn.member_emit, Turn.member_emit, Follows.member_cancel,
        Follows.member_cancel]
      rfl
    · rw [Turn.account_cancel, Turn.account_cancel]
      rfl

theorem booked_answerRequest (kx : KeyExchange) (service : ServiceId) (value : PublicValue)
    (source : Endpoint) (early : (t.account past).Early c) :
    ((answerRequest kx service value source t).account past).Booked c := by
  have waits : ((t.modify fun c ↦ c.enqueue ⟨source, value⟩).account past).Early c := by
    rwa [Turn.account_modify past t (standing_enqueue _ _)]
  unfold answerRequest
  split
  · exact early.booked
  · split
    · exact early.booked
    · dsimp only
      split
      · exact booked_attendQueue kx waits
      · exact waits.booked

/-- A hand-over seats the member that it names, and gives every other one keys to compute. -/
theorem booked_answerResponse (kx : KeyExchange) (r : Response) (source : Endpoint)
    (early : (t.account past).Early c) :
    ((answerResponse kx r source t).account past).Booked c := by
  have learns : ((t.modify (learnFrom r source)).account past).Early c := by
    rwa [Turn.account_modify past t (standing_learnFrom _ r source)]
  unfold answerResponse
  split
  · exact early.booked
  · split
    · exact early.booked
    · dsimp only
      split
      · split
        · exact learns.booked
        · next fits =>
          refine booked_takeSeat kx _ _ ?_ learns
          simp_all
      · exact booked_makeProgress kx learns

theorem booked_takeAnswer (kx : KeyExchange) (service : ServiceId) (id : MemberId)
    (value : PublicValue) (source : Endpoint) (early : (t.account past).Early c) :
    ((takeAnswer kx service id value source t).account past).Booked c := by
  unfold takeAnswer
  split
  · exact early.booked
  · refine booked_makeProgress kx ?_
    rwa [Turn.account_modify past t]
    rw [standing_learn, standing_hearAssigned]

/-- The token itself is told, and counts for nothing. -/
theorem booked_holdToken (kx : KeyExchange) (source : Endpoint) (s : Seat)
    (early : (t.account past).Early c) : ((holdToken kx source s t).account past).Booked c := by
  unfold holdToken
  dsimp only
  generalize held : (if t.member.token.held = true then t
    else (t.modify fun c ↦ { c with token.held := true }).emit (.tokenReceived source)) = u
  have early : (u.account past).Early c := by
    rw [← held]
    split
    · exact early
    · rw [Turn.account_emit]
      exact Account.Early.aside (e := .tokenReceived source) early trivial
  split
  · split
    · exact early.booked
    · rw [account_announceEnd]
      exact early.booked
  · split
    · rw [Turn.account_unicast]
      exact early.booked
    · rw [account_tendToken]
      exact booked_cascade kx early

theorem booked_answerToken (kx : KeyExchange) (target : Nat) (source : Endpoint)
    (early : (t.account past).Early c) :
    ((answerToken kx target source t).account past).Booked c := by
  unfold answerToken
  split
  · exact early.booked
  · split
    · exact early.booked
    · have heard : ((t.modify fun c ↦ c.hearAssigned source).account past).Early c := by
        rwa [account_hearAssigned]
      dsimp only
      split
      · exact booked_holdToken kx source _ heard
      · rw [account_overhearToken]
        exact heard.booked

/-- A turn that keeps the ledger.  If it ends the run, it does so last. -/
def Closes (past : List Event) (c : Chain) (t : Turn Chain) : Prop :=
  ∃ u, (u.account past).Booked c ∧ (t = u ∨ t = u.endRun)

/-- A reaction need not end the run. -/
theorem closes_of_booked (booked : (t.account past).Booked c) : Closes past c t :=
  ⟨t, booked, .inl rfl⟩

/-- A reaction that tells nothing leaves right books right. -/
theorem closes_of_quiet {u : Turn Chain} (early : (t.account past).Early c)
    (quiet : u.account past = t.account past) : Closes past c u := by
  refine closes_of_booked ?_
  rw [quiet]
  exact early.booked

/-- Whoever hears of the end ends its own run and tells that last. -/
theorem closes_answerFinish (source : Endpoint) (early : (t.account past).Early c) :
    Closes past c (answerFinish source t) := by
  unfold answerFinish
  split
  · exact closes_of_booked early.booked
  · split
    · exact ⟨t, early.booked, .inr rfl⟩
    · refine ⟨t.unicast source .finishAck, ?_, .inr rfl⟩
      rw [Turn.account_unicast]
      exact early.booked

theorem closes_answerFinishAck (source : Endpoint) (early : (t.account past).Early c) :
    Closes past c (answerFinishAck source t) := by
  unfold answerFinishAck
  split
  · exact closes_of_booked early.booked
  · split
    · exact closes_of_booked early.booked
    · dsimp only
      split
      · refine ⟨_, ?_, .inr rfl⟩
        rw [Turn.account_cancel, Turn.account_cancel]
        exact early.booked
      · exact closes_of_booked early.booked

/-- Whatever is heard, the books are right when the run goes on, and right up to the end when it
does not. -/
theorem closes_answer (kx : KeyExchange) (m : Message) (source : Endpoint)
    (early : (t.account past).Early c) : Closes past c (answer kx m source t) := by
  cases m with
  | find service => exact closes_of_quiet early (account_answerFind past t service)
  | offer service => exact closes_of_quiet early (account_answerOffer past t service source)
  | request service value =>
    exact closes_of_booked (booked_answerRequest kx service value source early)
  | response r => exact closes_of_booked (booked_answerResponse kx r source early)
  | infoRequest phase service ids =>
    exact closes_of_quiet early (account_answerQuestion past t phase service ids source)
  | infoResponse phase service id value =>
    exact closes_of_booked (booked_takeAnswer kx service id value source early)
  | token target => exact closes_of_booked (booked_answerToken kx target.toNat source early)
  | finish => exact closes_answerFinish source early
  | finishAck => exact closes_answerFinishAck source early
  | distributed body => exact closes_of_booked early.booked

theorem closes_runTask (kx : KeyExchange) (task : Task) (early : (t.account past).Early c) :
    Closes past c (runTask kx task t) := by
  unfold runTask
  cases task with
  | infoRequest => exact closes_of_booked (booked_attendQueue kx early)
  | finishTimeout => exact ⟨t, early.booked, .inr rfl⟩
  | response | synchRequest | synchToken =>
    refine closes_of_quiet early ?_
    dsimp only
    split <;> simp
  | _ => exact closes_of_quiet early (by simp)

theorem closes_expire (kx : KeyExchange) (task : Task) (early : (t.account past).Early c) :
    Closes past c (expire kx task t) := by
  unfold expire
  dsimp only
  split
  · exact closes_runTask kx task early
  · exact closes_of_booked early.booked

/-- A member that is alone ends its run with its start. -/
theorem closes_begin (nonempty : 0 < t.member.size) (free : t.member.seat = none)
    (early : (t.account past).Early c) : Closes past c (begin t) := by
  unfold begin openGroup
  dsimp only
  split
  · generalize reported : reportKey _ = u
    have due : (u.account past).Due c := by
      rw [← reported]
      exact due_firstKey (s := t.member.openingSeat) early free rfl rfl rfl
    have seat : u.member.seat = some t.member.openingSeat := by
      rw [← reported, Follows.member_reportKey]
      rfl
    have size : u.member.size = t.member.size := by
      rw [← reported, Follows.member_reportKey]
      rfl
    split
    · exact ⟨_, booked_announceKey due, .inr rfl⟩
    · next many =>
      -- Somebody is to come, so keys are missing and nothing is there to announce.
      refine closes_of_booked ?_
      rw [Turn.account_keepSending]
      refine (due.early seat ?_).booked
      change 1 < u.member.size - 1 + 1
      omega
  · refine closes_of_booked ?_
    rw [Turn.account_keepSending]
    exact early.booked

/-! ## Steps -/

/-- What a step that follows the given events tells, and how it ends. -/
structure Keeps (past : List Event) (c : Chain) (t : Turn Chain) : Prop where
  sums : t.member.standing.Sums (past ++ t.events)
  kept : ∀ id, c.memberId? = some id → t.member.memberId? = some id
  current : t.member.announced = t.member.standing.full
  known : t.member.announced = (c.announced || t.member.isComplete)
  ends : .terminate ∈ t.effects ↔ c.finished = false ∧ t.member.finished = true
  last : .terminate ∈ t.effects → ∃ first, .terminate ∉ first ∧
    t.effects = first ++ [.emit (.finished t.member.memberId?), .terminate]

theorem kept_of_booked (booked : (t.account past).Booked c) :
    ∀ id, c.memberId? = some id → t.member.memberId? = some id := by
  intro id known
  obtain ⟨s, seat, rfl⟩ := Option.map_eq_some_iff.mp known
  obtain ⟨s', seat', same⟩ := booked.kept s seat
  exact Option.map_eq_some_iff.mpr ⟨s', seat', same⟩

theorem runs_of_booked (booked : (t.account past).Booked c) : .terminate ∉ t.effects := by
  have goes := booked.goes
  simpa [Turn.account] using goes

theorem keeps_of_booked (booked : (t.account past).Booked c) : Keeps past c t where
  sums := booked.sums
  kept := kept_of_booked booked
  current := booked.current
  known := booked.known
  ends := by
    have running : t.member.finished = c.finished := booked.running
    simp [runs_of_booked booked, running]
  last ends := absurd ends (runs_of_booked booked)

/-- A run is ended once, with two effects. -/
theorem endRun_of_running (running : t.member.finished = false) :
    t.endRun.member = { t.member with finished := true } ∧
      t.endRun.effects =
        t.effects ++ [.emit (.finished t.member.memberId?), .terminate] := by
  unfold Turn.endRun
  rw [if_neg (by simp [running])]
  refine ⟨rfl, ?_⟩
  change t.effects ++ [_] ++ [_] = _
  rw [List.append_assoc]
  rfl

/-- The end is told once, by a run that did not stop before. -/
theorem keeps_endRun (booked : (t.account past).Booked c) : Keeps past c t.endRun := by
  have same : t.member.finished = c.finished := booked.running
  by_cases stopped : t.member.finished = true
  · have idle : t.endRun = t := if_pos stopped
    rw [idle]
    exact keeps_of_booked booked
  · rw [Bool.not_eq_true] at stopped
    obtain ⟨member, effects⟩ := endRun_of_running stopped
    have kept := kept_of_booked booked
    constructor
    · have told := booked.sums.ended stopped t.member.memberId?
      rw [member, Turn.events, effects, List.filterMap_append, ← List.append_assoc]
      exact told
    · rw [member]
      exact kept
    · rw [member]
      exact booked.current
    · rw [member]
      exact booked.known
    · rw [effects, member]
      simp [← same, stopped]
    · rw [effects, member]
      exact fun _ ↦ ⟨t.effects, runs_of_booked booked, rfl⟩

theorem Closes.keeps (closes : Closes past c t) : Keeps past c t := by
  obtain ⟨u, booked, rfl | rfl⟩ := closes
  · exact keeps_of_booked booked
  · exact keeps_endRun booked

/-- Before it does anything in a step, a member is what the events of earlier steps tell. -/
theorem early_of_sums (sums : c.standing.Sums past) (current : c.announced = c.standing.full) :
    (({ member := c } : Turn Chain).account past).Early c where
  sums := by
    change c.standing.Sums (past ++ [])
    rwa [List.append_nil]
  kept s seat := ⟨s, seat, rfl⟩
  running := rfl
  goes := rfl
  still := rfl
  current := current

/-- One input changes the ledger by what it makes the member tell. -/
theorem keeps_step (kx : KeyExchange) {input : Input} (allowed : c.OnceStarted input)
    (sums : c.standing.Sums past) (current : c.announced = c.standing.full) :
    Keeps past c ((Chain.protocol kx).step input c) := by
  have early := early_of_sums sums current
  cases input with
  | start => exact absurd rfl allowed.2
  | timer task => exact (closes_expire kx task early).keeps
  | message m source => exact allowed.1.elim
  | datagram bytes source =>
    rcases (Chain.protocol kx).step_datagram_cases bytes source c with same | ⟨said, -, same⟩
    · rw [same]
      exact (closes_of_booked early.booked).keeps
    · rw [same]
      exact (closes_answer kx said source early).keeps

end Chain

/-! ## Runs -/

namespace Protocol

variable {σ : Type} {p : Protocol σ} {m : σ} {input : Input} {inputs : List Input}

/-- All events of a run. -/
def told (p : Protocol σ) : σ → List Input → List Event
  | _, [] => []
  | m, input :: inputs => (p.step input m).events ++ p.told (p.step input m).member inputs

theorem after_concat : p.after m (inputs ++ [input]) = (p.step input (p.after m inputs)).member :=
  List.foldl_concat ..

theorem told_concat :
    p.told m (inputs ++ [input]) = p.told m inputs ++ (p.step input (p.after m inputs)).events := by
  induction inputs generalizing m with
  | nil => simp [told, after]
  | cons first inputs ih =>
    rw [List.cons_append, told, ih, told, List.append_assoc]
    rfl

end Protocol

/-- A member is started first and never again, and then anybody may say anything to it at any
time. -/
def Launched : List Input → Prop
  | [] => True
  | first :: later =>
    first = .start ∧ ∀ input ∈ later, Protocol.Outer (fun _ ↦ True) input ∧ input ≠ .start

/-- A launched run goes on with anything but another start. -/
theorem launched_concat {past : List Input} {input : Input}
    (launched : Launched (past ++ [input])) :
    Launched past ∧ (past = [] ∧ input = .start ∨
      past ≠ [] ∧ Protocol.Outer (fun _ ↦ True) input ∧ input ≠ .start) := by
  cases past with
  | nil => exact ⟨trivial, .inl ⟨rfl, launched.1⟩⟩
  | cons first later =>
    obtain ⟨start, allowed⟩ := launched
    refine ⟨⟨start, fun input here ↦ allowed input (by simp [here])⟩, .inr ⟨by simp, ?_⟩⟩
    exact allowed input (by simp)

namespace Chain

/-- What a member has told in a run. -/
structure Accounts (kx : KeyExchange) (m : Chain) (inputs : List Input) : Prop where
  sums : ((Chain.protocol kx).after m inputs).standing.Sums ((Chain.protocol kx).told m inputs)
  current : ((Chain.protocol kx).after m inputs).announced =
    ((Chain.protocol kx).after m inputs).standing.full
  known : ((Chain.protocol kx).after m inputs).announced = true ↔
    ∃ earlier, earlier <+: inputs ∧
      ((Chain.protocol kx).after m earlier).groupSecret?.isSome = true
  kept : ∀ earlier, earlier <+: inputs →
    ∀ id, ((Chain.protocol kx).after m earlier).memberId? = some id →
      ((Chain.protocol kx).after m inputs).memberId? = some id

variable {kx : KeyExchange} {m : Chain} {past : List Input} {input : Input}

theorem Accounts.concat (accounts : Accounts kx m past)
    (keeps : Keeps ((Chain.protocol kx).told m past) ((Chain.protocol kx).after m past)
      ((Chain.protocol kx).step input ((Chain.protocol kx).after m past))) :
    Accounts kx m (past ++ [input]) := by
  constructor
  · rw [Protocol.after_concat, Protocol.told_concat]
    exact keeps.sums
  · rw [Protocol.after_concat]
    exact keeps.current
  · rw [Protocol.after_concat, keeps.known, Bool.or_eq_true, accounts.known, ← isSome_groupSecret?,
      ← Protocol.after_concat]
    simp only [List.prefix_concat_iff]
    constructor
    · rintro (⟨earlier, before, found⟩ | found)
      · exact ⟨earlier, .inr before, found⟩
      · exact ⟨_, .inl rfl, found⟩
    · rintro ⟨earlier, rfl | before, found⟩
      · exact .inr found
      · exact .inl ⟨earlier, before, found⟩
  · intro earlier before id known
    rcases List.prefix_concat_iff.mp before with rfl | before
    · exact known
    · rw [Protocol.after_concat]
      exact keeps.kept id (accounts.kept earlier before id known)

section Created

variable {config : MemberConfig} {endpoint : Endpoint} {keys : KeyPair} {random : Random}
  {t : Turn Chain} (created : create config endpoint keys random = .ok t)

include created

theorem accounts_created : Accounts kx t.member [] := by
  obtain ⟨-, member⟩ := create_member created
  have nothing : ((Chain.protocol kx).after t.member []).groupSecret? = none := by
    rw [member]
    rfl
  rw [member] at nothing ⊢
  refine ⟨⟨rfl, rfl, nofun, nofun⟩, rfl, ⟨nofun, ?_⟩, ?_⟩
  · rintro ⟨earlier, before, found⟩
    rw [List.prefix_nil.mp before, nothing] at found
    cases found
  · intro earlier before id known
    rwa [List.prefix_nil.mp before] at known

theorem keeps_of_launched (launched : Launched (past ++ [input]))
    (accounts : Accounts kx t.member past) :
    Keeps ((Chain.protocol kx).told t.member past) ((Chain.protocol kx).after t.member past)
      ((Chain.protocol kx).step input ((Chain.protocol kx).after t.member past)) := by
  obtain ⟨-, ⟨rfl, rfl⟩ | ⟨-, allowed⟩⟩ := launched_concat launched
  · obtain ⟨accepted, member⟩ := create_member created
    refine (closes_begin ?_ ?_ (early_of_sums accounts.sums accounts.current)).keeps
    · rw [member]
      exact MemberConfig.size_pos accepted
    · rw [member]
      rfl
  · exact keeps_step kx allowed accounts.sums accounts.current

/-- The induction is on the inputs, from the last one back. -/
theorem accounts_of_launched (kx : KeyExchange) {inputs : List Input}
    (launched : Launched inputs) : Accounts kx t.member inputs := by
  induction inputs using List.reverseRecOn with
  | nil => exact accounts_created created
  | append_singleton past input ih =>
    have accounts := ih (launched_concat launched).1
    exact accounts.concat (keeps_of_launched created launched accounts)

end Created

end Chain

/-- What a member holds fits together, and fits what it has told. -/
structure Chain.AddsUp (c : Chain) (told : List Event) : Prop where
  tree : c.tree?.isSome = c.memberId?.isSome
  nodes : c.keysComputed = (c.tree?.map KeyTree.length).getD 0
  once : ∀ kind ∈ milestones, tally told kind ≤ 1
  passed : milestones.map (tally told) = c.standing.passed.map Bool.toNat
  keys : told.filterMap Event.keys? = List.range' 1 c.keysComputed

theorem Standing.Sums.addsUp {c : Chain} {told : List Event} (sums : c.standing.Sums told) :
    c.AddsUp told where
  tree := by
    rw [Chain.tree?, Chain.memberId?, Option.isSome_map, Option.isSome_map]
  nodes := by
    unfold Chain.keysComputed Chain.tree?
    cases seat : c.seat with
    | none => rfl
    | some s => exact (sums.tree s seat).symm
  once _ here := sums.tally_le_one here
  passed := sums.passed
  keys := sums.keys

theorem exists_established_iff {t : Turn Chain} :
    (∃ id fingerprint, .emit (.groupKeyEstablished id fingerprint) ∈ t.effects) ↔
      0 < tally t.events "GroupKeyEstablished" := by
  unfold tally Turn.events
  rw [List.countP_pos_iff]
  constructor
  · rintro ⟨id, fingerprint, here⟩
    exact ⟨.groupKeyEstablished id fingerprint, List.mem_filterMap.mpr ⟨_, here, rfl⟩,
      by simp [Event.name]⟩
  · rintro ⟨e, here, named⟩
    obtain ⟨effect, here, emitted⟩ := List.mem_filterMap.mp here
    cases effect with
    | emit e' =>
      cases emitted
      cases e with
      | groupKeyEstablished id fingerprint => exact ⟨id, fingerprint, here⟩
      | _ => simp [Event.name] at named
    | _ => cases emitted

/-- The key is announced as soon as it was ever known. -/
theorem Chain.Accounts.announced_eq_false_iff {kx : KeyExchange} {m : Chain} {past : List Input}
    (accounts : Chain.Accounts kx m past) :
    ((Chain.protocol kx).after m past).announced = false ↔
      ∀ earlier, earlier <+: past → ((Chain.protocol kx).after m earlier).groupSecret? = none := by
  rw [← Bool.not_eq_true, accounts.known]
  simp

/-- The group key is announced in the step in which it is first there. -/
theorem Chain.Accounts.established_iff {kx : KeyExchange} {m : Chain} {past : List Input}
    {u : Turn Chain} (accounts : Chain.Accounts kx m past)
    (keeps : Chain.Keeps ((Chain.protocol kx).told m past) ((Chain.protocol kx).after m past) u) :
    (∃ id fingerprint, .emit (.groupKeyEstablished id fingerprint) ∈ u.effects) ↔
    (∀ earlier, earlier <+: past → ((Chain.protocol kx).after m earlier).groupSecret? = none) ∧
      u.member.groupSecret?.isSome = true := by
  have before : tally ((Chain.protocol kx).told m past) "GroupKeyEstablished" =
      ((Chain.protocol kx).after m past).announced.toNat := accounts.sums.established
  have told : tally ((Chain.protocol kx).told m past ++ u.events) "GroupKeyEstablished" =
      u.member.announced.toNat := keeps.sums.established
  rw [tally_append, before, keeps.known] at told
  rw [exists_established_iff, ← accounts.announced_eq_false_iff, isSome_groupSecret?]
  cases announced : ((Chain.protocol kx).after m past).announced <;>
    cases complete : u.member.isComplete <;> simp_all

/-- Whatever reaches a member that was started once, its tree has as many nodes as it has computed
keys, and its id stays.  What happens once is told once and not before, and the keys are told one by
one.  The group key is announced in the very step in which it is first there.  A run is ended by the
last effect of the step in which the member finishes, right after it has told so. -/
theorem ledger_adds_up {kx : KeyExchange} {config : MemberConfig} {endpoint : Endpoint}
    {keys : KeyPair} {random : Random} {t : Turn Chain}
    (created : Chain.create config endpoint keys random = .ok t) :
    (∀ inputs, Launched inputs →
      ((Chain.protocol kx).after t.member inputs).AddsUp
        ((Chain.protocol kx).told t.member inputs) ∧
      ∀ earlier, earlier <+: inputs →
        ∀ id, ((Chain.protocol kx).after t.member earlier).memberId? = some id →
          ((Chain.protocol kx).after t.member inputs).memberId? = some id) ∧
    ∀ past input, Launched (past ++ [input]) →
      ∀ c u, c = (Chain.protocol kx).after t.member past → u = (Chain.protocol kx).step input c →
        ((∃ id fingerprint, .emit (.groupKeyEstablished id fingerprint) ∈ u.effects) ↔
          (∀ earlier, earlier <+: past →
            ((Chain.protocol kx).after t.member earlier).groupSecret? = none) ∧
          u.member.groupSecret?.isSome = true) ∧
        (.terminate ∈ u.effects ↔ c.finished = false ∧ u.member.finished = true) ∧
        (.terminate ∈ u.effects → ∃ first id, .terminate ∉ first ∧
          u.effects = first ++ [.emit (.finished id), .terminate]) := by
  refine ⟨fun inputs launched ↦ ?_, ?_⟩
  · have accounts := Chain.accounts_of_launched created kx launched
    exact ⟨accounts.sums.addsUp, accounts.kept⟩
  · rintro past input launched _ _ rfl rfl
    have accounts := Chain.accounts_of_launched created kx (launched_concat launched).1
    have keeps := Chain.keeps_of_launched created launched accounts
    refine ⟨accounts.established_iff keeps, keeps.ends, fun ends ↦ ?_⟩
    obtain ⟨first, goes, effects⟩ := keeps.last ends
    exact ⟨first, _, goes, effects⟩

namespace Couple

/-- The token comes early, and one more candidate comes after it. -/
def script : List Input := [.start, introduction, token, lateRequest]

end Couple

/-- The sponsor of two computes three keys.  It has the group key when the token comes, and loses it
with the third. -/
theorem ledger_adds_up_couple :
    Launched Couple.script ∧
    ((Chain.protocol x25519).told Couple.sponsor Couple.script).filterMap Event.keys? =
      [1, 2, 3] ∧
    ∃ id fingerprint, .emit (.groupKeyEstablished id fingerprint) ∈
      ((Chain.protocol x25519).step Couple.token
        ((Chain.protocol x25519).after Couple.sponsor [.start, Couple.introduction])).effects := by
  have launched : Launched Couple.script := ⟨rfl, by
    simp [Couple.introduction, Couple.token, Couple.lateRequest, Couple.hear, Protocol.Outer]⟩
  obtain ⟨runs, steps⟩ := @ledger_adds_up x25519 _ _ _ _ _ Couple.created
  have early : Launched ([.start, Couple.introduction] ++ [Couple.token]) :=
    ⟨rfl, by simp [Couple.introduction, Couple.token, Couple.hear, Protocol.Outer]⟩
  have three : ((Chain.protocol x25519).after Couple.sponsor Couple.script).keysComputed = 3 := by
    decide +kernel
  have unknown : ∀ earlier ∈ [.start, Couple.introduction].inits,
      ((Chain.protocol x25519).after Couple.sponsor earlier).groupSecret? = none := by
    decide +kernel
  have keys := (runs Couple.script launched).1.keys
  obtain ⟨established, -⟩ := steps _ Couple.token early _ _ rfl rfl
  refine ⟨launched, keys.trans ?_, established.mpr ⟨fun earlier before ↦ ?_, ?_⟩⟩
  · change List.range' 1 ((Chain.protocol x25519).after Couple.sponsor Couple.script).keysComputed =
      _
    rw [three]
    rfl
  · exact unknown earlier ((List.mem_inits _ _).mpr before)
  · decide +kernel

end GroupKey
