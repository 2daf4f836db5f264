import GroupKey.Proofs.Duplicates
import GroupKey.Proofs.Ledger

/-!
# First come, first served

A sponsor lets in the oldest candidate that it can let in.  Those who asked before are passed over
without a trace, and those who asked later keep their places.  A member that is not the sponsor
writes down who asks, each endpoint once and in the order of the first requests.
-/

namespace GroupKey

variable {kx : KeyExchange}

/-- Whatever secret two sides agree on has a public value. -/
def KeyExchange.Publishes (kx : KeyExchange) : Prop :=
  ∀ s value root, kx.agree s value = .ok root → ∃ shown, kx.publicOf root = .ok shown

/-- An accepted secret is as long as a key, which is all that its public value takes. -/
theorem x25519_publishes : x25519.Publishes := by
  intro s value root agreed
  change X25519.agree s value = .ok root at agreed
  unfold X25519.agree at agreed
  have whole : root.bytes.length = Curve25519.keyLength := by
    cases secret : X25519.checkSecret s with
    | error e => simp [secret, bind, Except.bind] at agreed
    | ok _ =>
      cases public_ : X25519.checkPublic value with
      | error e => simp [secret, public_, bind, Except.bind] at agreed
      | ok _ =>
        simp only [secret, public_, bind, Except.bind] at agreed
        split at agreed
        · cases agreed
        · cases agreed
          exact Curve25519.length_multiply _ _
  have checked : X25519.checkSecret root = .ok () := if_pos whole
  refine ⟨⟨Curve25519.multiply root.bytes Curve25519.basePoint⟩, ?_⟩
  change X25519.publicOf root = _
  rw [X25519.publicOf, checked]
  rfl

/-- The public value of the root can be had, whether it is stored or computed. -/
def KeyTree.Rooted (kx : KeyExchange) (t : KeyTree) : Prop :=
  ∃ value, t.rootPublic kx = .ok value ∧ kx.publicOf t.rootSecret = .ok value

/-- The new root is a secret that was agreed on. -/
theorem KeyTree.rooted_of_extend {t tree : KeyTree} {value : PublicValue}
    (publishes : kx.Publishes) (extended : t.extend kx value false = .ok tree) :
    tree.Rooted kx := by
  obtain ⟨root, agreed, rfl⟩ := KeyTree.extend_silent_eq_ok extended
  obtain ⟨shown, known⟩ := publishes _ _ _ agreed
  exact ⟨shown, known, known⟩

namespace Chain

variable {cause input : Input} {c d : Chain} {t : Turn Chain} {said : List Outgoing}
  {s new : Seat} {candidate : Candidate} {front rest : List Candidate} {before : PublicValue}

/-- A candidate that a sponsor can let in. -/
structure Admissible (kx : KeyExchange) (c : Chain) (s : Seat) (candidate : Candidate) : Prop where
  unknown : c.directory.containsEndpoint candidate.endpoint = false
  accepted : ∃ root, kx.agree s.tree.rootSecret candidate.publicValue = .ok root

/-- The seat of a sponsor that has let a candidate in, with the secret they agreed on. -/
def seatWith (s : Seat) (root : Secret) (candidate : Candidate) : Seat :=
  { s with
    tree := ⟨⟨root, none, none, candidate.publicValue⟩, s.tree.nodes⟩
    keysComputed := s.keysComputed + 1
    sponsor := false }

/-- Where the root can be published and the value is accepted, nothing can go wrong. -/
theorem seatAfter_of_agree {root : Secret} (shown : s.tree.rootPublic kx = .ok before)
    (agreed : kx.agree s.tree.rootSecret candidate.publicValue = .ok root) :
    seatAfter kx s candidate = .ok (seatWith s root candidate, before) := by
  simp [seatAfter, KeyTree.extend, shown, agreed, seatWith, bind, Except.bind, pure, Except.pure]

/-- Whoever is not admissible is passed over. -/
theorem unfit_of_not_admissible (refused : ¬ c.Admissible kx s candidate) :
    c.Unfit kx s candidate := by
  by_cases known : c.directory.containsEndpoint candidate.endpoint = true
  · exact .inl known
  · cases granted : seatAfter kx s candidate with
    | error fault => exact .inr ⟨fault, granted⟩
    | ok result =>
      obtain ⟨tree, -, extended, -⟩ := seatAfter_eq_ok granted
      obtain ⟨root, agreed, -⟩ := KeyTree.extend_silent_eq_ok extended
      exact absurd ⟨Bool.eq_false_iff.mpr known, root, agreed⟩ refused

/-- Candidates that cannot be let in leave the sponsor as it was. -/
theorem enrolFirst_append (refused : ∀ p ∈ front, t.member.Unfit kx s p) (rest : List Candidate) :
    enrolFirst kx s (front ++ rest) t = enrolFirst kx s rest t := by
  induction front with
  | nil => rfl
  | cons p front ih =>
    rw [List.cons_append, enrolFirst_of_unfit (refused p List.mem_cons_self)]
    exact ih fun p here ↦ refused p (List.mem_cons_of_mem _ here)

theorem outgoing_keepSending {σ : Type} [Busy σ] {t : Turn σ} {task : Task}
    (idle : t.isArmed task = false) (m : Message) :
    (t.keepSending task none m).outgoing = t.outgoing ++ [⟨none, m⟩] := by
  simp [Turn.keepSending, idle, Turn.send]

/-- An admission sends the hand-over and nothing else. -/
theorem outgoing_enrol (idle : t.member.agenda.isArmed .response = false) (old new : Seat)
    (before : PublicValue) (candidate : Candidate) :
    (enrol old new before candidate t).outgoing =
      t.outgoing ++ [⟨none, .response (t.member.responseFor (old.id + 1) candidate before)⟩] := by
  have free : (reportKey (letIn old new before candidate t)).isArmed .response = false := by
    rw [Follows.isArmed_reportKey, Follows.isArmed_letIn]
    exact idle
  rw [enrol_eq, outgoing_announceKey, outgoing_keepSending free, outgoing_reportKey,
    Follows.outgoing_letIn]

theorem admissions_reportKey (t : Turn Chain) : (reportKey t).admissions = t.admissions := by
  unfold reportKey
  split <;> simp [Turn.admissions, Event.admission?]

theorem admissions_announceKey (t : Turn Chain) : (announceKey t).admissions = t.admissions := by
  unfold announceKey
  split
  · split
    · rfl
    · simp [Turn.admissions, Event.admission?]
  · rfl

theorem events_letIn (old new : Seat) (before : PublicValue) (candidate : Candidate)
    (t : Turn Chain) : (letIn old new before candidate t).events =
      t.events ++ [.admitted (old.id + 1) candidate.endpoint] := by
  unfold letIn
  rw [Turn.events_emit, Turn.events_cancel, Turn.events_cancel, Turn.events_modify, Turn.events,
    effects_countAdmission, Turn.events]

/-- An admission tells of one newcomer. -/
theorem admissions_enrol (old new : Seat) (before : PublicValue) (candidate : Candidate)
    (t : Turn Chain) : (enrol old new before candidate t).admissions =
      t.admissions ++ [(old.id + 1, candidate.endpoint)] := by
  rw [enrol_eq, admissions_announceKey, Turn.admissions, Turn.events_keepSending]
  change (reportKey _).admissions = _
  rw [admissions_reportKey, Turn.admissions, events_letIn]
  simp [Turn.admissions, Event.admission?]

/-! ## The queue of a sponsor -/

/-- Exactly this candidate was let in, and those behind it keep waiting. -/
structure LetsIn (kx : KeyExchange) (c : Chain) (s : Seat) (candidate : Candidate)
    (rest : List Candidate) (root : Secret) (before : PublicValue) (t : Turn Chain) : Prop where
  agreed : kx.agree s.tree.rootSecret candidate.publicValue = .ok root
  shown : kx.publicOf s.tree.rootSecret = .ok before
  member : ∃ agenda : Agenda, ∃ announced, t.member =
    { c with
      agenda, announced
      pending := rest
      seat := some (seatWith s root candidate)
      directory := (c.directory.record candidate.endpoint (s.id + 1) candidate.publicValue).2
      handOver := some { response := c.responseFor (s.id + 1) candidate before } } ∧
    agenda.isArmed .response
  said : t.outgoing = [⟨none, .response (c.responseFor (s.id + 1) candidate before)⟩]
  told : t.admissions = [(s.id + 1, candidate.endpoint)]

theorem attendQueue_of_known (seat : c.seat = some s) (isOpen : c.isOpen)
    (known : c.gapsBelow = []) : attendQueue kx { member := c } =
      enrolFirst kx s c.pending (({ member := c } : Turn Chain).cancel .infoRequest) := by
  simp [attendQueue, seat, isOpen, known, Follows.member_cancel]

/-- The candidates before the first admissible one are passed over, and those behind it are kept. -/
theorem attendQueue_letsIn (seat : c.seat = some s) (isOpen : c.isOpen) (known : c.gapsBelow = [])
    (rooted : s.tree.Rooted kx) (idle : c.agenda.isArmed .response = false)
    (queue : c.pending = front ++ candidate :: rest)
    (refused : ∀ p ∈ front, ¬ c.Admissible kx s p) (fit : c.Admissible kx s candidate) :
    ∃ root before, LetsIn kx c s candidate rest root before (attendQueue kx { member := c }) := by
  obtain ⟨before, stored, shown⟩ := rooted
  obtain ⟨unknown, root, agreed⟩ := fit
  have member := Follows.member_cancel ({ member := c } : Turn Chain) .infoRequest
  have passed : enrolFirst kx s (front ++ candidate :: rest)
      (({ member := c } : Turn Chain).cancel .infoRequest) =
      enrol s (seatWith s root candidate) before candidate
        ((({ member := c } : Turn Chain).cancel .infoRequest).modify
          fun c ↦ { c with pending := rest }) := by
    rw [enrolFirst_append, enrolFirst_of_granted]
    · simp [member, unknown]
    · exact seatAfter_of_agree stored agreed
    · intro p here
      have unfit : c.Unfit kx s p := unfit_of_not_admissible (refused p here)
      rw [member]
      exact unfit
  obtain ⟨agenda, announced, frame, armed⟩ := enrol_frame s (seatWith s root candidate) before
    candidate ((({ member := c } : Turn Chain).cancel .infoRequest).modify
      fun c ↦ { c with pending := rest })
  rw [attendQueue_of_known seat isOpen known, queue, passed]
  refine ⟨root, before, agreed, shown, ⟨agenda, announced, ?_, armed⟩, ?_, ?_⟩
  · rw [frame, Turn.member_modify, member]
    rfl
  · rw [outgoing_enrol, Turn.outgoing_modify, Turn.outgoing_cancel, Turn.member_modify, member]
    · rfl
    · rw [Turn.member_modify, member, Agenda.isArmed_remove, idle]
      rfl
  · rw [admissions_enrol, Turn.admissions, Turn.events_modify, Turn.events_cancel]
    rfl

/-- Where nobody can be let in the queue is forgotten, and nothing else. -/
theorem attendQueue_offers (seat : c.seat = some s) (isOpen : c.isOpen) (known : c.gapsBelow = [])
    (refused : ∀ p ∈ c.pending, ¬ c.Admissible kx s p) :
    ∃ agenda : Agenda, (attendQueue kx { member := c }).member = { c with agenda, pending := [] } ∧
      agenda.isArmed .offer := by
  have member := Follows.member_cancel ({ member := c } : Turn Chain) .infoRequest
  have passed : enrolFirst kx s (c.pending ++ [])
      (({ member := c } : Turn Chain).cancel .infoRequest) =
      enrolFirst kx s [] (({ member := c } : Turn Chain).cancel .infoRequest) := by
    refine enrolFirst_append (fun p here ↦ ?_) []
    have unfit : c.Unfit kx s p := unfit_of_not_admissible (refused p here)
    rw [member]
    exact unfit
  rw [List.append_nil] at passed
  obtain ⟨agenda, sent, armed⟩ := arms_keepSending
    ((({ member := c } : Turn Chain).cancel .infoRequest).modify fun c ↦ { c with pending := [] })
    .offer none (offerMessage (({ member := c } : Turn Chain).cancel .infoRequest).member)
  rw [attendQueue_of_known seat isOpen known, passed]
  refine ⟨agenda, ?_, by simp [armed]⟩
  rw [enrolFirst, sent, Turn.member_modify, member]

/-- Before it knows all members below itself a sponsor lets nobody in. -/
theorem attendQueue_asks (seat : c.seat = some s) (isOpen : c.isOpen) (unknown : c.gapsBelow ≠ []) :
    ∃ agenda : Agenda, (attendQueue kx { member := c }).member = { c with agenda } ∧
      agenda.isArmed .infoRequest := by
  obtain ⟨agenda, sent, armed⟩ := arms_keepSending { member := c } .infoRequest none
    (c.questionMessage .joining c.gapsBelow)
  refine ⟨agenda, ?_, by simp [armed]⟩
  rw [← sent]
  simp [attendQueue, seat, isOpen, unknown]

/-- Only what was handed over is repeated, and whoever handed over is not the sponsor. -/
structure Delegates (c : Chain) : Prop where
  resigned : c.handOver.isSome → ∃ s, c.seat = some s ∧ s.sponsor = false
  repeats : c.agenda.isArmed .response → c.handOver.isSome

theorem Delegates.move (delegates : c.Delegates) (move : Move kx cause c said d) :
    d.Delegates := by
  have resigned := move.handedOver delegates.resigned
  have repeats : d.agenda.isArmed .response → d.handOver.isSome := by
    cases move with
    | plan agenda grounds => exact fun here ↦ (grounds _ here).elim delegates.repeats id
    | learn endpoint id value =>
      obtain ⟨_, _, frame⟩ := learn_frame c endpoint id value
      rw [frame]
      exact delegates.repeats
    | enqueue service value source =>
      obtain ⟨_, frame⟩ := enqueue_frame c ⟨source, value⟩
      rw [frame]
      exact delegates.repeats
    | confirm => exact fun here ↦ by simpa [Chain.confirm] using delegates.repeats here
    | enrol => exact fun _ ↦ rfl
    | _ => exact delegates.repeats
  exact ⟨resigned, repeats⟩

/-- A sponsor has nothing to hand over yet. -/
theorem Delegates.idle (delegates : c.Delegates) (isOpen : c.isOpen) :
    c.agenda.isArmed .response = false := by
  refine Bool.eq_false_iff.mpr fun armed ↦ ?_
  obtain ⟨s, seat, resigned⟩ := delegates.resigned (delegates.repeats armed)
  simp [Chain.isOpen, seat, resigned] at isOpen

/-- The member's own key pair is one, and the public value of its root can be had. -/
structure Rooted (kx : KeyExchange) (c : Chain) : Prop where
  own : kx.publicOf c.keys.secret = .ok c.keys.publicValue
  root : ∀ s, c.seat = some s → s.tree.Rooted kx

theorem Rooted.reseat (rooted : c.Rooted kx) (keys : d.keys = c.keys) (seat : d.seat = some s)
    (root : s.tree.Rooted kx) : d.Rooted kx where
  own := by rw [keys, rooted.own]
  root s' seat' := by
    cases seat.symm.trans seat'
    exact root

/-- Every root is the member's own secret or one that was agreed on. -/
theorem Rooted.move (rooted : c.Rooted kx) (publishes : kx.Publishes)
    (move : Move kx cause c said d) : d.Rooted kx := by
  cases move with
  | learn endpoint id value =>
    obtain ⟨_, _, frame⟩ := learn_frame c endpoint id value
    rw [frame]
    exact { rooted with }
  | enqueue service value source =>
    obtain ⟨_, frame⟩ := enqueue_frame c ⟨source, value⟩
    rw [frame]
    exact { rooted with }
  | openGroup => exact rooted.reseat rfl rfl ⟨_, rfl, rooted.own⟩
  | takeSeat r source s named own value count free running granted =>
    obtain ⟨root, shown, -, known, rfl⟩ := firstSeat_eq_ok granted
    exact rooted.reseat rfl rfl ⟨shown, rfl, known⟩
  | resign s seat => exact rooted.reseat rfl rfl (rooted.root s seat)
  | enrol s new candidate rest before seat _ _ _ _ granted =>
    obtain ⟨tree, -, extended, rfl⟩ := seatAfter_eq_ok granted
    exact rooted.reseat rfl rfl (KeyTree.rooted_of_extend publishes extended)
  | extend s value tree seat known room granted =>
    exact rooted.reseat rfl rfl (KeyTree.rooted_of_extend publishes granted)
  | _ => exact { rooted with }

/-! ## Requests to other members -/

/-- Of each endpoint the first candidate, without the endpoints that are barred. -/
def firstOfEach (barred : Endpoint → Bool) : List Candidate → List Candidate
  | [] => []
  | p :: rest =>
    if barred p.endpoint then firstOfEach barred rest
    else p :: firstOfEach (fun e ↦ e = p.endpoint || barred e) rest

/-- Whose requests change nothing: the member itself, members that have an id, and those that wait
already. -/
def bars (c : Chain) (e : Endpoint) : Bool :=
  e = c.endpoint || c.directory.containsEndpoint e || c.pending.any fun p ↦ p.endpoint = e

end Chain

/-- The request that an input carries. -/
def Input.request? : Input → Option (ServiceId × Candidate)
  | .datagram bytes source =>
    match Message.decode bytes with
    | .ok (.request service value) => some (service, ⟨source, value⟩)
    | _ => none
  | _ => none

namespace Chain

variable {input : Input} {c : Chain} {candidate : Candidate}

/-- The candidates for the member's own service among those who ask. -/
def candidates (c : Chain) (inputs : List Input) : List Candidate :=
  (inputs.filterMap Input.request?).filterMap fun r ↦ if c.isFor r.1 then some r.2 else none

/-- A request is a datagram that reads as one. -/
theorem exists_of_request? {service : ServiceId}
    (asked : input.request? = some (service, candidate)) :
    ∃ bytes, input = .datagram bytes candidate.endpoint ∧
      Message.decode bytes = .ok (.request service candidate.publicValue) := by
  cases input with
  | datagram bytes source =>
    cases read : Message.decode bytes with
    | error e => simp [Input.request?, read] at asked
    | ok said =>
      cases said with
      | request service' value =>
        simp only [Input.request?, read, Option.some.injEq, Prod.mk.injEq] at asked
        obtain ⟨rfl, rfl⟩ := asked
        exact ⟨bytes, rfl, read⟩
      | _ => simp [Input.request?, read] at asked
  | _ => cases asked

/-- A member that is not the sponsor writes a candidate down, or nothing happens. -/
theorem step_request (kx : KeyExchange) {service : ServiceId} (waits : c.isSponsor = false)
    (running : c.finished = false) (asked : input.request? = some (service, candidate)) :
    (Chain.protocol kx).step input c =
      if c.isFor service = true ∧ c.bars candidate.endpoint = false then
        { member := { c with pending := c.pending ++ [candidate] } }
      else { member := c } := by
  obtain ⟨bytes, rfl, read⟩ := exists_of_request? asked
  by_cases own : candidate.endpoint = c.endpoint
  · rw [if_neg (by simp [bars, own])]
    exact Protocol.receive_own own
  · have heard : (Chain.protocol kx).step (.datagram bytes candidate.endpoint) c =
        answerRequest kx service candidate.publicValue candidate.endpoint { member := c } :=
      Protocol.receive_of_ok own read
    rw [heard, answerRequest]
    by_cases meant : c.isFor service = true
    · by_cases known : c.directory.containsEndpoint candidate.endpoint = true
      · simp [meant, running, known, bars]
      · by_cases queued : (c.pending.any fun p ↦ p.endpoint = candidate.endpoint) = true
        · simp [meant, running, known, bars, enqueue, queued, waits, Turn.modify]
        · have stays : Chain.isSponsor { c with pending := c.pending ++ [candidate] } = false :=
            waits
          have heeded : ¬ (!c.isFor service || c.finished) = true := by simp [meant, running]
          have free : c.bars candidate.endpoint = false := by simpa [bars, own, known] using queued
          have added : c.enqueue candidate = { c with pending := c.pending ++ [candidate] } :=
            if_neg queued
          have idle := Bool.eq_false_iff.mp stays
          rw [if_neg heeded, if_neg known]
          dsimp only [Turn.modify]
          rw [added, if_neg idle, if_pos ⟨meant, free⟩]
    · simp [meant]

/-- Whoever was written down is barred from then on. -/
theorem bars_concat (c : Chain) (candidate : Candidate) :
    bars { c with pending := c.pending ++ [candidate] } =
      fun e ↦ decide (e = candidate.endpoint) || c.bars e := by
  funext e
  simp [bars, eq_comm, Bool.or_comm, Bool.or_left_comm]

/-- However many ask, the queue grows at its end, and nothing else happens. -/
theorem after_requests (kx : KeyExchange) (inputs : List Input) (waits : c.isSponsor = false)
    (running : c.finished = false) (asks : ∀ input ∈ inputs, input.request?.isSome) :
    (Chain.protocol kx).after c inputs =
      { c with pending := c.pending ++ firstOfEach c.bars (c.candidates inputs) } := by
  induction inputs generalizing c with
  | nil => simp [Protocol.after, candidates, firstOfEach]
  | cons input inputs ih =>
    obtain ⟨⟨service, candidate⟩, asked⟩ :=
      Option.isSome_iff_exists.mp (asks input List.mem_cons_self)
    have later := fun input' here ↦ asks input' (List.mem_cons_of_mem input here)
    have first := step_request kx waits running asked
    change (Chain.protocol kx).after ((Chain.protocol kx).step input c).member inputs = _
    rw [first]
    by_cases meant : c.isFor service = true
    · have asking : c.candidates (input :: inputs) = candidate :: c.candidates inputs := by
        simp [candidates, asked, meant]
      rw [asking, firstOfEach]
      by_cases barred : c.bars candidate.endpoint = true
      · rw [if_neg (by simp [barred]), if_pos barred, ih waits running later]
      · have free : c.bars candidate.endpoint = false := by simpa using barred
        have stays : Chain.isSponsor { c with pending := c.pending ++ [candidate] } = false := waits
        rw [if_pos ⟨meant, free⟩, if_neg barred, ih stays running later, bars_concat,
          List.append_assoc]
        rfl
    · have deaf : c.candidates (input :: inputs) = c.candidates inputs := by
        simp [candidates, asked, meant]
      rw [if_neg (by simp [meant]), deaf, ih waits running later]

/-- Nothing is answered while the queue grows. -/
theorem silent_requests {inputs past : List Input} {input : Input} (waits : c.isSponsor = false)
    (running : c.finished = false) (asks : ∀ input ∈ inputs, input.request?.isSome)
    (part : past ++ [input] <+: inputs) :
    ((Chain.protocol kx).step input ((Chain.protocol kx).after c past)).effects = [] := by
  obtain ⟨⟨service, candidate⟩, asked⟩ :=
    Option.isSome_iff_exists.mp (asks input (part.subset (by simp)))
  have before := after_requests kx past waits running fun input' here ↦
    asks input' (part.subset (List.mem_append_left _ here))
  have stays : Chain.isSponsor
      { c with pending := c.pending ++ firstOfEach c.bars (c.candidates past) } = false := waits
  rw [before, step_request kx stays running asked]
  split <;> rfl

section Runs

variable {config : MemberConfig} {endpoint : Endpoint} {keys : KeyPair} {random : Random}
  {t : Turn Chain} (created : create config endpoint keys random = .ok t)
  (exposed : (Chain.protocol kx).Exposed OnceStarted
    ((Chain.protocol kx).step .start t.member).member c)

include created exposed

theorem delegates_of_exposed : c.Delegates := by
  obtain ⟨accepted, member⟩ := create_member created
  have fresh : t.member.Delegates := by
    rw [member]
    exact ⟨by simp, by simp [Agenda.isArmed]⟩
  have follows : Follows kx .start t.member ((Chain.protocol kx).step .start t.member) := by
    refine (Follows.start kx .start t.member).begin rfl ?_ ?_
    · rw [member]
    · rw [member]
      exact MemberConfig.size_pos accepted
  have started := follows.keeps fresh fun delegates move ↦ delegates.move move
  refine exposed_keeps created exposed started (fun delegates grounds ↦ ?_) fun delegates move ↦
    delegates.move move
  refine { delegates with repeats := fun armed ↦ ?_ }
  exact delegates.repeats ((grounds _ armed).resolve_left (by decide))

theorem rooted_of_exposed (publishes : kx.Publishes)
    (honest : kx.publicOf keys.secret = .ok keys.publicValue) : c.Rooted kx := by
  refine exposed_keeps created exposed ?_ (fun rooted _ ↦ { rooted with }) fun rooted move ↦
    rooted.move publishes move
  obtain ⟨agenda, announced, finished, begun | ⟨-, begun⟩⟩ := started_cases created
  · rw [begun]
    exact ⟨honest, nofun⟩
  · rw [begun]
    refine ⟨honest, ?_⟩
    rintro _ ⟨⟩
    exact ⟨_, rfl, honest⟩

end Runs

end Chain

/-- However a member has been talked to, as the sponsor it lets in the first candidate of its queue
that is no member yet and whose value is accepted.  The hand-over carries the public value that the
group had before, those behind the candidate stay in the queue, and those before it leave no trace.
The counter of its keys fits into its word after that, unless it had all keys of the largest group.
If there is nobody to let in the queue is emptied, and while members are unknown it stays as it is.
A member that is not the sponsor only writes down who asks. -/
theorem first_come_first_served {kx : KeyExchange} {config : MemberConfig} {endpoint : Endpoint}
    {keys : KeyPair} {random : Random} {t : Turn Chain} {c : Chain}
    (created : Chain.create config endpoint keys random = .ok t) (publishes : kx.Publishes)
    (honest : kx.publicOf keys.secret = .ok keys.publicValue)
    (exposed : (Chain.protocol kx).Exposed Chain.OnceStarted
      ((Chain.protocol kx).step .start t.member).member c)
    (running : c.finished = false) :
    (∀ s queue, c.seat = some s → c.isOpen →
      let t := Chain.attendQueue kx { member := { c with pending := queue } }
      (c.gapsBelow = [] →
        (∀ front candidate rest, queue = front ++ candidate :: rest →
          (∀ p ∈ front, ¬ c.Admissible kx s p) → c.Admissible kx s candidate →
          ∃ root before, Chain.LetsIn kx c s candidate rest root before t ∧
            ((Chain.seatWith s root candidate).keysComputed < UInt16.size ∨
              (Chain.seatWith s root candidate).Overflown config.size)) ∧
        ((∀ p ∈ queue, ¬ c.Admissible kx s p) →
          ∃ agenda : Agenda, t.member = { c with agenda, pending := [] } ∧
            agenda.isArmed .offer)) ∧
      (c.gapsBelow ≠ [] →
        ∃ agenda : Agenda, t.member = { c with agenda, pending := queue } ∧
          agenda.isArmed .infoRequest)) ∧
    (c.isSponsor = false → ∀ inputs, (∀ input ∈ inputs, input.request?.isSome) →
      (Chain.protocol kx).after c inputs =
        { c with pending := c.pending ++ Chain.firstOfEach c.bars (c.candidates inputs) } ∧
      ∀ past input, past ++ [input] <+: inputs →
        ((Chain.protocol kx).step input ((Chain.protocol kx).after c past)).effects = []) := by
  refine ⟨fun s queue seat isOpen ↦ ⟨fun known ↦ ⟨fun front candidate rest split refused fit ↦ ?_,
    fun refused ↦ ?_⟩, fun unknown ↦ ?_⟩, fun waits inputs asks ↦ ⟨?_, fun past input part ↦ ?_⟩⟩
  · have rooted := (Chain.rooted_of_exposed created exposed publishes honest).root s seat
    have idle := (Chain.delegates_of_exposed created exposed).idle isOpen
    obtain ⟨root, before, letsIn⟩ := Chain.attendQueue_letsIn (c := { c with pending := queue })
      seat isOpen known rooted idle split (fun p here fit ↦ refused p here ⟨fit.1, fit.2⟩)
      ⟨fit.1, fit.2⟩
    have counted := Chain.counted_of_exposed created exposed
    obtain ⟨sponsor, room⟩ := Chain.isOpen_of_seat isOpen seat
    rw [counted.size] at room
    have enrolled := (counted.seat s seat).enrolled sponsor room
      (Chain.seatWith s root candidate).tree
    exact ⟨root, before, { letsIn with }, enrolled.fits config.size_lt⟩
  · exact Chain.attendQueue_offers (c := { c with pending := queue }) seat isOpen known
      fun p here fit ↦ refused p here ⟨fit.1, fit.2⟩
  · exact Chain.attendQueue_asks (c := { c with pending := queue }) seat isOpen unknown
  · exact Chain.after_requests kx inputs waits running asks
  · exact Chain.silent_requests waits running asks part

namespace Couple

def guest : Endpoint := ⟨⟨10, 0, 0, 2⟩, 40000⟩

/-- The sponsor itself and a value that nobody can agree on stand before the other member. -/
def queue : List Candidate :=
  [⟨Doorway.endpoint, third.publicValue⟩, ⟨⟨⟨10, 0, 0, 3⟩, 40000⟩, ⟨List.replicate 32 0⟩⟩,
    ⟨guest, Doorway.guest.publicValue⟩, ⟨⟨⟨10, 0, 0, 4⟩, 40000⟩, third.publicValue⟩]

/-- The sponsor's seat before it has let somebody in. -/
def seat : Seat := sponsor.openingSeat

end Couple

/-- The third in the queue is let in as member two, and the fourth keeps waiting. -/
theorem first_come_first_served_couple :
    Couple.started.seat = some Couple.seat ∧ Couple.started.gapsBelow = [] ∧
    ∃ t,
      t = Chain.attendQueue x25519 { member := { Couple.started with pending := Couple.queue } } ∧
      t.admissions = [(2, Couple.guest)] ∧ t.member.pending = Couple.queue.drop 3 := by
  have honest : x25519.publicOf Doorway.keys.secret = .ok Doorway.keys.publicValue := rfl
  have running : Couple.started.finished = false := by decide +kernel
  have seat : Couple.started.seat = some Couple.seat := by decide +kernel
  have isOpen : Couple.started.isOpen = true := by decide +kernel
  have known : Couple.started.gapsBelow = [] := by decide +kernel
  have served := (first_come_first_served (c := Couple.started) Couple.created x25519_publishes
    honest .rest running).1 Couple.seat Couple.queue seat isOpen
  have refused : ∀ p ∈ Couple.queue.take 2, ¬ Couple.started.Admissible x25519 Couple.seat p := by
    refine List.forall_mem_cons.mpr ⟨fun fit ↦ ?_, List.forall_mem_cons.mpr ⟨fun fit ↦ ?_, nofun⟩⟩
    · have listed : Couple.started.directory.containsEndpoint Doorway.endpoint = true := by
        decide +kernel
      rw [fit.unknown] at listed
      cases listed
    · obtain ⟨root, agreed⟩ := fit.accepted
      have rejected : x25519.agree Couple.seat.tree.rootSecret ⟨List.replicate 32 0⟩ =
          .error .lowOrder := by decide +kernel
      rw [rejected] at agreed
      cases agreed
  have accepted :
      (x25519.agree Couple.seat.tree.rootSecret Doorway.guest.publicValue).isOk = true := by
    decide +kernel
  have fit : Couple.started.Admissible x25519 Couple.seat
      ⟨Couple.guest, Doorway.guest.publicValue⟩ := by
    refine ⟨by decide +kernel, ?_⟩
    cases agreed : x25519.agree Couple.seat.tree.rootSecret Doorway.guest.publicValue with
    | ok root => exact ⟨root, rfl⟩
    | error e =>
      rw [agreed] at accepted
      cases accepted
  obtain ⟨root, before, letsIn, -⟩ :=
    (served.1 known).1 (Couple.queue.take 2) _ (Couple.queue.drop 3) rfl refused fit
  obtain ⟨agenda, announced, member, -⟩ := letsIn.member
  refine ⟨seat, known, _, rfl, letsIn.told, ?_⟩
  rw [member]

end GroupKey
