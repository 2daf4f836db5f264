import GroupKey.Proofs.Ledger
import GroupKey.Proofs.Operations
import Mathlib.Data.List.Nodup

/-!
# The office of a star sponsor

Whatever reaches the sponsor of a star, its table of answers, the acknowledgements, the places that
are left and the armed tasks fit together.  `Deed` lists what a sponsor does in one step.  It says
less about the secrets than `Change` does, but it also says what is told and which tasks are armed.
`Office` is what a whole run leaves behind, and follows from it.
-/

namespace GroupKey

namespace Protocol

variable {σ : Type} {p : Protocol σ} {m : σ} {input : Input} {inputs : List Input}

/-- All that leaves a member in a run. -/
def sent (p : Protocol σ) : σ → List Input → List Outgoing
  | _, [] => []
  | m, input :: inputs => (p.step input m).outgoing ++ p.sent (p.step input m).member inputs

theorem sent_concat :
    p.sent m (inputs ++ [input]) =
      p.sent m inputs ++ (p.step input (p.after m inputs)).outgoing := by
  induction inputs generalizing m with
  | nil => simp [sent, after]
  | cons first inputs ih =>
    rw [List.cons_append, sent, ih, sent, List.append_assoc]
    rfl

end Protocol

/-- A datagram in which somebody acknowledges the group secret. -/
def Input.Acknowledges (input : Input) (source : Endpoint) : Prop :=
  ∃ bytes, input = .datagram bytes source ∧ Message.decode bytes = .ok .finishAck

namespace Star

variable {kx : KeyExchange} {m : Star} {input : Input} {t : Turn Star} {source : Endpoint}

/-! ## Single steps -/

/-- A sponsor that has started. -/
structure Appointed (m : Star) : Prop where
  chosen : m.config.sponsor = true
  secret : m.groupSecret?.isSome
  own : m.source? = none

/-- What a sponsor says more than once. -/
def Repeats (m : Star) (o : Outgoing) : Prop :=
  o.message = m.offerMessage ∨ (o.message = .finish ∧ m.closing) ∨
    ∃ s ∈ m.served, o = ⟨some s.endpoint, .distributed s.answer⟩

/-- What a sponsor does in one step. -/
inductive Deed (kx : KeyExchange) (m : Star) (input : Input) (t : Turn Star) : Prop
  | repeats (member : ∃ agenda, t.member = { m with agenda })
    (kept : ∀ task, m.agenda.isArmed task → m.wants task → t.isArmed task)
    (told : t.admissions = []) (said : ∀ o ∈ t.outgoing, m.Repeats o)
  | serve (source : Endpoint) (answer : SealedResponse)
    (unserved : ∀ s ∈ m.served, s.endpoint ≠ source) (room : m.served.length < m.peers)
    (member : ∃ random, t.member =
      { m with agenda.random := random, served := m.served ++ [⟨source, answer⟩] })
    (told : t.admissions = [(m.served.length + 2, source)])
    (said : t.outgoing = [⟨some source, .distributed answer⟩])
  | count (source : Endpoint) (heard : input.Acknowledges source)
    (served : ∃ s ∈ m.served, s.endpoint = source)
    (member : t.member = { m with acknowledged := m.acknowledged.insert source })
    (told : t.admissions = []) (said : t.outgoing = [])
  | close (source : Endpoint) (heard : input.Acknowledges source)
    (served : ∃ s ∈ m.served, s.endpoint = source)
    (enough : m.peers ≤ (m.acknowledged.insert source).length)
    (member : ∃ agenda, t.member =
      { m with agenda, acknowledged := m.acknowledged.insert source, closing := true })
    (armed : t.isArmed .finish ∧ t.isArmed .finishTimeout)
    (told : t.admissions = []) (said : ∀ o ∈ t.outgoing, o.message = .finish)
  | finish (member : ∃ agenda, t.member = { m with agenda, finished := true })
    (told : t.admissions = []) (said : t.outgoing = [])

namespace Deed

theorem rest (kx : KeyExchange) (m : Star) (input : Input) : Deed kx m input { member := m } :=
  .repeats ⟨m.agenda, rfl⟩ (fun _ armed _ ↦ armed) rfl nofun

theorem answerFind (service : ServiceId) :
    Deed kx m input (answerFind service { member := m }) := by
  unfold Star.answerFind
  split
  · refine .repeats ⟨m.agenda, rfl⟩ (fun _ armed _ ↦ armed) rfl fun o here ↦ ?_
    obtain rfl := List.mem_singleton.mp (Turn.outgoing_multicast { member := m } _ ▸ here)
    exact .inl rfl
  · exact rest kx m input

theorem answerRequest (service : ServiceId) (value : PublicValue) (source : Endpoint) :
    Deed kx m input (answerRequest kx service value source { member := m }) := by
  unfold Star.answerRequest
  dsimp only
  split
  · exact rest kx m input
  · split
    · next answer made =>
      obtain ⟨s, found, rfl⟩ := Option.map_eq_some_iff.mp made
      have own : s.endpoint = source := by simpa using List.find?_some found
      refine .repeats ⟨m.agenda, rfl⟩ (fun _ armed _ ↦ armed) rfl fun o here ↦ ?_
      obtain rfl := List.mem_singleton.mp (Turn.outgoing_unicast { member := m } source _ ▸ here)
      exact .inr (.inr ⟨s, List.mem_of_find?_eq_some found, by rw [own]⟩)
    · next unmade =>
      split
      · exact rest kx m input
      · next room =>
        split
        · have unserved : ∀ s ∈ m.served, s.endpoint ≠ source := by
            simpa [answerFor?] using unmade
          refine .serve source _ unserved (Nat.lt_of_not_le room) ⟨_, rfl⟩ ?_ rfl
          -- The id counts the answers with this one among them, and the sponsor is member one.
          exact congrArg (fun served ↦ [(served + 1, source)]) List.length_append
        · exact rest kx m input

theorem announceEnd (heard : input.Acknowledges source)
    (served : ∃ s ∈ m.served, s.endpoint = source)
    (enough : m.peers ≤ (m.acknowledged.insert source).length) :
    Deed kx m input (announceEnd
      { member := { m with acknowledged := m.acknowledged.insert source } }) := by
  unfold Star.announceEnd
  generalize cancelled : Turn.cancel (_ : Turn Star) .offer = u
  have member : u.member =
      { m with
        agenda := m.agenda.remove .offer
        acknowledged := m.acknowledged.insert source
        closing := true } := by
    rw [← cancelled, member_cancel]
    rfl
  have silent : u.outgoing = [] := by
    rw [← cancelled, Turn.outgoing_cancel]
    rfl
  have quiet : u.events = [] := by
    rw [← cancelled, Turn.events_cancel]
    rfl
  obtain ⟨agenda, sent⟩ := u.member_keepSending .finish none .finish
  refine .close source heard served enough ⟨agenda.insert .finishTimeout, ?_⟩ ⟨?_, ?_⟩ ?_
    fun o here ↦ ?_
  · rw [Turn.scheduleAfter, Turn.member_act, Turn.setAgenda, Turn.member_modify, sent, member]
    rfl
  · simp [Turn.isArmed_scheduleAfter, Turn.isArmed_keepSending]
  · simp [Turn.isArmed_scheduleAfter]
  · simp [Turn.admissions, quiet]
  · rw [Turn.outgoing_scheduleAfter] at here
    rcases Turn.mem_outgoing_keepSending here with old | new
    · rw [silent] at old
      cases old
    · exact new

theorem answerFinishAck (heard : input.Acknowledges source) :
    Deed kx m input (answerFinishAck source { member := m }) := by
  unfold Star.answerFinishAck
  dsimp only
  split
  · exact rest kx m input
  · split
    · exact rest kx m input
    · next known =>
      have served : ∃ s ∈ m.served, s.endpoint = source := by simpa using known
      split
      · next enough => exact announceEnd heard served enough
      · exact .count source heard served rfl rfl rfl

theorem isArmed_disarm (m : Star) (task other : Task) :
    (({ member := m } : Turn Star).disarm task).isArmed other =
      (decide (other ≠ task) && m.agenda.isArmed other) := by
  rw [Turn.disarm, Turn.isArmed_setAgenda]
  exact Agenda.isArmed_remove _ _ _

theorem keepSending (task : Task) {said : Message}
    (may : said = m.offerMessage ∨ said = .finish ∧ m.closing) :
    Deed kx m input ((({ member := m } : Turn Star).disarm task).keepSending task none said) := by
  obtain ⟨agenda, member⟩ :=
    Turn.member_keepSending (({ member := m } : Turn Star).disarm task) task none said
  refine .repeats ⟨agenda, member⟩ (fun other armed _ ↦ ?_) ?_ fun o here ↦ ?_
  · rw [Turn.isArmed_keepSending, isArmed_disarm, armed]
    by_cases same : other = task <;> simp [same]
  · rw [Turn.admissions, Turn.events_keepSending, Turn.events_disarm]
    rfl
  · rcases Turn.mem_outgoing_keepSending here with old | rfl
    · exact (List.not_mem_nil old).elim
    · exact may.imp id .inl

/-- Every deadline that a sponsor still minds is met by sending again or by the end. -/
theorem expire (appointed : m.Appointed) (task : Task) :
    Deed kx m input (expire task { member := m }) := by
  unfold Star.expire
  dsimp only
  split
  · next wanted =>
    have known : m.groupSecret?.isNone = false := by simpa using appointed.secret
    have needed : m.wants task = true := wanted
    unfold wants at needed
    cases task with
    | offer => exact keepSending .offer (.inl rfl)
    | finish =>
      rw [Bool.and_eq_true] at needed
      exact keepSending .finish (.inr ⟨rfl, needed.2⟩)
    | finishTimeout =>
      have running : ¬ Terminable.finished
          (({ member := m } : Turn Star).disarm .finishTimeout).member = true := by
        change ¬ m.finished = true
        rw [Bool.and_eq_true] at needed
        simpa using needed.1
      dsimp only [runTask]
      rw [Turn.endRun, if_neg running]
      exact .finish ⟨_, rfl⟩ rfl rfl
    | _ => simp [known, appointed.own] at needed
  · next unwanted =>
    have ignored : m.wants task = false := Bool.eq_false_iff.mpr unwanted
    refine .repeats ⟨m.agenda.remove task, rfl⟩ (fun other armed wanted ↦ ?_) rfl nofun
    have differs : other ≠ task := by
      rintro rfl
      rw [wanted] at ignored
      cases ignored
    rw [isArmed_disarm, armed, decide_eq_true differs]
    rfl

theorem answer (appointed : m.Appointed) (said : Message) (source : Endpoint)
    (heard : said = .finishAck → input.Acknowledges source) :
    Deed kx m input (answer kx said source { member := m }) := by
  cases said with
  | find service => exact answerFind service
  | offer service =>
    have known : m.groupSecret?.isNone = false := by simpa using appointed.secret
    have deaf : (!m.isFor service || !m.wants .request) = true := by simp [wants, known]
    change Deed kx m input (answerOffer service { member := m })
    rw [answerOffer, if_pos deaf]
    exact rest kx m input
  | request service value => exact answerRequest service value source
  | distributed body =>
    change Deed kx m input (takeSecret kx body source { member := m })
    rw [takeSecret, if_pos (by simp [appointed.chosen])]
    exact rest kx m input
  | finish =>
    change Deed kx m input (answerFinish { member := m })
    rw [answerFinish, if_pos (by simp [appointed.chosen])]
    exact rest kx m input
  | finishAck => exact answerFinishAck (heard rfl)
  | _ => exact rest kx m input

theorem step (appointed : m.Appointed) (outer : Protocol.Outer (fun _ ↦ True) input)
    (later : input ≠ .start) : Deed kx m input ((Star.protocol kx).step input m) := by
  cases input with
  | start => exact absurd rfl later
  | timer task => exact expire appointed task
  | message said source => exact outer.elim
  | datagram bytes source =>
    rcases (Star.protocol kx).step_datagram_cases bytes source m with same | ⟨said, read, same⟩
    · rw [same]
      exact rest kx m _
    · rw [same]
      exact answer appointed said source fun acknowledges ↦ ⟨bytes, rfl, acknowledges ▸ read⟩

end Deed

/-! ## Whole runs -/

/-- The places that a sponsor has given away, with ids from two on. -/
def places (m : Star) : List (Nat × Endpoint) :=
  m.served.mapIdx fun i s ↦ (i + 2, s.endpoint)

/-- What a sponsor holds fits together, and fits what reached it and what it told and sent. -/
structure Office (m : Star) (inputs : List Input) (told : List Event) (sent : List Outgoing) :
    Prop where
  distinct : (m.served.map Served.endpoint).Nodup
  room : m.served.length ≤ m.peers
  admitted : told.filterMap Event.admission? = m.places
  answers : ∀ o ∈ sent, ∀ answer, o.message = .distributed answer →
    ∃ e, o.target = some e ∧ ⟨e, answer⟩ ∈ m.served
  once : m.acknowledged.Nodup
  counted : ∀ e ∈ m.acknowledged, (∃ s ∈ m.served, s.endpoint = e) ∧
    ∃ input ∈ inputs, input.Acknowledges e
  enough : m.closing → m.peers ≤ m.acknowledged.length
  ended : ∀ o ∈ sent, o.message = .finish → m.closing
  armed : m.finished = false → if m.closing then
    m.agenda.isArmed .finish ∧ m.agenda.isArmed .finishTimeout else m.agenda.isArmed .offer

theorem Appointed.deed (appointed : m.Appointed) (deed : Deed kx m input t) :
    t.member.Appointed ∧ t.member.config = m.config ∧ t.member.keys = m.keys ∧
      t.member.groupSecret? = m.groupSecret? := by
  have same : t.member.config = m.config ∧ t.member.keys = m.keys ∧
      t.member.groupSecret? = m.groupSecret? ∧ t.member.source? = m.source? := by
    cases deed with
    | count _ _ _ member =>
      rw [member]
      exact ⟨rfl, rfl, rfl, rfl⟩
    | repeats member | serve _ _ _ _ member | close _ _ _ _ member | finish member =>
      obtain ⟨_, member⟩ := member
      rw [member]
      exact ⟨rfl, rfl, rfl, rfl⟩
  obtain ⟨config, keys, secret, own⟩ := same
  refine ⟨⟨?_, ?_, ?_⟩, config, keys, secret⟩
  · rw [config, appointed.chosen]
  · rw [secret, appointed.secret]
  · rw [own, appointed.own]

theorem Repeats.answers {o : Outgoing} (repeats : m.Repeats o) {answer : SealedResponse}
    (same : o.message = .distributed answer) :
    ∃ e, o.target = some e ∧ ⟨e, answer⟩ ∈ m.served := by
  rcases repeats with offer | ⟨finish, -⟩ | ⟨s, here, rfl⟩
  · rw [offer] at same
    cases same
  · rw [finish] at same
    cases same
  · cases same
    exact ⟨s.endpoint, rfl, here⟩

theorem Repeats.closing {o : Outgoing} (repeats : m.Repeats o) (same : o.message = .finish) :
    m.closing := by
  rcases repeats with offer | ⟨-, closing⟩ | ⟨s, here, rfl⟩
  · rw [offer] at same
    cases same
  · exact closing
  · cases same

namespace Office

variable {inputs : List Input} {told : List Event} {sent : List Outgoing}

theorem admitted_append (office : Office m inputs told sent) (t : Turn Star) :
    (told ++ t.events).filterMap Event.admission? = m.places ++ t.admissions := by
  rw [List.filterMap_append, office.admitted]
  rfl

theorem counted_append (office : Office m inputs told sent) (input : Input) {e : Endpoint}
    (here : e ∈ m.acknowledged) : (∃ s ∈ m.served, s.endpoint = e) ∧
      ∃ i ∈ inputs ++ [input], i.Acknowledges e := by
  obtain ⟨served, i, listed, heard⟩ := office.counted e here
  exact ⟨served, i, List.mem_append_left _ listed, heard⟩

/-- One more acknowledgement of somebody who was served. -/
theorem counted_insert (office : Office m inputs told sent) (heard : input.Acknowledges source)
    (served : ∃ s ∈ m.served, s.endpoint = source) :
    ∀ e ∈ m.acknowledged.insert source, (∃ s ∈ m.served, s.endpoint = e) ∧
      ∃ i ∈ inputs ++ [input], i.Acknowledges e := by
  intro e here
  rcases List.mem_insert_iff.mp here with rfl | old
  · exact ⟨served, input, List.mem_append_right _ List.mem_cons_self, heard⟩
  · exact office.counted_append input old

/-- Tasks that are still wanted stay armed. -/
theorem armed_of_kept (office : Office m inputs told sent) (appointed : m.Appointed)
    {agenda : Agenda}
    (kept : ∀ task, m.agenda.isArmed task → m.wants task → agenda.isArmed task)
    (running : m.finished = false) : if m.closing then
      agenda.isArmed .finish ∧ agenda.isArmed .finishTimeout else agenda.isArmed .offer := by
  have before := office.armed running
  by_cases closing : m.closing = true
  · rw [if_pos closing] at before ⊢
    have wanted : m.wants .finish ∧ m.wants .finishTimeout := by simp [wants, running, closing]
    exact ⟨kept _ before.1 wanted.1, kept _ before.2 wanted.2⟩
  · rw [if_neg closing] at before ⊢
    exact kept _ before (by simp [wants, running, closing, appointed.chosen])

/-- One more endpoint has a place. -/
theorem serve (office : Office m inputs told sent) (input : Input) {answer : SealedResponse}
    (unserved : ∀ s ∈ m.served, s.endpoint ≠ source) (room : m.served.length < m.peers)
    (random : Random) {more : List Event}
    (given : more.filterMap Event.admission? = [(m.served.length + 2, source)]) :
    Office { m with agenda.random := random, served := m.served ++ [⟨source, answer⟩] }
      (inputs ++ [input]) (told ++ more) (sent ++ [⟨some source, .distributed answer⟩]) where
  distinct := by
    rw [List.map_append, List.nodup_append]
    refine ⟨office.distinct, List.nodup_singleton _, fun e old e' new ↦ ?_⟩
    obtain ⟨s, here, rfl⟩ := List.mem_map.mp old
    obtain rfl := List.mem_singleton.mp new
    exact unserved s here
  room := by
    rw [List.length_append]
    exact room
  admitted := by
    rw [List.filterMap_append, office.admitted, given]
    simp [places, List.mapIdx_append]
  answers := by
    refine List.forall_mem_append.mpr ⟨fun o here answer same ↦ ?_, fun o here answer same ↦ ?_⟩
    · obtain ⟨e, target, listed⟩ := office.answers o here answer same
      exact ⟨e, target, List.mem_append_left _ listed⟩
    · obtain rfl := List.mem_singleton.mp here
      cases same
      exact ⟨source, rfl, List.mem_append_right _ List.mem_cons_self⟩
  once := office.once
  counted e here := by
    obtain ⟨⟨s, listed, same⟩, heard⟩ := office.counted_append input here
    exact ⟨⟨s, List.mem_append_left _ listed, same⟩, heard⟩
  enough := office.enough
  ended := by
    refine List.forall_mem_append.mpr ⟨office.ended, fun o here same ↦ ?_⟩
    obtain rfl := List.mem_singleton.mp here
    cases same
  armed := office.armed

/-- What a sponsor holds fits together after one more step. -/
theorem deed (office : Office m inputs told sent) (appointed : m.Appointed)
    (deed : Deed kx m input t) :
    Office t.member (inputs ++ [input]) (told ++ t.events) (sent ++ t.outgoing) := by
  have admitted := office.admitted_append t
  cases deed with
  | repeats member kept silent said =>
    obtain ⟨agenda, member⟩ := member
    have kept (task : Task) (armed : m.agenda.isArmed task) (wanted : m.wants task) :
        agenda.isArmed task := by
      have still := kept task armed wanted
      rwa [Turn.isArmed, member] at still
    rw [silent, List.append_nil] at admitted
    rw [member]
    exact
      { office with
        admitted
        answers := List.forall_mem_append.mpr ⟨office.answers, fun o here _ ↦ (said o here).answers⟩
        counted := fun e ↦ office.counted_append input
        ended := List.forall_mem_append.mpr ⟨office.ended, fun o here ↦ (said o here).closing⟩
        armed := office.armed_of_kept appointed kept }
  | serve source answer unserved room member given said =>
    obtain ⟨random, member⟩ := member
    rw [member, said]
    exact office.serve input unserved room random given
  | count source heard served member silent said =>
    rw [silent, List.append_nil] at admitted
    rw [member, said, List.append_nil]
    exact
      { office with
        admitted
        once := office.once.insert
        counted := office.counted_insert heard served
        enough := fun closing ↦ (office.enough closing).trans List.length_le_length_insert }
  | close source heard served enough member armed silent said =>
    obtain ⟨agenda, member⟩ := member
    rw [Turn.isArmed, Turn.isArmed, member] at armed
    rw [silent, List.append_nil] at admitted
    rw [member]
    exact
      { office with
        admitted
        answers := List.forall_mem_append.mpr ⟨office.answers, fun o here answer same ↦ by
          rw [said o here] at same
          cases same⟩
        once := office.once.insert
        counted := office.counted_insert heard served
        enough := fun _ ↦ enough
        ended := fun _ _ _ ↦ rfl
        armed := fun _ ↦ armed }
  | finish member silent said =>
    obtain ⟨agenda, member⟩ := member
    rw [silent, List.append_nil] at admitted
    rw [member, said, List.append_nil]
    exact
      { office with
        admitted
        counted := fun e ↦ office.counted_append input
        armed := by rintro ⟨⟩ }

/-- One endpoint hears one answer. -/
theorem answer_unique (office : Office m inputs told sent) {e : Endpoint}
    {first second : SealedResponse} (one : ⟨some e, .distributed first⟩ ∈ sent)
    (other : ⟨some e, .distributed second⟩ ∈ sent) : first = second := by
  obtain ⟨_, ⟨⟩, served⟩ := office.answers _ one first rfl
  obtain ⟨_, ⟨⟩, again⟩ := office.answers _ other second rfl
  exact congrArg Served.answer (List.inj_on_of_nodup_map office.distinct served again rfl)

end Office

/-- A sponsor that others are to join draws the group secret and offers. -/
theorem begin_of_sponsor (chosen : m.config.sponsor = true) (several : m.peers ≠ 0) :
    (∃ agenda, (begin { member := m }).member =
      { m with agenda, groupSecret? := some m.drawGroupSecret.1 }) ∧
    (begin { member := m }).isArmed .offer ∧ (begin { member := m }).admissions = [] ∧
    ∀ o ∈ (begin { member := m }).outgoing, o.message = m.offerMessage := by
  have opened : ∃ u : Turn Star, begin { member := m } = u.keepSending .offer none m.offerMessage ∧
      u.member = m.drawGroupSecret.2 ∧ u.outgoing = [] ∧ u.admissions = [] :=
    ⟨_, (if_pos chosen).trans (if_neg several), rfl, rfl, rfl⟩
  obtain ⟨u, begun, member, silent, quiet⟩ := opened
  obtain ⟨agenda, sent⟩ := u.member_keepSending .offer none m.offerMessage
  rw [begun]
  refine ⟨⟨agenda, ?_⟩, by simp [Turn.isArmed_keepSending], ?_, fun o here ↦ ?_⟩
  · rw [sent, member]
    rfl
  · rw [Turn.admissions, Turn.events_keepSending]
    exact quiet
  · rcases Turn.mem_outgoing_keepSending here with old | new
    · rw [silent] at old
      cases old
    · exact new

/-- What holds of a sponsor after a run, with the group secret that it drew. -/
structure Serves (kx : KeyExchange) (config : MemberConfig) (keys : KeyPair) (K : Secret)
    (first : Star) (inputs : List Input) : Prop where
  config_eq : ((Star.protocol kx).after first inputs).config = config
  keys_eq : ((Star.protocol kx).after first inputs).keys = keys
  secret_eq : ((Star.protocol kx).after first inputs).groupSecret? = some K
  appointed : ((Star.protocol kx).after first inputs).Appointed
  office : Office ((Star.protocol kx).after first inputs) inputs
    ((Star.protocol kx).told first inputs) ((Star.protocol kx).sent first inputs)

section Created

variable {config : MemberConfig} {endpoint : Endpoint} {keys : KeyPair} {random : Random}
  {t : Turn Star} (created : create config endpoint keys random = .ok t)
  (chosen : config.sponsor = true) (several : 2 ≤ config.size)

include created chosen several

theorem serves_start :
    Serves kx config keys t.member.drawGroupSecret.1 t.member [.start] := by
  have member := create_member created
  have lead : t.member.config.sponsor = true := by rw [member]; exact chosen
  have peers : t.member.peers ≠ 0 := by
    rw [member]
    change config.size - 1 ≠ 0
    omega
  obtain ⟨⟨agenda, begun⟩, armed, silent, said⟩ := begin_of_sponsor lead peers
  have opened : (Star.protocol kx).after t.member [.start] =
      { t.member with agenda, groupSecret? := some t.member.drawGroupSecret.1 } := begun
  have offers : agenda.isArmed .offer := by rwa [Turn.isArmed, begun] at armed
  have told : (Star.protocol kx).told t.member [.start] =
      (begin { member := t.member }).events := List.append_nil _
  have sent : (Star.protocol kx).sent t.member [.start] =
      (begin { member := t.member }).outgoing := List.append_nil _
  rw [member] at opened told sent silent said ⊢
  constructor
  · rw [opened]
  · rw [opened]
  · rw [opened]
  · rw [opened]
    exact ⟨chosen, rfl, rfl⟩
  · rw [opened, told, sent]
    refine ⟨List.nodup_nil, Nat.zero_le _, silent, fun o here answer same ↦ ?_, List.nodup_nil,
      fun e here ↦ absurd here List.not_mem_nil, fun closing ↦ ?_, fun o here same ↦ ?_,
      fun _ ↦ offers⟩
    · rw [said o here] at same
      cases same
    · cases closing
    · rw [said o here] at same
      cases same

theorem serves_of_launched {inputs : List Input} (launched : Launched inputs)
    (begun : inputs ≠ []) : Serves kx config keys t.member.drawGroupSecret.1 t.member inputs := by
  induction inputs using List.reverseRecOn with
  | nil => exact absurd rfl begun
  | append_singleton past input ih =>
    obtain ⟨before, ⟨rfl, rfl⟩ | ⟨started, outer, later⟩⟩ := launched_concat launched
    · exact serves_start created chosen several
    · have serves := ih before started
      have deed : Deed kx _ input _ := Deed.step serves.appointed outer later
      obtain ⟨appointed, config_eq, keys_eq, secret_eq⟩ := serves.appointed.deed deed
      have office := serves.office.deed serves.appointed deed
      rw [← Protocol.told_concat, ← Protocol.sent_concat] at office
      constructor
      · rw [Protocol.after_concat, config_eq, serves.config_eq]
      · rw [Protocol.after_concat, keys_eq, serves.keys_eq]
      · rw [Protocol.after_concat, secret_eq, serves.secret_eq]
      · rw [Protocol.after_concat]
        exact appointed
      · rw [Protocol.after_concat]
        exact office

end Created

/-- Somebody whose value is rejected may still hear the answer that was given before. -/
theorem answerRequest_of_rejected {service : ServiceId} {value : PublicValue} {e : CryptoError}
    (rejected : kx.agree m.keys.secret value = .error e) :
    (answerRequest kx service value source { member := m }).member = m ∧
      (answerRequest kx service value source { member := m }).admissions = [] := by
  unfold answerRequest
  dsimp only
  split
  · exact ⟨rfl, rfl⟩
  · split
    · exact ⟨rfl, rfl⟩
    · split
      · exact ⟨rfl, rfl⟩
      · rw [rejected]
        cases m.groupSecret? <;> exact ⟨rfl, rfl⟩

theorem step_of_rejected {bytes : Bytes} {service : ServiceId} {value : PublicValue}
    {e : CryptoError} (read : Message.decode bytes = .ok (.request service value))
    (rejected : kx.agree m.keys.secret value = .error e) :
    ((Star.protocol kx).step (.datagram bytes source) m).member = m ∧
      ((Star.protocol kx).step (.datagram bytes source) m).admissions = [] := by
  rcases (Star.protocol kx).step_datagram_cases bytes source m with same | ⟨said, decoded, same⟩
  · rw [same]
    exact ⟨rfl, rfl⟩
  · obtain rfl : said = .request service value := Except.ok.inj (decoded.symm.trans read)
    rw [same]
    exact answerRequest_of_rejected rejected

end Star

/-- Whatever reaches the sponsor of a star after its start, the group secret that it drew stays, and
it serves no more endpoints than there are other members.  They get the ids from two on in the order
in which they are served, and each of them always hears one and the same answer.  Acknowledgements
count from those who were served, and the end is announced once that is everyone.  A request with a
value that the key exchange rejects leaves the sponsor as it is.  Until the sponsor has finished it
keeps offering, or keeps announcing the end with a last deadline. -/
theorem star_sponsor_in_office {kx : KeyExchange} {config : MemberConfig} {endpoint : Endpoint}
    {keys : KeyPair} {random : Random} {t : Turn Star}
    (created : Star.create config endpoint keys random = .ok t) (chosen : config.sponsor = true)
    (several : 2 ≤ config.size) :
    ∃ K, ∀ inputs, Launched inputs → inputs ≠ [] → ∀ m told sent,
      m = (Star.protocol kx).after t.member inputs →
      told = (Star.protocol kx).told t.member inputs →
      sent = (Star.protocol kx).sent t.member inputs →
      m.config = config ∧ m.groupSecret? = some K ∧ m.Office inputs told sent ∧
      (∀ e first second, ⟨some e, .distributed first⟩ ∈ sent →
        ⟨some e, .distributed second⟩ ∈ sent → first = second) ∧
      ((∃ o ∈ sent, o.message = .finish) → config.size - 1 ≤ m.acknowledged.length) ∧
      ∀ bytes source service value e, Message.decode bytes = .ok (.request service value) →
        kx.agree keys.secret value = .error e →
        ((Star.protocol kx).step (.datagram bytes source) m).member = m ∧
          ((Star.protocol kx).step (.datagram bytes source) m).admissions = [] := by
  refine ⟨t.member.drawGroupSecret.1, ?_⟩
  rintro inputs launched begun _ _ _ rfl rfl rfl
  have serves : Star.Serves kx config keys _ t.member inputs :=
    Star.serves_of_launched created chosen several launched begun
  obtain ⟨config_eq, keys_eq, secret_eq, -, office⟩ := serves
  refine ⟨config_eq, secret_eq, office, fun e first second one other ↦ ?_,
    fun ⟨o, here, finish⟩ ↦ ?_, fun bytes source service value e read rejected ↦ ?_⟩
  · exact office.answer_unique one other
  · have enough := office.enough (office.ended o here finish)
    rwa [Star.peers, config_eq] at enough
  · rw [← keys_eq] at rejected
    exact Star.step_of_rejected read rejected

namespace Tandem

def config : MemberConfig := { Doorway.config with memberCount := 2 }

/-- The sponsor before its start. -/
def sponsor : Star :=
  { config, endpoint := Doorway.endpoint, keys := Doorway.keys, agenda := ⟨[], .ofSeed 1⟩ }

theorem created : Star.create config Doorway.endpoint Doorway.keys (.ofSeed 1) =
    .ok (({ member := sponsor } : Turn Star).count .cryptoOperations) := rfl

def guest : Endpoint := ⟨⟨10, 0, 0, 2⟩, 40000⟩

def stranger : Endpoint := ⟨⟨10, 0, 0, 3⟩, 40000⟩

def hear (source : Endpoint) (said : Message) : Input := .datagram said.encode source

/-- Nobody can agree on the value that the stranger asks with. -/
def script : List Input :=
  [.start, hear stranger (.request 7 ⟨List.replicate 32 0⟩),
    hear guest (.request 7 Doorway.guest.publicValue),
    hear guest (.request 7 Doorway.keys.publicValue), hear stranger .finishAck,
    hear guest .finishAck]

end Tandem

/-- The stranger gets no place and is not counted, and the end comes with the guest. -/
theorem star_sponsor_in_office_tandem :
    ∃ m told sent, m = (Star.protocol x25519).after Tandem.sponsor Tandem.script ∧
      told = (Star.protocol x25519).told Tandem.sponsor Tandem.script ∧
      sent = (Star.protocol x25519).sent Tandem.sponsor Tandem.script ∧
      told.filterMap Event.admission? = [(2, Tandem.guest)] ∧
      (∃ o ∈ sent, o.message = .finish) ∧ 1 ≤ m.acknowledged.length ∧
      m.agenda.isArmed .finishTimeout := by
  have launched : Launched Tandem.script := ⟨rfl, by simp [Tandem.hear, Protocol.Outer]⟩
  obtain ⟨K, office⟩ :=
    @star_sponsor_in_office x25519 _ _ _ _ _ Tandem.created rfl (by decide)
  obtain ⟨m, after⟩ : ∃ m, m = (Star.protocol x25519).after Tandem.sponsor Tandem.script :=
    ⟨_, rfl⟩
  obtain ⟨sent, said⟩ : ∃ sent, sent = (Star.protocol x25519).sent Tandem.sponsor Tandem.script :=
    ⟨_, rfl⟩
  obtain ⟨-, -, holds, -, ends, -⟩ := office Tandem.script launched (List.cons_ne_nil _ _) m _ sent
    after rfl said
  have places : m.places = [(2, Tandem.guest)] := by
    rw [after]
    decide +kernel
  have running : m.finished = false := by
    rw [after]
    decide +kernel
  have announced : ∃ o ∈ sent, o.message = .finish := by
    rw [said]
    decide +kernel
  obtain ⟨o, here, finish⟩ := id announced
  have armed := holds.armed running
  rw [if_pos (holds.ended o here finish)] at armed
  exact ⟨m, _, sent, after, rfl, said, holds.admitted.trans places, announced, ends announced,
    armed.2⟩

end GroupKey
