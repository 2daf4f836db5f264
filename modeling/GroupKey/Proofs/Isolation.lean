import GroupKey.Proofs.StarSteps
import GroupKey.Proofs.World

/-!
# Services that share a network

A member drops what names another service than its own, whoever sends it, unless the sender has
once asked for the member's service.  The token, the end and the farewell name no service, so a
member cannot tell whose they are.
-/

namespace GroupKey

namespace Message

/-- The service that a message names. -/
def namedService? : Message → Option ServiceId
  | find service => some service
  | offer service => some service
  | request service _ => some service
  | response r => some r.service
  | infoRequest _ service _ => some service
  | infoResponse _ service _ _ => some service
  | token _ => none
  | finish => none
  | finishAck => none
  | distributed answer => some answer.service

end Message

namespace Protocol

variable {σ : Type}

/-- A datagram that leads to a silent answer is not noticed. -/
theorem step_silent {p : Protocol σ} {said : Message} {source : Endpoint} {member : σ}
    (short : said.encode.length < 2 ^ 32)
    (silent : p.answer said source { member } = { member }) :
    p.step (.datagram said.encode source) member = { member } := by
  rw [step]
  by_cases own : source = p.endpoint member
  · exact receive_own own
  · cases decoded : Message.decode said.encode with
    | error e => exact receive_of_error own decoded
    | ok received =>
      rw [receive_of_ok own decoded, Message.eq_of_decode_encode short decoded]
      exact silent

variable [Busy σ]

/-- What can happen to a member after its start.  Those outside its group may say whatever they
like, except that they do not use its service. -/
def MayMeet (service : ServiceId) (inside : Endpoint → Prop) (member : σ) : Input → Prop
  | .start => False
  | .timer task => (Busy.agenda member).isArmed task
  | .message _ _ => False
  | .datagram bytes source =>
    inside source ∨ ∀ m, Message.decode bytes = .ok m → m.namedService? ≠ some service

/-- The states of a member after its start. -/
inductive Lives (p : Protocol σ) (service : ServiceId) (inside : Endpoint → Prop) (first : σ) :
    σ → Prop
  | start : Lives p service inside first (p.step .start first).member
  | next {member : σ} {input : Input} (lives : Lives p service inside first member)
    (meets : MayMeet service inside member input) :
    Lives p service inside first (p.step input member).member

/-- The messages that leave a member in its life. -/
inductive Utters (p : Protocol σ) (service : ServiceId) (inside : Endpoint → Prop) (first : σ) :
    Message → Prop
  | start {o : Outgoing} (said : o ∈ (p.step .start first).outgoing) :
    Utters p service inside first o.message
  | next {member : σ} {input : Input} {o : Outgoing} (lives : Lives p service inside first member)
    (meets : MayMeet service inside member input) (said : o ∈ (p.step input member).outgoing) :
    Utters p service inside first o.message

/-- The turn ends in a state with the property, and what leaves it names no other service. -/
structure Keeps (service : ServiceId) (P : σ → Prop) (t : Turn σ) : Prop where
  member : P t.member
  named : ∀ o ∈ t.outgoing, ∀ s, o.message.namedService? = some s → s = service

section Keeps

variable {p : Protocol σ} {service : ServiceId} {inside : Endpoint → Prop} {first member : σ}
  {P : σ → Prop} (start : Keeps service P (p.step .start first))
  (step : ∀ {member : σ} {input : Input}, P member → MayMeet service inside member input →
    Keeps service P (p.step input member))

include start step

/-- What the start gives and every step keeps holds all through a life. -/
theorem Lives.keeps (lives : p.Lives service inside first member) : P member := by
  induction lives with
  | start => exact start.member
  | next _ meets ih => exact (step ih meets).member

/-- Whatever a member says names no service but its own. -/
theorem Utters.named {m : Message} (utters : p.Utters service inside first m) {s : ServiceId}
    (named : m.namedService? = some s) : s = service := by
  cases utters with
  | start said => exact start.named _ said s named
  | next lives meets said => exact (step (lives.keeps start step) meets).named _ said s named

end Keeps

/-- The states of the members that are configured for a service. -/
def LivesFor (p : Protocol σ) (create : Creation σ) (service : ServiceId)
    (inside : Endpoint → Prop) (member : σ) : Prop :=
  ∃ config endpoint keys random t, create config endpoint keys random = .ok t ∧
    config.service = service ∧ p.Lives service inside t.member member

/-- What the members that are configured for a service can say, whatever they hear. -/
def UttersFor (p : Protocol σ) (create : Creation σ) (service : ServiceId) (m : Message) : Prop :=
  ∃ config endpoint keys random t, create config endpoint keys random = .ok t ∧
    config.service = service ∧ p.Utters service (fun _ ↦ True) t.member m

/-- Whoever asks for a service belongs to its group. -/
def Asked (inside : Endpoint → Prop) (cause : Input) : Prop :=
  ∀ service value source, cause = .message (.request service value) source → inside source

/-- What a member meets either passes unnoticed or is an input of its own kind, in which only
members of the group ask for the service. -/
theorem step_cases {p : Protocol σ} {service : ServiceId} {inside : Endpoint → Prop} {member : σ}
    {input : Input} (meets : MayMeet service inside member input)
    (silent : ∀ m source, ¬ inside source → m.namedService? ≠ none →
      m.namedService? ≠ some service → p.answer m source { member } = { member }) :
    p.step input member = { member } ∨
    (∃ task, (Busy.agenda member).isArmed task ∧
      p.step input member = p.expire task { member }) ∨
    ∃ m source, Asked inside (.message m source) ∧
      p.step input member = p.answer m source { member } := by
  cases input with
  | start => exact meets.elim
  | timer task => exact .inr (.inl ⟨task, meets, rfl⟩)
  | message m source => exact meets.elim
  | datagram bytes source =>
    by_cases own : source = p.endpoint member
    · exact .inl (receive_own own)
    · cases decoded : Message.decode bytes with
      | error e => exact .inl (receive_of_error own decoded)
      | ok m =>
        have heard : p.step (.datagram bytes source) member = p.answer m source { member } :=
          receive_of_ok own decoded
        rw [heard]
        by_cases here : inside source
        · refine .inr (.inr ⟨m, source, ?_, rfl⟩)
          rintro _ _ _ ⟨⟩
          exact here
        · have foreign := meets.resolve_left here m decoded
          by_cases nameless : m.namedService? = none
          · refine .inr (.inr ⟨m, source, ?_, rfl⟩)
            rintro _ _ _ ⟨⟩
            cases nameless
          · exact .inl (silent m source here nameless foreign)

end Protocol

/-! ## Chained members -/

namespace Chain

variable {kx : KeyExchange} {cause : Input} {c d : Chain} {said : List Outgoing}
  {ours : ServiceId} {inside : Endpoint → Prop}

/-- Those whom a member lets in come from inside, and what it hands over is for its service. -/
structure Secluded (ours : ServiceId) (inside : Endpoint → Prop) (c : Chain) : Prop where
  coherent : c.Coherent
  service : c.config.service = ours
  pending : ∀ p ∈ c.pending, inside p.endpoint
  handOver : ∀ h, c.handOver = some h →
    inside h.response.newSponsor.endpoint ∧ h.response.service = ours

/-- Candidates and requests come from inside, and no move changes the service. -/
theorem Secluded.move (secluded : c.Secluded ours inside)
    (asked : Protocol.Asked inside cause) (move : Move kx cause c said d) :
    d.Secluded ours inside := by
  have advances := move.advances secluded.coherent
  refine ⟨secluded.coherent.move move, by rw [advances.config, secluded.service], ?_, ?_⟩
  · cases move with
    | learn endpoint id value =>
      unfold learn
      split
      · exact secluded.pending
      · exact fun p here ↦ secluded.pending p (List.mem_of_mem_filter here)
    | enqueue service value source sent =>
      unfold enqueue
      split
      · exact secluded.pending
      · intro p here
        rcases List.mem_append.mp here with old | new
        · exact secluded.pending p old
        · rw [List.mem_singleton.mp new]
          exact asked _ _ _ sent
    | forget pending part => exact fun p here ↦ secluded.pending p (part.subset here)
    | enrol s new candidate rest before seat isOpen known queue =>
      exact fun p here ↦ secluded.pending p (queue.subset (List.mem_cons_of_mem _ here))
    | _ => exact secluded.pending
  · cases move with
    | learn endpoint id value =>
      obtain ⟨_, _, frame⟩ := learn_frame c endpoint id value
      rw [frame]
      exact secluded.handOver
    | enqueue service value source =>
      obtain ⟨_, frame⟩ := enqueue_frame c ⟨source, value⟩
      rw [frame]
      exact secluded.handOver
    | confirm =>
      intro h confirmed
      obtain ⟨h', old, rfl⟩ := Option.map_eq_some_iff.mp confirmed
      exact secluded.handOver h' old
    | enrol s new candidate rest before seat isOpen known queue =>
      rintro _ ⟨⟩
      exact ⟨secluded.pending candidate (queue.subset (List.mem_cons_self ..)), secluded.service⟩
    | _ => exact secluded.handOver

/-- Messages are made from the configuration, so they name its service. -/
theorem Secluded.service_of_move (secluded : c.Secluded ours inside)
    (move : Move kx cause c said d) {o : Outgoing} (here : o ∈ said) {s : ServiceId}
    (named : o.message.namedService? = some s) : s = ours := by
  rw [← secluded.service]
  cases move with
  | say target m may =>
    obtain rfl := List.mem_singleton.mp here
    cases m with
    | find s =>
      cases named
      exact may
    | offer s | request s value | infoRequest phase s ids | infoResponse phase s id value =>
      cases named
      exact may.1
    | response r =>
      obtain ⟨h, handOver, rfl⟩ := may
      cases named
      rw [(secluded.handOver h handOver).2, secluded.service]
    | token | finish | finishAck => cases named
    | distributed => exact may.elim
  | bowOut =>
    obtain rfl := List.mem_singleton.mp here
    cases named
  | _ => cases here

theorem Secluded.moves (secluded : c.Secluded ours inside) (asked : Protocol.Asked inside cause)
    (moves : Moves kx cause c said d) :
    d.Secluded ours inside ∧ ∀ o ∈ said, ∀ s, o.message.namedService? = some s → s = ours := by
  induction moves with
  | rest => exact ⟨secluded, by simp⟩
  | tail _ move ih =>
    obtain ⟨before, own⟩ := ih
    refine ⟨before.move asked move, fun o here s named ↦ ?_⟩
    rcases List.mem_append.mp here with old | new
    · exact own o old s named
    · exact before.service_of_move move new named

/-- A reaction keeps what all of its moves keep. -/
theorem Secluded.follows (secluded : c.Secluded ours inside) (asked : Protocol.Asked inside cause)
    {t : Turn Chain} (follows : Follows kx cause c t) :
    Protocol.Keeps ours (Secluded ours inside) t := by
  obtain ⟨member, named⟩ := secluded.moves asked follows
  exact ⟨member, named⟩

/-- The messages without a service that a member does not drop. -/
def Heeds (c : Chain) : Message → Prop
  | .token _ => c.finished = false ∧ c.seat.isSome
  | .finish => c.finished = false ∧ c.isClosing = false
  | .finishAck => c.finished = false ∧ c.isClosing
  | _ => False

/-- A message from outside that names another service, or none that is heeded, is dropped. -/
theorem Secluded.answer_silent (secluded : c.Secluded ours inside) {m : Message}
    {source : Endpoint} (outside : ¬ inside source)
    (foreign : m.namedService? ≠ some ours) (unheeded : ¬ c.Heeds m) :
    answer kx m source { member := c } = { member := c } := by
  have other {s : ServiceId} (named : m.namedService? = some s) : c.isFor s = false := by
    rw [isFor, secluded.service, beq_eq_false_iff_ne]
    rintro rfl
    exact foreign named
  have stranger : c.hearAssigned source = c := by
    refine if_neg fun heir ↦ outside ?_
    obtain ⟨h, handOver, rfl⟩ := Option.map_eq_some_iff.mp heir
    exact (secluded.handOver h handOver).1
  cases m with
  | find s => exact if_neg (by simp [other rfl])
  | offer s =>
    have dropped : answer kx (.offer s) source { member := c } =
        { member := c.hearAssigned source } := if_pos (by simp [other rfl])
    rw [dropped, stranger]
  | request s value => exact if_pos (by simp [other rfl])
  | response r => exact if_pos (by simp [other rfl])
  | infoRequest phase s ids => exact if_pos (by simp [other rfl])
  | infoResponse phase s id value => exact if_pos (by simp [other rfl])
  | token target =>
    cases ended : c.finished with
    | true => exact if_pos ended
    | false =>
      have free : c.seat = none := by
        cases seat : c.seat with
        | none => rfl
        | some s => exact absurd ⟨ended, by rw [seat]; rfl⟩ unheeded
      simp [answer, answerToken, free]
  | finish =>
    have deaf : ¬ (c.finished = false ∧ c.isClosing = false) := unheeded
    exact if_pos (by simpa [or_iff_not_imp_left] using deaf)
  | finishAck =>
    have deaf : ¬ (c.finished = false ∧ c.isClosing = true) := unheeded
    cases closing : c.farewells with
    | none => simp [answer, answerFinishAck, closing]
    | some acks =>
      have ended : c.finished = true := by
        simpa [isClosing, closing] using deaf
      simp [answer, answerFinishAck, closing, ended]
  | distributed answer => rfl

/-- What is heeded from anybody names no service. -/
theorem nameless_of_heeds {m : Message} (heeds : c.Heeds m) : m.namedService? = none := by
  cases m with
  | token | finish | finishAck => rfl
  | _ => exact heeds.elim

/-- Whatever a secluded member meets, it stays secluded. -/
theorem Secluded.step (secluded : c.Secluded ours inside) {input : Input}
    (meets : Protocol.MayMeet ours inside c input) :
    Protocol.Keeps ours (Secluded ours inside) ((Chain.protocol kx).step input c) := by
  have silent (m : Message) (source : Endpoint) (outside : ¬ inside source)
      (named : m.namedService? ≠ none) (foreign : m.namedService? ≠ some ours) :
      (Chain.protocol kx).answer m source { member := c } = { member := c } :=
    secluded.answer_silent outside foreign fun heeds ↦ named (nameless_of_heeds heeds)
  rcases Protocol.step_cases meets silent with same | ⟨task, armed, same⟩ | ⟨m, source, asked, same⟩
  · rw [same]
    exact ⟨secluded, by simp [Turn.outgoing]⟩
  · rw [same]
    refine secluded.follows (by rintro _ _ _ ⟨⟩) ((Follows.start kx (.timer task) c).expire rfl ?_)
    rintro rfl
    exact secluded.coherent.armed armed
  · rw [same]
    exact secluded.follows asked ((Follows.start kx _ c).answer rfl secluded.coherent.taken)

section Created

variable {config : MemberConfig} {endpoint : Endpoint} {keys : KeyPair} {random : Random}
  {t : Turn Chain} (created : create config endpoint keys random = .ok t)

include created

theorem create_member : config.validate = .ok () ∧
    t.member = { config, endpoint, keys, agenda := ⟨[], random⟩ } := by
  obtain ⟨accepted, rfl⟩ := MemberConfig.accepted_of_eq_ok created
  exact ⟨accepted, rfl⟩

/-- A new member knows nobody, and its first messages name its service. -/
theorem keeps_start : Protocol.Keeps config.service (Secluded config.service inside)
    ((Chain.protocol kx).step .start t.member) := by
  obtain ⟨accepted, member⟩ := create_member created
  have first : t.member.Secluded config.service inside := by
    rw [member]
    exact ⟨⟨by simp, by simp [Agenda.isArmed], by simp⟩, rfl, by simp, by simp⟩
  refine first.follows (by rintro _ _ _ ⟨⟩) ((Follows.start kx .start t.member).begin rfl ?_ ?_)
  · rw [member]
  · rw [member]
    exact MemberConfig.size_pos accepted

end Created

theorem secluded_of_livesFor (lives : (Chain.protocol kx).LivesFor create ours inside c) :
    c.Secluded ours inside := by
  obtain ⟨config, endpoint, keys, random, t, created, rfl, lives⟩ := lives
  exact lives.keeps (keeps_start created) fun secluded meets ↦ secluded.step meets

theorem service_of_uttersFor {m : Message}
    (utters : (Chain.protocol kx).UttersFor create ours m) {s : ServiceId}
    (named : m.namedService? = some s) : s = ours := by
  obtain ⟨config, endpoint, keys, random, t, created, rfl, utters⟩ := utters
  exact utters.named (keeps_start created) (fun secluded meets ↦ secluded.step meets) named

end Chain

/-! ## Star members -/

namespace Star

variable {kx : KeyExchange} {cause : Input} {m d : Star} {t : Turn Star} {ours : ServiceId}
  {inside : Endpoint → Prop}

/-- Those whom a sponsor serves come from inside, and its answers are for its service. -/
structure Secluded (ours : ServiceId) (inside : Endpoint → Prop) (m : Star) : Prop where
  service : m.config.service = ours
  source : m.source?.isSome → m.config.sponsor = false ∧ m.groupSecret?.isSome
  served : ∀ s ∈ m.served, inside s.endpoint ∧ s.answer.service = ours

/-- Whom a star member has served asked for it, and asked from inside. -/
theorem Secluded.change (secluded : m.Secluded ours inside) (asked : Protocol.Asked inside cause)
    (change : Change kx cause m d) : d.Secluded ours inside := by
  cases change with
  | plan | acknowledge | finish => exact { secluded with }
  | openGroup =>
    exact { secluded with source := fun found ↦ ⟨(secluded.source found).1, rfl⟩ }
  | serve _ service value source group shared nonce sent =>
    refine { secluded with served := fun s here ↦ ?_ }
    rcases List.mem_append.mp here with old | new
    · exact secluded.served s old
    · rw [List.mem_singleton.mp new]
      exact ⟨asked _ _ _ sent, secluded.service⟩
  | keep _ answer source secret sent other =>
    exact { secluded with source := fun _ ↦ ⟨other, rfl⟩ }

theorem Secluded.service_of_vouches (secluded : m.Secluded ours inside) {target : Option Endpoint}
    {said : Message} (vouches : m.Vouches target said) {s : ServiceId}
    (named : said.namedService? = some s) : s = ours := by
  rw [← secluded.service]
  cases said with
  | find s | offer s =>
    cases named
    exact vouches
  | request s value =>
    cases named
    exact vouches.1
  | distributed answer =>
    cases named
    obtain ⟨e, -, served⟩ := vouches
    rw [(secluded.served _ served).2, secluded.service]
  | finish | finishAck => cases named
  | _ => exact vouches.elim

/-- A reaction of a star member keeps what its change keeps. -/
theorem Secluded.does (secluded : m.Secluded ours inside) (asked : Protocol.Asked inside cause)
    (does : Does kx cause m t) : Protocol.Keeps ours (Secluded ours inside) t := by
  have after := secluded.change asked does.change
  exact ⟨after, fun o here s named ↦ after.service_of_vouches (does.vouches o here) named⟩

/-- The messages without a service that a member does not drop. -/
def Heeds (m : Star) : Message → Prop
  | .finish => m.config.sponsor = false ∧ m.finished = false
  | _ => False

theorem Secluded.answer_silent (secluded : m.Secluded ours inside) {said : Message}
    {source : Endpoint} (outside : ¬ inside source)
    (foreign : said.namedService? ≠ some ours) (unheeded : ¬ m.Heeds said) :
    answer kx said source { member := m } = { member := m } := by
  have other {s : ServiceId} (named : said.namedService? = some s) : m.isFor s = false := by
    rw [isFor, secluded.service, beq_eq_false_iff_ne]
    rintro rfl
    exact foreign named
  cases said with
  | find s => exact if_neg (by simp [other rfl])
  | offer s => exact if_pos (by simp [other rfl])
  | request s value => exact if_pos (by simp [other rfl])
  | distributed answer => exact if_pos (by simp [other rfl])
  | finish =>
    have deaf : ¬ (m.config.sponsor = false ∧ m.finished = false) := unheeded
    exact if_pos (by simpa [or_iff_not_imp_left] using deaf)
  | finishAck =>
    have unserved : (m.served.any fun s ↦ s.endpoint = source) = false := by
      rw [List.any_eq_false]
      intro s here same
      rw [decide_eq_true_eq] at same
      exact outside (same ▸ (secluded.served s here).1)
    change answerFinishAck source { member := m } = _
    simp [answerFinishAck, unserved]
  | _ => rfl

theorem nameless_of_heeds {said : Message} (heeds : m.Heeds said) : said.namedService? = none := by
  cases said with
  | finish => rfl
  | _ => exact heeds.elim

theorem Secluded.step (secluded : m.Secluded ours inside) {input : Input}
    (meets : Protocol.MayMeet ours inside m input) :
    Protocol.Keeps ours (Secluded ours inside) ((Star.protocol kx).step input m) := by
  have silent (said : Message) (source : Endpoint) (outside : ¬ inside source)
      (named : said.namedService? ≠ none) (foreign : said.namedService? ≠ some ours) :
      (Star.protocol kx).answer said source { member := m } = { member := m } :=
    secluded.answer_silent outside foreign fun heeds ↦ named (nameless_of_heeds heeds)
  rcases Protocol.step_cases meets silent with same | ⟨task, -, same⟩ | ⟨said, source, asked, same⟩
  · rw [same]
    exact ⟨secluded, by simp [Turn.outgoing]⟩
  · rw [same]
    have does : Does kx (.timer task) m (expire task { member := m }) :=
      .expire task secluded.source
    exact secluded.does (by rintro _ _ _ ⟨⟩) does
  · rw [same]
    exact secluded.does asked (.answer said source)

section Created

variable {config : MemberConfig} {endpoint : Endpoint} {keys : KeyPair} {random : Random}
  (created : create config endpoint keys random = .ok t)

include created

theorem create_member : t.member = { config, endpoint, keys, agenda := ⟨[], random⟩ } := by
  obtain ⟨-, rfl⟩ := MemberConfig.accepted_of_eq_ok created
  rfl

theorem keeps_start : Protocol.Keeps config.service (Secluded config.service inside)
    ((Star.protocol kx).step .start t.member) := by
  have member := create_member created
  have first : t.member.Secluded config.service inside := by
    rw [member]
    exact ⟨rfl, by simp, by simp⟩
  have does : Does kx .start t.member (begin { member := t.member }) := by
    refine .begin fun _ ↦ ?_
    rw [member]
  exact first.does (by rintro _ _ _ ⟨⟩) does

end Created

theorem secluded_of_livesFor (lives : (Star.protocol kx).LivesFor create ours inside m) :
    m.Secluded ours inside := by
  obtain ⟨config, endpoint, keys, random, t, created, rfl, lives⟩ := lives
  exact lives.keeps (keeps_start created) fun secluded meets ↦ secluded.step meets

theorem service_of_uttersFor {said : Message}
    (utters : (Star.protocol kx).UttersFor create ours said) {s : ServiceId}
    (named : said.namedService? = some s) : s = ours := by
  obtain ⟨config, endpoint, keys, random, t, created, rfl, utters⟩ := utters
  exact utters.named (keeps_start created) (fun secluded meets ↦ secluded.step meets) named

end Star

/-- What the members that are configured for a service can say, in either protocol. -/
inductive SaidFor (kx : KeyExchange) (service : ServiceId) (m : Message) : Prop
  | chained (utters : (Chain.protocol kx).UttersFor Chain.create service m)
  | distributed (utters : (Star.protocol kx).UttersFor Star.create service m)

/-- What is said for a service names that service or none. -/
theorem SaidFor.named {kx : KeyExchange} {service s : ServiceId} {m : Message}
    (sent : SaidFor kx service m) (named : m.namedService? = some s) : s = service := by
  cases sent with
  | chained utters => exact Chain.service_of_uttersFor utters named
  | distributed utters => exact Star.service_of_uttersFor utters named

namespace Roster

variable {ι : Type} {g : Roster ι} {kx : KeyExchange} {w : World ι} {i : ι} {input : Input}

/-- One more step of a group's member is one more step of its life. -/
theorem Sound.life (sound : g.Sound w)
    (lives : (i, .start) ∈ w.past →
      (Chain.protocol kx).Lives g.service (fun _ ↦ True) (g.member i) (w.members i))
    (allowed : w.Allows i input) :
    (Chain.protocol kx).Lives g.service (fun _ ↦ True) (g.member i)
        ((Chain.protocol kx).step input (w.members i)).member ∧
      ∀ o ∈ ((Chain.protocol kx).step input (w.members i)).outgoing,
        (Chain.protocol kx).Utters g.service (fun _ ↦ True) (g.member i) o.message := by
  cases input with
  | start =>
    rw [← sound.fresh i allowed]
    exact ⟨.start, fun o here ↦ .start here⟩
  | timer task =>
    have started := sound.started allowed
    have meets : Protocol.MayMeet g.service (fun _ ↦ True) (w.members i) (.timer task) := allowed
    exact ⟨.next (lives started) meets, fun o here ↦ .next (lives started) meets here⟩
  | message m source => exact allowed.elim
  | datagram bytes source =>
    have meets : Protocol.MayMeet g.service (fun _ ↦ True) (w.members i)
        (.datagram bytes source) := .inl trivial
    exact ⟨.next (lives allowed.1) meets, fun o here ↦ .next (lives allowed.1) meets here⟩

variable [DecidableEq ι]

theorem Reaches.lives (reaches : g.Reaches kx w) :
    (∀ i, (i, .start) ∈ w.past →
      (Chain.protocol kx).Lives g.service (fun _ ↦ True) (g.member i) (w.members i)) ∧
    ∀ x ∈ w.sent, SaidFor kx g.service x.message := by
  induction reaches with
  | refl => exact ⟨fun i started ↦ by simp [world] at started, fun x sent ↦ by simp [world] at sent⟩
  | @tail v w' reached step ih =>
    obtain ⟨lives, said⟩ := ih
    obtain ⟨i, input, allowed, rfl⟩ := step
    obtain ⟨after, utters⟩ := (Reaches.sound reached).life (lives i) allowed
    refine ⟨fun j started ↦ ?_, fun x sent ↦ ?_⟩
    · by_cases same : j = i
      · subst same
        rw [World.react, World.act_self]
        exact after
      · rw [World.react, World.act_of_ne same]
        rcases World.mem_log_past.mp started with old | new
        · exact lives j old
        · exact absurd (congrArg Prod.fst new) same
    · rcases World.mem_act_sent.mp sent with old | ⟨o, here, rfl⟩
      · exact said x old
      · exact .chained ⟨_, _, _, _, _, g.create_eq i, g.service_eq i, utters o here⟩

end Roster

namespace Bystander

def config : MemberConfig := { service := 8, memberCount := 3, scatterDelay := .between 0 0 }

def endpoint : Endpoint := ⟨⟨10, 0, 1, 0⟩, 40000⟩

def keys : KeyPair := ⟨⟨[6]⟩, ⟨[8]⟩⟩

/-- A member that runs for another service, next to the three. -/
def member : Chain :=
  ((Chain.protocol Trio.exchange).step .start
    { config, endpoint, keys, agenda := ⟨[], ⟨[], 0⟩⟩ }).member

theorem livesFor : (Chain.protocol Trio.exchange).LivesFor Chain.create 8 (· = endpoint) member :=
  ⟨config, endpoint, keys, ⟨[], 0⟩, _, rfl, rfl, .start⟩

end Bystander

/-- What is said for one service is not noticed by a member that runs for another one, unless it is
one of the three messages that name no service. -/
theorem isolated_from_other_services {kx kx' : KeyExchange} {ours theirs : ServiceId}
    (distinct : theirs ≠ ours) {said : Message} (sent : SaidFor kx' theirs said)
    (short : said.encode.length < 2 ^ 32) {inside : Endpoint → Prop} {source : Endpoint}
    (outside : ¬ inside source) :
    (∀ c, (Chain.protocol kx).LivesFor Chain.create ours inside c → ¬ c.Heeds said →
      (Chain.protocol kx).step (.datagram said.encode source) c = { member := c }) ∧
    ∀ m, (Star.protocol kx).LivesFor Star.create ours inside m → ¬ m.Heeds said →
      (Star.protocol kx).step (.datagram said.encode source) m = { member := m } := by
  have foreign : said.namedService? ≠ some ours := fun named ↦ distinct (sent.named named).symm
  refine ⟨fun c lives unheeded ↦ ?_, fun m lives unheeded ↦ ?_⟩
  · have secluded := Chain.secluded_of_livesFor lives
    exact Protocol.step_silent short (secluded.answer_silent outside foreign unheeded)
  · have secluded := Star.secluded_of_livesFor lives
    exact Protocol.step_silent short (secluded.answer_silent outside foreign unheeded)

/-- The bystander does not notice the opener's offer. -/
theorem isolated_from_other_services_bystander : SaidFor Trio.exchange 7 (.offer 7) ∧
    (Chain.protocol Trio.exchange).step
      (.datagram (Message.offer 7).encode (Trio.roster.endpoint 0)) Bystander.member =
        { member := Bystander.member } := by
  obtain ⟨-, said⟩ := Trio.reaches.lives
  have sent : SaidFor Trio.exchange 7 (.offer 7) :=
    said ⟨Trio.roster.endpoint 0, none, .offer 7⟩ (by decide +kernel)
  exact ⟨sent, (isolated_from_other_services (by decide) sent (by decide) (by decide)).1 _
    Bystander.livesFor id⟩

/-- The end of one run ends every other run that it reaches, unless that run is about to end. -/
theorem finish_ends_run (kx : KeyExchange) {source : Endpoint} :
    (∀ c : Chain, c.Heeds .finish → source ≠ c.endpoint →
      ((Chain.protocol kx).step (.datagram Message.finish.encode source) c).member.finished) ∧
    ∀ m : Star, m.Heeds .finish → source ≠ m.endpoint →
      ((Star.protocol kx).step (.datagram Message.finish.encode source) m).member.finished := by
  have decoded : Message.decode Message.finish.encode = .ok .finish := by decide
  refine ⟨fun c ⟨running, still⟩ foreign ↦ ?_, fun m ⟨other, running⟩ foreign ↦ ?_⟩
  · rw [Protocol.step, Protocol.receive_of_ok foreign decoded]
    change (Chain.answerFinish source { member := c }).member.finished
    unfold Chain.answerFinish
    rw [if_neg (by simp [running, still])]
    split
    · exact Turn.finished_endRun ({ member := c } : Turn Chain)
    · exact (({ member := c } : Turn Chain).unicast source .finishAck).finished_endRun
  · rw [Protocol.step, Protocol.receive_of_ok foreign decoded]
    change (Star.answerFinish { member := m }).member.finished
    unfold Star.answerFinish
    rw [if_neg (by simp [other, running])]
    exact (({ member := m } : Turn Star).cancel .finishAck).finished_endRun

/-- The bystander's run is over as soon as the three are done with theirs. -/
theorem finish_crosses_services : SaidFor Trio.exchange 7 .finish ∧
    (Chain.protocol Trio.exchange).LivesFor Chain.create 8 (· = Bystander.endpoint)
      Bystander.member ∧
    Trio.roster.endpoint 2 ≠ Bystander.endpoint ∧
    (Chain.protocol Trio.exchange).step
      (.datagram Message.finish.encode (Trio.roster.endpoint 2)) Bystander.member ≠
        { member := Bystander.member } := by
  obtain ⟨-, said⟩ := Trio.reaches.lives
  refine ⟨said ⟨Trio.roster.endpoint 2, none, .finish⟩ (by decide +kernel), Bystander.livesFor,
    by decide, fun silent ↦ ?_⟩
  have foreign : Trio.roster.endpoint 2 ≠ Bystander.member.endpoint := by
    decide
  have ended := (finish_ends_run Trio.exchange).1 Bystander.member ⟨rfl, rfl⟩ foreign
  rw [silent] at ended
  cases ended

end GroupKey
