import GroupKey.Proofs.Duties
import GroupKey.Proofs.RoundTrip
import GroupKey.Proofs.StarSteps

/-!
# Members that are exposed to anything

A member does not choose what reaches it: bytes from anywhere, deadlines of tasks it never armed,
a second start.  What every single step keeps holds in all states that it can be brought to, and
what every single step says is all that it ever says.
-/

namespace GroupKey

namespace Protocol

variable {σ : Type}

/-- What a host can pass to a member, with datagrams from inside only.  A message that was not read
from a datagram is nothing that happens. -/
def Outer (inside : Endpoint → Prop) : Input → Prop
  | .message _ _ => False
  | .datagram _ source => inside source
  | _ => True

/-- The states that a member can be brought to. -/
inductive Exposed (p : Protocol σ) (may : σ → Input → Prop) (first : σ) : σ → Prop
  | rest : Exposed p may first first
  | next {m : σ} {input : Input} (exposed : Exposed p may first m) (allowed : may m input) :
    Exposed p may first (p.step input m).member

/-- Where a list of inputs, one after the other, brings a member. -/
def after (p : Protocol σ) (m : σ) (inputs : List Input) : σ :=
  inputs.foldl (fun m input ↦ (p.step input m).member) m

/-- The messages that a member can be brought to send. -/
def Emits (p : Protocol σ) (may : σ → Input → Prop) (first : σ) (said : Message) : Prop :=
  ∃ m input e, p.Exposed may first m ∧ may m input ∧ e ∈ (p.step input m).effects ∧
    e.message? = some said

/-- The turn ends in a state with one property, and what leaves it has another. -/
structure Upholds (P : σ → Prop) (Q : Message → Prop) (t : Turn σ) : Prop where
  member : P t.member
  messages : ∀ o ∈ t.outgoing, Q o.message

theorem mem_outgoing_of_message? {t : Turn σ} {e : Effect} {said : Message} (here : e ∈ t.effects)
    (carries : e.message? = some said) : ∃ o ∈ t.outgoing, o.message = said := by
  cases e with
  | multicast m =>
    cases carries
    exact ⟨⟨none, said⟩, List.mem_filterMap.mpr ⟨_, here, rfl⟩, rfl⟩
  | unicast target m =>
    cases carries
    exact ⟨⟨some target, said⟩, List.mem_filterMap.mpr ⟨_, here, rfl⟩, rfl⟩
  | _ => cases carries

theorem Exposed.keeps {p : Protocol σ} {may : σ → Input → Prop} {first m : σ} {P : σ → Prop}
    (exposed : p.Exposed may first m) (start : P first)
    (step : ∀ {m : σ} {input : Input}, P m → may m input → P (p.step input m).member) : P m := by
  induction exposed with
  | rest => exact start
  | next _ allowed ih => exact step ih allowed

theorem Exposed.mono {p : Protocol σ} {may may' : σ → Input → Prop} {first m : σ}
    (exposed : p.Exposed may first m)
    (weaker : ∀ {m : σ} {input : Input}, may m input → may' m input) : p.Exposed may' first m := by
  induction exposed with
  | rest => exact .rest
  | next _ allowed ih => exact .next ih (weaker allowed)

section Upholds

variable {p : Protocol σ} {may : σ → Input → Prop} {first m : σ} {P : σ → Prop}
  {Q : Message → Prop} (start : P first)
  (step : ∀ {m : σ} {input : Input}, P m → may m input → Upholds P Q (p.step input m))

include start step

theorem Exposed.upholds (exposed : p.Exposed may first m) : P m :=
  exposed.keeps start fun before allowed ↦ (step before allowed).member

theorem Emits.upholds {said : Message} (emits : p.Emits may first said) : Q said := by
  obtain ⟨m, input, e, exposed, allowed, here, carries⟩ := emits
  obtain ⟨o, left, rfl⟩ := mem_outgoing_of_message? here carries
  exact (step (exposed.upholds start step) allowed).messages o left

end Upholds

/-- A datagram either passes unnoticed or brings a message that passed all checks. -/
theorem step_datagram_cases (p : Protocol σ) (bytes : Bytes) (source : Endpoint) (m : σ) :
    p.step (.datagram bytes source) m = { member := m } ∨
      ∃ said, Message.decode bytes = .ok said ∧
        p.step (.datagram bytes source) m = p.answer said source { member := m } := by
  by_cases own : source = p.endpoint m
  · exact .inl (receive_own own)
  · cases decoded : Message.decode bytes with
    | error e => exact .inl (receive_of_error own decoded)
    | ok said => exact .inr ⟨said, rfl, receive_of_ok own decoded⟩

/-- What a member reacts to: the input itself, or the message that a datagram was read as. -/
def Hears (inside : Endpoint → Prop) (input : Input) : Input → Prop
  | .message said source =>
    inside source ∧ ∃ bytes, input = .datagram bytes source ∧ Message.decode bytes = .ok said
  | cause => cause = input

end Protocol

/-- Repeating a message says that message and nothing else. -/
theorem Turn.mem_outgoing_keepSending {σ : Type} [Busy σ] {t : Turn σ} {task : Task}
    {target : Option Endpoint} {m : Message} {o : Outgoing}
    (here : o ∈ (t.keepSending task target m).outgoing) : o ∈ t.outgoing ∨ o.message = m := by
  unfold keepSending at here
  split at here
  · exact .inl here
  · rw [outgoing_schedule] at here
    cases target with
    | none =>
      rw [send, outgoing_multicast] at here
      exact (List.mem_append.mp here).imp id fun new ↦ by rw [List.mem_singleton.mp new]
    | some endpoint =>
      rw [send, outgoing_unicast] at here
      exact (List.mem_append.mp here).imp id fun new ↦ by rw [List.mem_singleton.mp new]

/-! ## Chained members -/

namespace Chain

variable {kx : KeyExchange} {cause : Input} {c : Chain} {t : Turn Chain}

/-- What all moves keep, and what all moves say. -/
theorem Follows.upholds {P : Chain → Prop} {Q : Message → Prop} (follows : Follows kx cause c t)
    (start : P c)
    (move : ∀ {d e : Chain} {said : List Outgoing}, P d → Move kx cause d said e →
      P e ∧ ∀ o ∈ said, Q o.message) : Protocol.Upholds P Q t := by
  have moves {said : List Outgoing} {d : Chain} (moves : Moves kx cause c said d) :
      P d ∧ ∀ o ∈ said, Q o.message := by
    induction moves with
    | rest => exact ⟨start, by simp⟩
    | tail _ next ih =>
      obtain ⟨before, spoken⟩ := ih
      obtain ⟨after, more⟩ := move before next
      refine ⟨after, fun o here ↦ ?_⟩
      rcases List.mem_append.mp here with old | new
      · exact spoken o old
      · exact more o new
  obtain ⟨member, messages⟩ := moves follows
  exact ⟨member, messages⟩

theorem Follows.keeps {P : Chain → Prop} (follows : Follows kx cause c t) (start : P c)
    (move : ∀ {d e : Chain} {said : List Outgoing}, P d → Move kx cause d said e → P e) :
    P t.member := by
  have upheld : Protocol.Upholds P (fun _ ↦ True) t :=
    follows.upholds start fun before next ↦ ⟨move before next, fun _ _ ↦ trivial⟩
  exact upheld.member

theorem outgoing_reportKey (t : Turn Chain) : (reportKey t).outgoing = t.outgoing := by
  unfold reportKey
  split <;> simp

theorem outgoing_announceKey (t : Turn Chain) : (announceKey t).outgoing = t.outgoing := by
  unfold announceKey
  split
  · split <;> simp
  · rfl

/-- A start opens the group again if the member is to open it, and says one thing at most. -/
theorem begin_frame (c : Chain) :
    (∃ agenda announced finished,
      (begin { member := c }).member = { c with agenda, announced, finished } ∨
      (c.config.sponsor = true ∧ (begin { member := c }).member =
        { c with
          agenda, announced, finished
          seat := some c.openingSeat
          directory := (c.directory.record c.endpoint 1 c.keys.publicValue).2 })) ∧
    ∀ o ∈ (begin { member := c }).outgoing,
      o.message = c.findMessage ∨ o.message = c.offerMessage := by
  unfold begin openGroup
  dsimp only
  split
  · next chosen =>
    generalize reported : reportKey _ = t
    have member : t.member =
        { c with
          seat := some c.openingSeat
          directory := (c.directory.record c.endpoint 1 c.keys.publicValue).2 } := by
      rw [← reported, Follows.member_reportKey]
      rfl
    have silent : t.outgoing = [] := by
      rw [← reported, outgoing_reportKey]
      rfl
    split
    · obtain ⟨announced, known⟩ := Follows.member_announceKey t
      obtain ⟨finished, ended⟩ := (announceKey t).member_endRun
      rw [ended, known, member, Turn.outgoing_endRun, outgoing_announceKey, silent]
      exact ⟨⟨c.agenda, announced, finished, .inr ⟨chosen, rfl⟩⟩, by simp⟩
    · obtain ⟨agenda, sent⟩ := t.member_keepSending .offer none t.member.offerMessage
      rw [sent, member]
      refine ⟨⟨agenda, c.announced, c.finished, .inr ⟨chosen, rfl⟩⟩, fun o here ↦ ?_⟩
      rcases Turn.mem_outgoing_keepSending here with old | new
      · rw [silent] at old
        cases old
      · exact .inr new
  · obtain ⟨agenda, member⟩ := Turn.member_keepSending
      ((({ member := c } : Turn Chain).count .memberCount).mark .durationStart) .find none
      c.findMessage
    refine ⟨⟨agenda, c.announced, c.finished, .inl member⟩, fun o here ↦ ?_⟩
    rcases Turn.mem_outgoing_keepSending here with old | new
    · exact (List.not_mem_nil old).elim
    · exact .inl new

/-- When the deadline of the token comes, the token goes to the successor, whether or not it was
passed on before.  Only its own task can be armed by this. -/
theorem repeatToken_frame (kx : KeyExchange) (c : Chain) :
    (∃ agenda : Agenda, (expire kx .synchToken { member := c }).member = { c with agenda } ∧
      ∀ task, agenda.isArmed task → task = .synchToken ∨ c.agenda.isArmed task) ∧
    ∀ o ∈ (expire kx .synchToken { member := c }).outgoing,
      ∃ s, c.seat = some s ∧ o.message = tokenMessage (successor s.id c.size) := by
  have disarmed : ∃ agenda : Agenda,
      (({ member := c } : Turn Chain).disarm .synchToken).member = { c with agenda } ∧
        ∀ task, agenda.isArmed task → task = .synchToken ∨ c.agenda.isArmed task :=
    ⟨_, rfl, fun _ armed ↦ .inr (Follows.isArmed_of_remove armed)⟩
  unfold expire runTask
  dsimp only
  split
  · split
    · next next named =>
      obtain ⟨id, known, rfl⟩ := Option.map_eq_some_iff.mp named
      obtain ⟨s, seat, rfl⟩ := Option.map_eq_some_iff.mp known
      obtain ⟨agenda, member, armed⟩ := arms_keepSending
        (({ member := c } : Turn Chain).disarm .synchToken) .synchToken none
        (tokenMessage (successor s.id c.size))
      refine ⟨⟨agenda, member, fun task here ↦ ?_⟩, fun o here ↦ ?_⟩
      · rw [armed, Bool.or_eq_true, decide_eq_true_eq] at here
        exact here.imp id Follows.isArmed_of_remove
      · rcases Turn.mem_outgoing_keepSending here with old | new
        · exact (List.not_mem_nil old).elim
        · exact ⟨s, seat, new⟩
    · exact ⟨disarmed, fun o here ↦ (List.not_mem_nil here).elim⟩
  · exact ⟨disarmed, fun o here ↦ (List.not_mem_nil here).elim⟩

/-- A step is a start, or repeats the token, or is made of moves. -/
theorem step_cases (kx : KeyExchange) {inside : Endpoint → Prop} {input : Input}
    (outer : Protocol.Outer inside input) (order : c.token.taken → c.token.passed) :
    (input = .start ∧ (Chain.protocol kx).step input c = begin { member := c }) ∨
    (input = .timer .synchToken ∧
      (Chain.protocol kx).step input c = expire kx .synchToken { member := c }) ∨
    ∃ cause, Protocol.Hears inside input cause ∧
      Follows kx cause c ((Chain.protocol kx).step input c) := by
  cases input with
  | start => exact .inl ⟨rfl, rfl⟩
  | timer task =>
    by_cases token : task = .synchToken
    · subst token
      exact .inr (.inl ⟨rfl, rfl⟩)
    · exact .inr (.inr ⟨.timer task, rfl, (Follows.start kx _ c).expire rfl fun same ↦
        absurd same token⟩)
  | message said source => exact outer.elim
  | datagram bytes source =>
    right; right
    rcases (Chain.protocol kx).step_datagram_cases bytes source c with same | ⟨said, read, same⟩
    · rw [same]
      exact ⟨.datagram bytes source, rfl, Follows.start kx _ c⟩
    · rw [same]
      exact ⟨.message said source, ⟨outer, bytes, rfl, read⟩,
        (Follows.start kx _ c).answer rfl order⟩

end Chain

/-! ## Star members -/

namespace Star

variable {kx : KeyExchange} {m : Star}

theorem drawGroupSecret_frame (m : Star) :
    (∃ agenda, m.drawGroupSecret.2 = { m with agenda, groupSecret? := some m.drawGroupSecret.1 }) ∧
      m.drawGroupSecret.1.bytes.length = Curve25519.keyLength :=
  ⟨⟨_, rfl⟩, Random.length_nextBytes _ _⟩

/-- A start draws a group secret if the member is to open the group, and says one thing at most. -/
theorem begin_frame (m : Star) :
    (∃ agenda secret? finished,
      (begin { member := m }).member = { m with agenda, groupSecret? := secret?, finished } ∧
      (secret? = m.groupSecret? ∨
        ∃ secret, secret? = some secret ∧ secret.bytes.length = Curve25519.keyLength)) ∧
    ∀ o ∈ (begin { member := m }).outgoing,
      o.message = m.findMessage ∨ o.message = m.offerMessage := by
  unfold begin openGroup
  dsimp only
  split
  · obtain ⟨⟨agenda, drawn⟩, whole⟩ := drawGroupSecret_frame m
    generalize told : announceKey _ _ = t
    have member : t.member =
        { m with agenda, groupSecret? := some m.drawGroupSecret.1 } := by
      rw [← told, ← drawn]
      rfl
    have silent : t.outgoing = [] := by
      rw [← told]
      rfl
    split
    · obtain ⟨finished, ended⟩ := t.member_endRun
      rw [ended, member, Turn.outgoing_endRun, silent]
      exact ⟨⟨agenda, _, finished, rfl, .inr ⟨_, rfl, whole⟩⟩, by simp⟩
    · obtain ⟨later, sent⟩ := t.member_keepSending .offer none t.member.offerMessage
      rw [sent, member]
      refine ⟨⟨later, _, m.finished, rfl, .inr ⟨_, rfl, whole⟩⟩, fun o here ↦ ?_⟩
      rcases Turn.mem_outgoing_keepSending here with old | new
      · rw [silent] at old
        cases old
      · exact .inr new
  · obtain ⟨agenda, member⟩ := Turn.member_keepSending
      ((({ member := m } : Turn Star).count .memberCount).mark .durationStart) .find none
      m.findMessage
    refine ⟨⟨agenda, m.groupSecret?, m.finished, member, .inl rfl⟩, fun o here ↦ ?_⟩
    rcases Turn.mem_outgoing_keepSending here with old | new
    · exact (List.not_mem_nil old).elim
    · exact .inl new

/-- A step is a start, or one of the changes. -/
theorem step_cases (kx : KeyExchange) {inside : Endpoint → Prop} {input : Input}
    (outer : Protocol.Outer inside input)
    (told : m.source?.isSome → m.config.sponsor = false ∧ m.groupSecret?.isSome) :
    (input = .start ∧ (Star.protocol kx).step input m = begin { member := m }) ∨
    ∃ cause, cause ≠ .start ∧ Protocol.Hears inside input cause ∧
      Does kx cause m ((Star.protocol kx).step input m) := by
  cases input with
  | start => exact .inl ⟨rfl, rfl⟩
  | timer task => exact .inr ⟨.timer task, by simp, rfl, Does.expire task told⟩
  | message said source => exact outer.elim
  | datagram bytes source =>
    right
    rcases (Star.protocol kx).step_datagram_cases bytes source m with same | ⟨said, read, same⟩
    · rw [same]
      exact ⟨.datagram bytes source, by simp, rfl, Does.start kx _ m⟩
    · rw [same]
      exact ⟨.message said source, by simp, ⟨outer, bytes, rfl, read⟩, Does.answer said source⟩

end Star

end GroupKey
