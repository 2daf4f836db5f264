import GroupKey.Proofs.KeyBounds
import GroupKey.Proofs.UpToDate

/-!
# Retransmission under arbitrary traffic

In a group that plays by the rules nobody falls silent.  Here a member is alone, and anybody may
say anything to it.  It may be made to hold the token early, to compute a key too many or to let in
whoever asks, but it still has a task armed for whatever it waits for.  Only the duty to pass the
token on can be lost: a sponsor that holds the token too early gets its last key by an admission,
which does not look at the token.
-/

namespace GroupKey

namespace Chain

variable {kx : KeyExchange} {cause input : Input} {c d : Chain} {said : List Outgoing} {duty : Duty}

/-- How far a member has come that took part in the token round. -/
structure InRound (c : Chain) : Prop where
  order : c.token.taken → c.token.passed
  held : c.token.held → c.seat.isSome
  passed : c.token.passed → ∃ s, c.seat = some s ∧ c.size < s.id + s.keysComputed
  closing : c.isClosing → ∃ s, c.seat = some s ∧ c.size ≤ s.id

theorem inRound_of_idle (silent : c.token = {}) (still : c.farewells = none) : c.InRound := by
  constructor <;> simp [silent, isClosing, still]

/-- Each mark of the token is made by a member that has come far enough for it. -/
theorem InRound.move (inRound : c.InRound) (move : Move kx cause c said d) : d.InRound := by
  have size : d.size = c.size := by rw [Chain.size, move.config_eq, Chain.size]
  have tokens : (d.token.taken → d.token.passed) ∧ (d.token.held → c.seat.isSome) ∧
      (d.token.passed → ∃ s, c.seat = some s ∧ c.size < s.id + s.keysComputed) := by
    rcases move.token_cases with
      same | ⟨_, _, s, -, seat, -, held⟩ | ⟨-, -, complete, -, passed⟩ | ⟨passed, -, taken⟩
    · rw [same]
      exact ⟨inRound.order, inRound.held, inRound.passed⟩
    · rw [held]
      exact ⟨inRound.order, fun _ ↦ by rw [seat]; rfl, inRound.passed⟩
    · obtain ⟨s, seat, all⟩ := isComplete_iff.mp complete
      rw [passed]
      exact ⟨fun _ ↦ rfl, inRound.held, fun _ ↦ ⟨s, seat, by omega⟩⟩
    · rw [taken]
      exact ⟨fun _ ↦ passed, inRound.held, inRound.passed⟩
  have closing : d.isClosing → ∃ s, c.seat = some s ∧ c.size ≤ s.id := by
    unfold isClosing
    rcases move.end_cases with
      ⟨same, -⟩ | ⟨s, seat, last, -⟩ | ⟨_, _, -, before, -⟩ | ⟨-, same⟩ | ⟨-, still⟩
    · rw [same]
      exact inRound.closing
    · exact fun _ ↦ ⟨s, seat, Nat.le_of_eq last.symm⟩
    · exact fun _ ↦ inRound.closing (isClosing_of_farewells before)
    · rw [same]
      exact inRound.closing
    · simp [still]
  obtain ⟨order, held, passed⟩ := tokens
  refine ⟨order, fun holds ↦ ?_, fun passes ↦ ?_, fun closes ↦ ?_⟩
  · obtain ⟨s, seat⟩ := Option.isSome_iff_exists.mp (held holds)
    obtain ⟨s', seat', -⟩ := move.reseats seat
    rw [seat']
    rfl
  · obtain ⟨s, seat, reach⟩ := passed passes
    obtain ⟨s', seat', same, more⟩ := move.reseats seat
    exact ⟨s', seat', by omega⟩
  · obtain ⟨s, seat, last⟩ := closing closes
    obtain ⟨s', seat', same, -⟩ := move.reseats seat
    exact ⟨s', seat', by omega⟩

/-- Whoever passed the token on has no more values to ask for, even with a key too many. -/
theorem InRound.supplied (inRound : c.InRound) (passed : c.token.passed) : c.Supplied := by
  obtain ⟨s, seat, reach⟩ := inRound.passed passed
  exact ⟨by rw [seat]; rfl, gapsAbove_of_reach seat reach⟩

/-! ## Tasks -/

/-- Whatever a member waits for, a task is armed that will ask for it again. -/
structure Persists (c : Chain) : Prop where
  search : c.seat = none → c.config.sponsor = false → c.sponsorFound = false →
    c.agenda.isArmed .find
  admission : c.isOpen → c.agenda.isArmed .offer ∨ c.agenda.isArmed .infoRequest
  handOver : ∀ h, c.handOver = some h → h.confirmed = false → c.agenda.isArmed .response
  token : c.token.passed → c.token.taken = false → c.isClosing = false →
    c.agenda.isArmed .synchToken
  question : ∀ s id, c.token.held → c.seat = some s → s.id + s.keysComputed ≤ id → id ≤ c.size →
    c.directory.publicOf? id = none → c.agenda.isArmed .synchRequest
  farewell : c.isClosing → c.agenda.isArmed .finish ∧ c.agenda.isArmed .finishTimeout

theorem eq_of_duty? {task other : Task} (serves : task.duty? = some duty)
    (meets : other.duty? = some duty) (single : duty ≠ .admission) : other = task := by
  cases task <;> cases serves <;> cases other <;>
    first | rfl | exact absurd rfl single | cases meets

/-- Only the queue can be seen to in two ways. -/
theorem isArmed_of_mindful (mindful : c.Mindful duty) (running : c.finished = false)
    (due : c.Due duty) {task : Task} (serves : task.duty? = some duty)
    (single : duty ≠ .admission) : c.agenda.isArmed task := by
  have met : ∃ other : Task, other.duty? = some duty ∧ c.agenda.isArmed other := by
    have met := mindful running due
    cases task <;> cases serves <;> exact met
  obtain ⟨other, meets, armed⟩ := met
  rwa [eq_of_duty? serves meets single] at armed

/-- An id without a value is a gap. -/
theorem gapsAbove_ne_nil {s : Seat} {id : Nat} (seat : c.seat = some s)
    (above : s.id + s.keysComputed ≤ id) (last : id ≤ c.size)
    (unknown : c.directory.publicOf? id = none) : c.gapsAbove ≠ [] := by
  rw [gapsAbove, seat]
  intro known
  have there := Directory.containsId_of_missing_eq_nil known above (Nat.lt_succ_of_le last)
  rw [Directory.publicOf?_eq_none_iff.mp unknown] at there
  cases there

/-- A member that sees to its duties has the tasks for them armed. -/
theorem Persists.of_mindful (running : c.finished = false) (inRound : c.InRound)
    (begun : ∀ s, c.seat = some s → 1 ≤ s.keysComputed)
    (mindful : ∀ duty, duty ≠ .passOn → c.Mindful duty) : c.Persists where
  search free guest unseen :=
    isArmed_of_mindful (mindful .search (by decide)) running ⟨free, unseen, guest⟩ rfl (by decide)
  admission isOpen := by
    obtain ⟨task, serves, armed⟩ := mindful .admission (by decide) running isOpen
    cases task <;> cases serves
    · exact .inl armed
    · exact .inr armed
  handOver h handOver pending :=
    isArmed_of_mindful (mindful .handOver (by decide)) running ⟨h, handOver, pending⟩ rfl
      (by decide)
  token passed waiting still :=
    isArmed_of_mindful (mindful .token (by decide)) running ⟨passed, waiting, still⟩ rfl (by decide)
  question s id held seat above last unknown := by
    have still : c.isClosing = false := by
      -- Only the last member closes, and it has no key to wait for.
      refine Bool.eq_false_iff.mpr fun closing ↦ ?_
      obtain ⟨s', seat', last_⟩ := inRound.closing closing
      cases seat.symm.trans seat'
      have own := begun s seat
      omega
    have gaps := gapsAbove_ne_nil seat above last unknown
    exact isArmed_of_mindful (mindful .question (by decide)) running ⟨held, still, gaps⟩ rfl
      (by decide)
  farewell closing :=
    ⟨isArmed_of_mindful (mindful .farewell (by decide)) running closing rfl (by decide),
      isArmed_of_mindful (mindful .patience (by decide)) running closing rfl (by decide)⟩

/-- Anything but an offer. -/
def Unoffered (c : Chain) (input : Input) : Prop :=
  c.OnceStarted input ∧ ∀ service source,
    ¬ Protocol.Hears (fun _ ↦ True) input (.message (.offer service) source)

/-- That a sponsor was found is noticed by an offer only. -/
theorem Move.sponsorFound_cases (move : Move kx cause c said d) :
    d.sponsorFound = c.sponsorFound ∨
      ∃ service source, cause = .message (.offer service) source := by
  cases move with
  | learn endpoint id value =>
    obtain ⟨_, _, frame⟩ := learn_frame c endpoint id value
    rw [frame]
    exact .inl rfl
  | enqueue service value source =>
    obtain ⟨_, frame⟩ := enqueue_frame c ⟨source, value⟩
    rw [frame]
    exact .inl rfl
  | findSponsor service source offered => exact .inr ⟨service, source, offered⟩
  | _ => exact .inl rfl

theorem Unoffered.step (allowed : c.Unoffered input) (order : c.token.taken → c.token.passed)
    (unseen : c.sponsorFound = false) :
    ((Chain.protocol kx).step input c).member.sponsorFound = false := by
  rcases allowed.1.cases order with ⟨agenda, member, -⟩ | ⟨cause, hears, follows⟩
  · rw [member]
    exact unseen
  · refine follows.keeps (P := fun d ↦ d.sponsorFound = false) unseen fun before move ↦ ?_
    rcases move.sponsorFound_cases with same | ⟨service, source, rfl⟩
    · exact same.trans before
    · exact absurd hears (allowed.2 service source)

/-! ## Runs -/

section Runs

variable {config : MemberConfig} {endpoint : Endpoint} {keys : KeyPair} {random : Random}
  {t : Turn Chain} (created : create config endpoint keys random = .ok t)

include created

theorem sponsorFound_start :
    ((Chain.protocol kx).step .start t.member).member.sponsorFound = false := by
  obtain ⟨agenda, announced, finished, begun | ⟨-, begun⟩⟩ := started_cases created <;> rw [begun]

theorem inRound_start : ((Chain.protocol kx).step .start t.member).member.InRound := by
  obtain ⟨agenda, announced, finished, begun | ⟨-, begun⟩⟩ := started_cases created <;>
    rw [begun] <;> exact inRound_of_idle rfl rfl

theorem inRound_of_exposed
    (exposed : (Chain.protocol kx).Exposed OnceStarted
      ((Chain.protocol kx).step .start t.member).member c) : c.InRound :=
  exposed_keeps created exposed (inRound_start created) (fun inRound _ ↦ { inRound with })
    fun inRound move ↦ inRound.move move

theorem mindful_of_exposed (other : duty ≠ .passOn)
    (exposed : (Chain.protocol kx).Exposed OnceStarted
      ((Chain.protocol kx).step .start t.member).member c) : c.Mindful duty := by
  induction exposed with
  | rest =>
    obtain ⟨accepted, member⟩ := create_member created
    rw [member]
    exact mindful_start rfl rfl rfl rfl (MemberConfig.size_pos accepted)
  | next exposed allowed ih =>
    have inRound := inRound_of_exposed created exposed
    exact ih.step allowed.2 inRound.held inRound.order inRound.supplied fun passOn ↦
      absurd passOn other

theorem sponsorFound_of_unoffered
    (exposed : (Chain.protocol kx).Exposed Unoffered
      ((Chain.protocol kx).step .start t.member).member c) : c.sponsorFound = false := by
  induction exposed with
  | rest => exact sponsorFound_start created
  | next exposed allowed ih =>
    have inRound := inRound_of_exposed created (exposed.mono And.left)
    exact allowed.step inRound.order ih

end Runs

end Chain

/-- However a member is talked to, as long as it runs it has a task armed that repeats whatever it
waits for an answer to.  Its counter of keys fits into its word unless it computed a key too many in
the largest group.  That it has found a sponsor only an offer makes it believe. -/
theorem duties_survive_traffic {kx : KeyExchange} {config : MemberConfig} {endpoint : Endpoint}
    {keys : KeyPair} {random : Random} {t : Turn Chain}
    (created : Chain.create config endpoint keys random = .ok t) :
    (∀ c, (Chain.protocol kx).Exposed Chain.OnceStarted
        ((Chain.protocol kx).step .start t.member).member c →
      c.finished = false → c.Persists ∧
        ∀ s, c.seat = some s → s.keysComputed < UInt16.size ∨ s.Overflown config.size) ∧
    ∀ c, (Chain.protocol kx).Exposed Chain.Unoffered
        ((Chain.protocol kx).step .start t.member).member c → c.sponsorFound = false := by
  refine ⟨fun c exposed running ↦ ?_, fun c ↦ Chain.sponsorFound_of_unoffered created⟩
  have counted := Chain.counted_of_exposed created exposed
  have persists : c.Persists := .of_mindful running (Chain.inRound_of_exposed created exposed)
    (fun s seat ↦ (counted.seat s seat).begun)
    fun duty other ↦ Chain.mindful_of_exposed created other exposed
  exact ⟨persists, fun s seat ↦ (counted.seat s seat).fits config.size_lt⟩

namespace Couple

/-- Member one let a third one in after it had passed the token on. -/
def busy : Chain := after ahead lateRequest

end Couple

/-- Member one was handed the token too early and passed it on, and let somebody in afterwards.  It
repeats both the token and the hand-over. -/
theorem duties_survive_traffic_couple :
    Couple.busy.finished = false ∧ Couple.busy.token = ⟨true, true, false⟩ ∧
    Couple.busy.agenda.isArmed .synchToken ∧ Couple.busy.agenda.isArmed .response ∧
    Couple.started.sponsorFound = false := by
  obtain ⟨persists, unseen⟩ := @duties_survive_traffic x25519 _ _ _ _ _ Couple.created
  have exposed : (Chain.protocol x25519).Exposed Chain.OnceStarted Couple.started Couple.busy :=
    .next (.next (.next .rest ⟨trivial, nofun⟩) ⟨trivial, nofun⟩) ⟨trivial, nofun⟩
  have running : Couple.busy.finished = false := by decide +kernel
  have token : Couple.busy.token = ⟨true, true, false⟩ := by decide +kernel
  have handed : Couple.busy.handOver.any (fun h ↦ !h.confirmed) = true := by decide +kernel
  obtain ⟨h, handOver, pending⟩ := (Option.any_eq_true _ _).mp handed
  obtain ⟨busy, -⟩ := persists Couple.busy exposed running
  exact ⟨running, token, busy.token (by rw [token]) (by rw [token]) (by decide +kernel),
    busy.handOver h handOver (by simpa using pending), unseen _ .rest⟩

end GroupKey
