import GroupKey.Proofs.Progress

/-!
# The duties of a member

Whoever waits for others repeats what it said last, so it has a task armed that will say it again.
Each phase of a run knows such a duty, and each phase ends with a step that takes the next one on.
In the middle of a reaction a duty may be neglected, but by its end it is met, whatever the member
was told.
-/

namespace GroupKey

/-- What a member that still runs has to see to.  Some duties are met by an armed task, the others
by what the member has done. -/
inductive Duty
  | founding
  | search
  | admission
  | handOver
  | opening
  | token
  | question
  | passOn
  | closing
  | farewell
  | patience
  deriving DecidableEq, Repr

/-- The duty that an armed task meets. -/
def Task.duty? : Task → Option Duty
  | .find => some .search
  | .offer => some .admission
  | .infoRequest => some .admission
  | .response => some .handOver
  | .synchToken => some .token
  | .synchRequest => some .question
  | .finish => some .farewell
  | .finishTimeout => some .patience
  | _ => none

namespace Chain

/-- When a member has a duty. -/
def Due (c : Chain) : Duty → Prop
  | .founding => c.config.sponsor
  | .search => c.seat = none ∧ c.sponsorFound = false ∧ c.config.sponsor = false
  | .admission => c.isOpen
  | .handOver => ∃ h, c.handOver = some h ∧ h.confirmed = false
  | .opening => ∃ s, c.seat = some s ∧ c.size ≤ s.id
  | .token => c.token.passed ∧ c.token.taken = false ∧ c.isClosing = false
  | .question => c.token.held ∧ c.isClosing = false ∧ c.gapsAbove ≠ []
  | .passOn => c.token.held ∧ c.isClosing = false ∧ c.isComplete
  | .closing => c.token.held ∧ c.memberId? = some c.size
  | .farewell => c.isClosing
  | .patience => c.isClosing

/-- When a member has done its duty. -/
def Met (c : Chain) : Duty → Prop
  | .founding => c.seat.isSome
  | .opening => c.token.passed
  | .passOn => c.token.passed
  | .closing => c.isClosing
  | duty => ∃ task, task.duty? = some duty ∧ c.agenda.isArmed task

def Mindful (c : Chain) (duty : Duty) : Prop := c.finished = false → c.Due duty → c.Met duty

variable {c d : Chain} {t u : Turn Chain} {duty : Duty} {task : Task}

theorem isSome_seat_of_isComplete (complete : c.isComplete) : c.seat.isSome := by
  obtain ⟨s, seat, -⟩ := isComplete_iff.mp complete
  rw [seat, Option.isSome_some]

/-- Behind its last key a member has nobody left to ask for. -/
theorem gapsAbove_of_reach {s : Seat} (seat : c.seat = some s)
    (reach : c.size < s.id + s.keysComputed) : c.gapsAbove = [] := by
  rw [gapsAbove, seat]
  have none_left : c.size + 1 - (s.id + s.keysComputed) = 0 := by omega
  simp [Directory.missing, Directory.idsBelow, none_left]

/-- A complete member has nobody left to ask for. -/
theorem gapsAbove_of_isComplete (complete : c.isComplete) : c.gapsAbove = [] := by
  obtain ⟨s, seat, all⟩ := isComplete_iff.mp complete
  exact gapsAbove_of_reach seat (by omega)

/-- A member with a seat that has no more values to ask for. -/
structure Supplied (c : Chain) : Prop where
  seated : c.seat.isSome
  known : c.gapsAbove = []

theorem supplied_of_isComplete (complete : c.isComplete) : c.Supplied :=
  ⟨isSome_seat_of_isComplete complete, gapsAbove_of_isComplete complete⟩

/-- Once all values are known they stay known. -/
theorem gapsAbove_eq_nil_mono (known : c.gapsAbove = []) (size : d.size = c.size)
    (grows : c.directory.entries ⊆ d.directory.entries)
    (seat : ∀ new, d.seat = some new →
      ∃ s, c.seat = some s ∧ new.id = s.id ∧ s.keysComputed ≤ new.keysComputed) :
    d.gapsAbove = [] := by
  unfold gapsAbove
  cases seated : d.seat with
  | none => rfl
  | some new =>
    obtain ⟨s, before, same, more⟩ := seat new seated
    rw [gapsAbove, before] at known
    refine List.filter_eq_nil_iff.mpr fun id here ↦ ?_
    rw [Directory.mem_idsBelow, size] at here
    have above : s.id + s.keysComputed ≤ id := by omega
    have there := Directory.containsId_of_missing_eq_nil known above here.2
    obtain ⟨e, listed, rfl⟩ := Directory.containsId_iff.mp there
    have still := Directory.containsId_iff.mpr ⟨e, grows listed, rfl⟩
    simp [still]

/-- A task that meets a duty is worth running as long as the member has the duty. -/
theorem wants_of_due (running : c.finished = false) (due : c.Due duty)
    (serves : task.duty? = some duty) : c.wants task := by
  have awake : (!c.finished) = true := by rw [running]; rfl
  unfold wants
  rw [awake, Bool.true_and]
  cases task with
  | find =>
    cases serves
    simp [due.1, due.2.1]
  | response =>
    cases serves
    obtain ⟨h, handOver, pending⟩ := due
    simp [handOver, pending]
  | synchToken =>
    cases serves
    simp [due.2.1, due.2.2]
  | synchRequest =>
    cases serves
    have incomplete : c.isComplete = false :=
      Bool.eq_false_iff.mpr fun complete ↦ due.2.2 (gapsAbove_of_isComplete complete)
    simp [due.1, incomplete]
  | offer | infoRequest | finish | finishTimeout =>
    cases serves
    exact due
  | _ => cases serves

namespace Mindful

/-! ## Changes of state -/

/-- A duty is still seen to if nothing new became due and nothing done was undone. -/
theorem mono (mindful : c.Mindful duty) (running : d.finished = c.finished)
    (due : d.Due duty → c.Due duty) (met : c.Met duty → d.Met duty) : d.Mindful duty :=
  fun awake here ↦ met (mindful (running.symm.trans awake) (due here))

/-- A run that is over leaves no duties. -/
theorem of_finished (finished : c.finished = true) : c.Mindful duty := by
  intro awake
  rw [finished] at awake
  cases awake

/-- One duty is seen to in its own way. -/
theorem except (special : Duty) (before : duty ≠ special → c.Mindful duty)
    (here : c.Mindful special) : c.Mindful duty := by
  by_cases same : duty = special
  · rw [same]
    exact here
  · exact before same

theorem confirm (mindful : c.Mindful duty) : c.confirm.Mindful duty := by
  refine mindful.mono rfl (fun due ↦ ?_) fun met ↦ ?_
  · cases duty with
    | handOver =>
      obtain ⟨h, handOver, pending⟩ := due
      obtain ⟨_, -, rfl⟩ := Option.map_eq_some_iff.mp handOver
      cases pending
    | _ => exact due
  · cases duty <;> exact met

theorem hearAssigned (mindful : c.Mindful duty) (source : Endpoint) :
    (c.hearAssigned source).Mindful duty := by
  unfold Chain.hearAssigned
  split
  · exact mindful.confirm
  · exact mindful

theorem forget (mindful : c.Mindful duty) (pending : List Candidate) :
    Mindful { c with pending } duty := by
  refine mindful.mono rfl (fun due ↦ ?_) fun met ↦ ?_
  · cases duty <;> exact due
  · cases duty <;> exact met

theorem record (mindful : c.Mindful duty) (endpoint : Endpoint) (id : Nat) (value : PublicValue) :
    Mindful { c with directory := (c.directory.record endpoint id value).2 } duty := by
  refine mindful.mono rfl (fun due ↦ ?_) fun met ↦ ?_
  · cases duty with
    | question =>
      obtain ⟨held, still, gaps⟩ := due
      refine ⟨held, still, fun known ↦ gaps ?_⟩
      refine gapsAbove_eq_nil_mono known rfl (Directory.subset_record _ _ _ _) ?_
      exact fun s seat ↦ ⟨s, seat, rfl, Nat.le_refl _⟩
    | _ => exact due
  · cases duty <;> exact met

/-- To know more can relieve a member of a question, and makes nothing due. -/
theorem learn (mindful : c.Mindful duty) (endpoint : Endpoint) (id : Nat) (value : PublicValue) :
    (c.learn endpoint id value).Mindful duty := by
  unfold Chain.learn
  split
  · exact mindful
  · exact (mindful.record endpoint id value).forget _

/-- A seat changes without harm, unless it opens or completes by that. -/
theorem reseat (mindful : c.Mindful duty) {s new : Seat} (seat : c.seat = some s)
    (same : new.id = s.id) (more : s.keysComputed ≤ new.keysComputed)
    (admission : duty = .admission → new.sponsor = true → s.sponsor = true)
    (passOn : duty = .passOn → c.token.held → new.keysComputed = s.keysComputed) :
    Mindful { c with seat := some new } duty := by
  refine mindful.mono rfl (fun due ↦ ?_) fun met ↦ ?_
  · cases duty with
    | search => cases due.1
    | admission =>
      simp only [Due, isOpen, seat, Option.any_some, Bool.and_eq_true, same] at due ⊢
      exact ⟨admission rfl due.1, due.2⟩
    | opening =>
      obtain ⟨_, ⟨⟩, last⟩ := due
      exact ⟨s, seat, same ▸ last⟩
    | question =>
      obtain ⟨held, still, gaps⟩ := due
      refine ⟨held, still, fun known ↦ gaps (gapsAbove_eq_nil_mono known rfl ?_ ?_)⟩
      · exact List.Subset.refl _
      · rintro _ ⟨⟩
        exact ⟨s, seat, same, more⟩
    | passOn =>
      obtain ⟨held, still, complete⟩ := due
      obtain ⟨_, ⟨⟩, all⟩ := isComplete_iff.mp complete
      rw [passOn rfl held, same] at all
      exact ⟨held, still, isComplete_iff.mpr ⟨s, seat, all⟩⟩
    | closing =>
      refine ⟨due.1, ?_⟩
      rw [memberId?_of_seat seat, ← same]
      exact due.2
    | _ => exact due
  · cases duty with
    | founding => rfl
    | _ => exact met

/-! ## The agenda -/

theorem replan (mindful : c.Mindful duty) {agenda : Agenda}
    (kept : ∀ task, task.duty? = some duty → c.agenda.isArmed task → agenda.isArmed task) :
    Mindful { c with agenda } duty := by
  refine mindful.mono rfl (fun due ↦ ?_) fun met ↦ ?_
  · cases duty <;> exact due
  · cases duty with
    | founding | opening | passOn | closing => exact met
    | _ =>
      obtain ⟨task, serves, armed⟩ := met
      exact ⟨task, serves, kept task serves armed⟩

/-- A task can be taken off the agenda when its duty is over. -/
theorem unplan (mindful : c.Mindful duty) (ended : task.duty? = some duty → ¬c.Due duty) :
    Mindful { c with agenda := c.agenda.remove task } duty := by
  by_cases serves : task.duty? = some duty
  · intro _ due
    refine absurd ?_ (ended serves)
    cases duty <;> exact due
  · refine mindful.replan fun other serves' armed ↦ ?_
    have differs : other ≠ task := by
      rintro rfl
      exact serves serves'
    rw [Agenda.isArmed_remove, armed, decide_eq_true differs]
    rfl

/-- A task may be dropped once its duty is over. -/
theorem cancel (mindful : t.member.Mindful duty)
    (ended : task.duty? = some duty → ¬t.member.Due duty) :
    (t.cancel task).member.Mindful duty := by
  rw [Follows.member_cancel]
  exact mindful.unplan ended

end Mindful

/-- Nothing but the agenda changed, and afterwards the task is armed besides those that were. -/
def Arms (task : Task) (t u : Turn Chain) : Prop :=
  ∃ agenda : Agenda, u.member = { t.member with agenda } ∧
    ∀ other, agenda.isArmed other = (decide (other = task) || t.member.agenda.isArmed other)

theorem arms_schedule (t : Turn Chain) (task : Task) : Arms task t (t.schedule task) := by
  unfold Turn.schedule
  split
  · next armed =>
    refine ⟨t.member.agenda, rfl, fun other ↦ ?_⟩
    by_cases same : other = task
    · subst same
      exact armed.trans (by simp)
    · simp [same]
  · exact ⟨_, rfl, Agenda.isArmed_insert t.member.agenda task⟩

theorem arms_scheduleAfter (t : Turn Chain) (task : Task) (delay : Nat) :
    Arms task t (t.scheduleAfter task delay) :=
  ⟨_, rfl, Agenda.isArmed_insert t.member.agenda task⟩

theorem arms_keepSending (t : Turn Chain) (task : Task) (target : Option Endpoint) (m : Message) :
    Arms task t (t.keepSending task target m) := by
  have same : (t.send target m).member = t.member := by cases target <;> rfl
  unfold Turn.keepSending
  split
  · next armed =>
    have scheduled := arms_schedule t task
    rwa [Turn.schedule, if_pos armed] at scheduled
  · have scheduled := arms_schedule (t.send target m) task
    rwa [Arms, same] at scheduled

/-- Arming a task meets its duty and harms no other. -/
theorem Arms.mindful (arms : Arms task t u)
    (before : task.duty? ≠ some duty → t.member.Mindful duty) : u.member.Mindful duty := by
  obtain ⟨agenda, member, armed⟩ := arms
  rw [member]
  by_cases serves : task.duty? = some duty
  · intro _ _
    have here : agenda.isArmed task := by simp [armed]
    cases task <;> cases serves <;> exact ⟨_, rfl, here⟩
  · exact (before serves).replan fun other _ old ↦ by simp [armed, old]

namespace Mindful

/-- An armed task never hurts. -/
theorem schedule (mindful : t.member.Mindful duty) (task : Task) :
    (t.schedule task).member.Mindful duty :=
  (arms_schedule t task).mindful fun _ ↦ mindful

theorem keepSending {target : Option Endpoint} {m : Message}
    (before : task.duty? ≠ some duty → t.member.Mindful duty) :
    (t.keepSending task target m).member.Mindful duty :=
  (arms_keepSending t task target m).mindful before

theorem reportKey (mindful : t.member.Mindful duty) :
    (Chain.reportKey t).member.Mindful duty := by
  rw [Follows.member_reportKey]
  exact mindful

theorem announceKey (mindful : t.member.Mindful duty) :
    (Chain.announceKey t).member.Mindful duty := by
  obtain ⟨announced, member⟩ := Follows.member_announceKey t
  rw [member]
  refine mindful.mono rfl (fun due ↦ ?_) fun met ↦ ?_
  · cases duty <;> exact due
  · cases duty <;> exact met

/-- Whoever is done has no duties. -/
theorem endRun (t : Turn Chain) : t.endRun.member.Mindful duty := by
  unfold Turn.endRun
  split
  · next finished => exact of_finished finished
  · exact of_finished rfl

end Mindful

end Chain

end GroupKey
