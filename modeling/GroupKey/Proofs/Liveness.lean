import GroupKey.Proofs.UpToDate
import Mathlib.Data.Finset.Max
import Mathlib.Data.Fintype.Card

/-!
# No run goes silent

However many datagrams are lost, some member repeats what the others wait for until the run is over.
Which member this is, and what it repeats, changes with the phase of the run: the newest member
looks for candidates or repeats its hand-over, whoever has the token passes it on or asks for the
values it is missing, and the last member announces the end.
-/

namespace GroupKey

/-- The task is armed, and still worth running when its deadline comes. -/
def Chain.Repeats (c : Chain) (task : Task) : Prop := c.agenda.isArmed task ∧ c.wants task

theorem Chain.Mindful.repeats {c : Chain} {duty : Duty} (mindful : c.Mindful duty)
    (running : c.finished = false) (due : c.Due duty)
    (repeated : ∃ task : Task, task.duty? = some duty) :
    ∃ task, task.duty? = some duty ∧ c.Repeats task := by
  have met : ∃ task : Task, task.duty? = some duty ∧ c.agenda.isArmed task := by
    obtain ⟨task, serves⟩ := repeated
    cases task <;> cases serves <;> exact mindful running due
  obtain ⟨other, serves, armed⟩ := met
  exact ⟨other, serves, armed, wants_of_due running due serves⟩

namespace Roster

variable {ι : Type} {g : Roster ι} {kx : KeyExchange} {w w' : World ι} {i j : ι} {cause : Input}
  {said : List Outgoing} {c d : Chain} {order : List ι} {duty : Duty}

/-- Nobody has a higher id. -/
structure Newest (w : World ι) (i : ι) (id : Nat) : Prop where
  named : (w.members i).memberId? = some id
  highest : ∀ j other, (w.members j).memberId? = some other → other ≤ id

/-- The token starts at the last member and goes from there to the first.  Of all members that it
got to, this one is the furthest. -/
structure Foremost (g : Roster ι) (w : World ι) (i : ι) (id : Nat) : Prop where
  named : (w.members i).memberId? = some id
  holds : (w.members i).token.held ∨ id = g.size
  furthest : ∀ j other, (w.members j).memberId? = some other →
    ((w.members j).token.held ∨ other = g.size) → other % g.size ≤ id % g.size

/-- The token is on its way: everybody is in, and the end has not been announced. -/
def InRound (g : Roster ι) (w : World ι) : Prop :=
  ∃ i, (w.members i).memberId? = some g.size ∧ (w.members i).isClosing = false

/-- The phases of a run, each with the member that the others wait for. -/
inductive Awaited (g : Roster ι) (w : World ι) (i : ι) : Prop
  | admission {id : Nat} (newest : Newest w i id) (room : id < g.size)
    (alone : (w.members i).heir? = none)
  | handOver {id : Nat} {j : ι} (newest : Newest w i id)
    (heir : (w.members i).heir? = some (g.endpoint j)) (absent : (w.members j).seat = none)
  | round {id : Nat} (foremost : g.Foremost w i id) (inRound : g.InRound w)
  | farewell (last : (w.members i).memberId? = some g.size) (closing : (w.members i).isClosing)
    (running : (w.members i).finished = false)

/-- Whenever the token is on its way somebody has got it last. -/
theorem exists_foremost [Fintype ι] (inRound : g.InRound w) : ∃ i id, g.Foremost w i id := by
  classical
  obtain ⟨n, last, -⟩ := inRound
  let holders : Finset ι := {j | (w.members j).memberId?.isSome ∧
    ((w.members j).token.held ∨ (w.members j).memberId? = some g.size)}
  have holds : n ∈ holders := by simp [holders, last]
  obtain ⟨i, here, furthest⟩ := holders.exists_max_image
    (fun j ↦ (w.members j).memberId?.getD 0 % g.size) ⟨n, holds⟩
  simp only [holders, Finset.mem_filter, Finset.mem_univ, true_and] at here furthest
  obtain ⟨id, named⟩ := Option.isSome_iff_exists.mp here.1
  refine ⟨i, id, named, by simpa [named] using here.2, fun j other there holds ↦ ?_⟩
  have near := furthest j ⟨by simp [there], by simpa [there] using holds⟩
  simpa [named, there] using near

/-! ## Invariants -/

/-- A member that is not the last one can let somebody in until it has done so. -/
def InOffice (c : Chain) : Prop :=
  ∀ s, c.seat = some s → s.id < c.size → c.handOver = none → s.sponsor = true

theorem InOffice.move (inOffice : InOffice c) (move : Chain.Move kx cause c said d) :
    InOffice d := by
  cases move with
  | learn endpoint id value =>
    obtain ⟨_, _, frame⟩ := Chain.learn_frame c endpoint id value
    rw [frame]
    exact inOffice
  | confirm =>
    intro s seat room alone
    exact inOffice s seat room (Option.map_eq_none_iff.mp alone)
  | enqueue service value source =>
    obtain ⟨_, frame⟩ := Chain.enqueue_frame c ⟨source, value⟩
    rw [frame]
    exact inOffice
  | openGroup =>
    rintro _ ⟨⟩ - -
    rfl
  | takeSeat r source s named own value count free running granted =>
    obtain ⟨_, _, -, -, rfl⟩ := Chain.firstSeat_eq_ok granted
    rintro _ ⟨⟩ - -
    rfl
  | resign s seat last =>
    rintro _ ⟨⟩ room -
    exact absurd room (Nat.not_lt.mpr last)
  | enrol =>
    intro _ _ _ alone
    cases alone
  | extend s value tree seat =>
    rintro _ ⟨⟩ room alone
    exact inOffice s seat room alone
  | _ => exact inOffice

variable [DecidableEq ι]

theorem Reaches.inOffice (reaches : g.Reaches kx w) : ∀ i, InOffice (w.members i) := by
  refine reaches.induction (P := fun v ↦ ∀ i, InOffice (v.members i)) ?_ (fun _ _ kept ↦ kept) ?_
  · intro i s seat
    simp [world, member] at seat
  · intro v i cause said d _ _ move kept
    exact World.act_forall (p := fun _ ↦ InOffice) ((kept i).move move) fun j _ ↦ kept j

theorem Reaches.seated (reaches : g.Reaches kx w) (held : (w.members i).token.held) :
    (w.members i).seat.isSome := by
  obtain ⟨order, ordered⟩ := reaches.ordered
  obtain ⟨_, _, -, -, named⟩ := (reaches.justified i).held held
  obtain ⟨s, seat, -⟩ := ordered.seat_of_memberId? named
  simp [seat]

/-- Wherever a group can get, no member that has started neglects a duty. -/
theorem Reaches.mindful (reaches : g.Reaches kx w) (i : ι) (started : (i, .start) ∈ w.past)
    (duty : Duty) : (w.members i).Mindful duty := by
  induction reaches generalizing i with
  | refl => cases started
  | @tail v w reached step ih =>
    obtain ⟨j, input, allowed, rfl⟩ := step
    have sound := Reaches.sound reached
    have justified := Reaches.justified reached
    obtain ⟨order, ordered⟩ := Reaches.ordered reached
    have before : (i, .start) ∈ v.past ∨ (i, .start) = (j, input) := World.mem_log_past.mp started
    by_cases same : i = j
    · subst same
      rw [World.react, World.act_self]
      by_cases first : input = .start
      · subst first
        have pristine := sound.fresh i allowed
        refine Chain.mindful_start ?_ ?_ ?_ ?_ ?_
        · rw [pristine]; rfl
        · rw [pristine]; rfl
        · rw [pristine]; rfl
        · rw [pristine]; rfl
        · rw [sound.size]
          exact g.size_pos
      · have early := before.resolve_right fun now ↦ first (Prod.mk.inj now).2.symm
        refine (ih i early).step first (Reaches.seated reached) (sound.coherent i).taken
          (fun passed ↦ Chain.supplied_of_isComplete ((justified i).passed passed).1)
          fun _ isOpen ↦ ?_
        refine Bool.eq_false_iff.mpr fun held ↦ ?_
        rw [ordered.isOpen_eq_false sound justified held] at isOpen
        cases isOpen
    · rw [World.react, World.act_of_ne same]
      exact ih i (before.resolve_right fun now ↦ same (Prod.mk.inj now).1)

/-! ## Every phase repeats something -/

section Phases

variable (reaches : g.Reaches kx w) (started : ∀ i, (i, .start) ∈ w.past)

include reaches

/-- Nobody is done before the end is announced. -/
theorem Reaches.running (still : ∀ j, (w.members j).isClosing = false) (i : ι) :
    (w.members i).finished = false := by
  refine Bool.eq_false_iff.mpr fun finished ↦ ?_
  obtain ⟨j, closing⟩ := (reaches.justified i).finished finished
  rw [still j] at closing
  cases closing

/-- Only the last member announces the end. -/
theorem Reaches.still_of_last (last : (w.members i).memberId? = some g.size)
    (still : (w.members i).isClosing = false) (j : ι) : (w.members j).isClosing = false := by
  refine Bool.eq_false_iff.mpr fun closing ↦ ?_
  obtain ⟨order, ordered⟩ := reaches.ordered
  have named := ((reaches.justified j).closing closing).1
  have same := (ordered.listed_of_memberId? named).member_eq (ordered.listed_of_memberId? last)
  rw [same, still] at closing
  cases closing

/-- When the end is announced everybody is in. -/
theorem Reaches.still_of_absent (ordered : g.Ordered w order) {id : Nat}
    (listed : Listed order j id) (absent : (w.members j).seat = none) (i : ι) :
    (w.members i).isClosing = false := by
  refine Bool.eq_false_iff.mpr fun closing ↦ ?_
  obtain ⟨k, named, -⟩ := complete_of_closing ordered reaches.justified closing id listed.1
    (Nat.le_trans listed.le_length ordered.short)
  obtain ⟨s, seat, -⟩ := ordered.seat_of_memberId? named
  rw [(ordered.listed_of_memberId? named).member_eq listed, absent] at seat
  cases seat

include started

/-- A member that can let somebody in offers, or asks for those that it does not know. -/
theorem Reaches.repeats_offer {id : Nat} (newest : Newest w i id) (room : id < g.size)
    (alone : (w.members i).heir? = none) :
    (w.members i).Repeats .offer ∨ (w.members i).Repeats .infoRequest := by
  have sound := reaches.sound
  obtain ⟨order, ordered⟩ := reaches.ordered
  obtain ⟨s, seat, rfl, -⟩ := ordered.seat_of_memberId? newest.named
  have still (j : ι) : (w.members j).isClosing = false := by
    refine Bool.eq_false_iff.mpr fun closing ↦ ?_
    have top := newest.highest j _ ((reaches.justified j).closing closing).1
    omega
  have isOpen : (w.members i).isOpen := by
    have sponsor := reaches.inOffice i s seat (by rwa [sound.size])
      (Option.map_eq_none_iff.mp alone)
    simp [Chain.isOpen, seat, sponsor, sound.size, room]
  obtain ⟨task, serves, repeats⟩ := (reaches.mindful i (started i) .admission).repeats
    (reaches.running still i) isOpen ⟨.offer, rfl⟩
  cases task with
  | offer => exact .inl repeats
  | infoRequest => exact .inr repeats
  | _ => cases serves

/-- A member repeats its hand-over until its heir has a seat. -/
theorem Reaches.repeats_response (heir : (w.members i).heir? = some (g.endpoint j))
    (absent : (w.members j).seat = none) : (w.members i).Repeats .response := by
  obtain ⟨order, ordered⟩ := reaches.ordered
  obtain ⟨s, k, seat, listed, same⟩ := ordered.listed_of_heir? heir
  obtain rfl := g.endpoint_injective same
  obtain ⟨h, handOver, -⟩ := Option.map_eq_some_iff.mp heir
  have pending : h.confirmed = false := by
    refine Bool.eq_false_iff.mpr fun confirmed ↦ ?_
    obtain ⟨l, id, own, next⟩ := (reaches.justified i).confirmed h handOver confirmed
    rw [Chain.memberId?_of_seat seat] at own
    cases own
    obtain ⟨t, seat', -⟩ := ordered.seat_of_memberId? next
    rw [(ordered.listed_of_memberId? next).member_eq listed, absent] at seat'
    cases seat'
  have running := reaches.running (reaches.still_of_absent ordered listed absent) i
  obtain ⟨task, serves, repeats⟩ := (reaches.mindful i (started i) .handOver).repeats running
    ⟨h, handOver, pending⟩ ⟨.response, rfl⟩
  cases task <;> cases serves
  exact repeats

/-- The one that has the token last has not seen it being taken. -/
theorem Reaches.taken_eq_false {id : Nat} (foremost : g.Foremost w i id)
    (inRound : g.InRound w) : (w.members i).token.taken = false := by
  refine Bool.eq_false_iff.mpr fun taken ↦ ?_
  obtain ⟨order, ordered⟩ := reaches.ordered
  obtain ⟨n, last, still⟩ := inRound
  have nobody := reaches.still_of_last last still
  obtain ⟨j, own, named, next, held⟩ := (reaches.justified i).taken taken
  rw [foremost.named] at named
  cases named
  obtain ⟨s, seat, rfl, positive, small⟩ := ordered.seat_of_memberId? foremost.named
  have further := foremost.furthest j _ next (.inl held)
  have two : 2 ≤ g.size := g.two_le
  rcases Nat.lt_or_eq_of_le small with inner | top
  · rw [successor_of_lt inner] at next further
    rcases Nat.lt_or_eq_of_le (Nat.succ_le_of_lt inner) with short | round
    · rw [Nat.mod_eq_of_lt short, Nat.mod_eq_of_lt inner] at further
      exact absurd further (Nat.not_succ_le_self s.id)
    · -- The last member announces the end as soon as the token is back.
      have due : (w.members j).token.held ∧ (w.members j).memberId? = some (w.members j).size := by
        rw [reaches.sound.size, next, ← round]
        exact ⟨held, rfl⟩
      have closing : (w.members j).isClosing = true :=
        reaches.mindful j (started j) .closing (reaches.running nobody j) due
      rw [nobody j] at closing
      cases closing
  · rw [top, successor_self g.size_pos, Nat.mod_self, Nat.mod_eq_of_lt two] at further
    exact absurd further (Nat.not_succ_le_zero 0)

/-- A complete member passes the token on until its successor has it. -/
theorem Reaches.repeats_token {id : Nat} (foremost : g.Foremost w i id) (inRound : g.InRound w)
    (complete : (w.members i).isComplete) : (w.members i).Repeats .synchToken := by
  have fresh := reaches.taken_eq_false started foremost inRound
  obtain ⟨n, last, still⟩ := inRound
  have nobody := reaches.still_of_last last still
  have running := reaches.running nobody i
  have mindful := reaches.mindful i (started i)
  have passed : (w.members i).token.passed := by
    rcases foremost.holds with held | rfl
    · exact mindful .passOn running ⟨held, nobody i, complete⟩
    · obtain ⟨s, seat, same⟩ := Option.map_eq_some_iff.mp foremost.named
      refine mindful .opening running ⟨s, seat, ?_⟩
      rw [reaches.sound.size, same]
  obtain ⟨task, serves, repeats⟩ := (mindful .token).repeats running ⟨passed, fresh, nobody i⟩
    ⟨.synchToken, rfl⟩
  cases task <;> cases serves
  exact repeats

/-- A holder of the token that is not complete asks for the values that it does not know. -/
theorem Reaches.repeats_question (matched : g.KeysMatch kx) (dependable : g.Dependable kx)
    {id : Nat} (foremost : g.Foremost w i id) (inRound : g.InRound w)
    (incomplete : (w.members i).isComplete = false) :
    (w.members i).Repeats .synchRequest ∧ (w.members i).gapsAbove ≠ [] := by
  have sound := reaches.sound
  obtain ⟨order, ordered⟩ := reaches.ordered
  obtain ⟨n, last, still⟩ := inRound
  have nobody := reaches.still_of_last last still
  obtain ⟨s, seat, rfl, positive, small⟩ := ordered.seat_of_memberId? foremost.named
  obtain ⟨some_, few⟩ := (ordered.placed i).keys s seat
  have short := ordered.short
  have size := sound.size i
  have room : s.id + s.keysComputed ≤ g.size := by
    by_contra full
    have all : (w.members i).isComplete :=
      Chain.isComplete_iff.mpr ⟨s, seat, by omega⟩
    rw [incomplete] at all
    cases all
  have held : (w.members i).token.held := foremost.holds.resolve_right (by omega)
  have gaps : (w.members i).gapsAbove ≠ [] := by
    have unknown := reaches.upToDate matched dependable i held s seat (by omega)
    rw [Chain.gapsAbove, seat]
    intro known
    have there := Directory.containsId_of_missing_eq_nil known (Nat.le_refl _) (by omega)
    rw [unknown] at there
    cases there
  obtain ⟨task, serves, repeats⟩ := (reaches.mindful i (started i) .question).repeats
    (reaches.running nobody i) ⟨held, nobody i, gaps⟩ ⟨.synchRequest, rfl⟩
  cases task <;> cases serves
  exact ⟨repeats, gaps⟩

/-- The last member announces the end, and watches how long it does. -/
theorem Reaches.repeats_finish (closing : (w.members i).isClosing)
    (running : (w.members i).finished = false) :
    (w.members i).Repeats .finish ∧ (w.members i).Repeats .finishTimeout := by
  have mindful := reaches.mindful i (started i)
  obtain ⟨task, serves, farewell⟩ := (mindful .farewell).repeats running closing
    ⟨.finish, rfl⟩
  obtain ⟨other, serves', patience⟩ := (mindful .patience).repeats running closing
    ⟨.finishTimeout, rfl⟩
  cases task <;> cases serves
  cases other <;> cases serves'
  exact ⟨farewell, patience⟩

/-- Before the end is announced the run waits for the newest member, for its heir, or for the
token. -/
theorem Reaches.awaited_of_still [Fintype ι] (still : ∀ j, (w.members j).isClosing = false) :
    ∃ i, g.Awaited w i := by
  have sound := reaches.sound
  obtain ⟨order, ordered⟩ := reaches.ordered
  have opened : (w.members g.opener).seat.isSome := by
    refine reaches.mindful g.opener (started _) .founding (reaches.running still _) ?_
    change (w.members g.opener).config.sponsor = true
    rw [sound.config]
    exact (g.sponsor_iff _).mpr rfl
  obtain ⟨first, seat⟩ := Option.isSome_iff_exists.mp opened
  have listed := (ordered.placed g.opener).seat first seat
  obtain ⟨last, newest⟩ := Listed.exists_member (Nat.lt_of_lt_of_le listed.1 listed.le_length)
    (Nat.le_refl order.length)
  by_cases seated : (w.members last).seat.isSome
  · have named := ordered.memberId?_eq newest seated
    rcases Nat.lt_or_eq_of_le ordered.short with room | full
    · refine ⟨last, .admission ⟨named, ?_⟩ room ?_⟩
      · exact fun j other there ↦ (ordered.listed_of_memberId? there).le_length
      · refine Option.eq_none_iff_forall_ne_some.mpr fun e heir ↦ ?_
        obtain ⟨s, k, seat', next, -⟩ := ordered.listed_of_heir? heir
        rw [Chain.memberId?_of_seat seat'] at named
        have beyond := next.le_length
        have top := Option.some.inj named
        omega
    · rw [full] at named
      have inRound : g.InRound w := ⟨last, named, still last⟩
      obtain ⟨i, id, foremost⟩ := exists_foremost inRound
      exact ⟨i, .round foremost inRound⟩
  · have absent : (w.members last).seat = none := by simpa using seated
    rcases ordered.admittedAs_iff.mpr newest with ⟨-, -, here⟩ | ⟨j, s, seat', next, heir⟩
    · exact absurd here seated
    · refine ⟨j, .handOver ⟨Chain.memberId?_of_seat seat', ?_⟩ heir absent⟩
      intro k other there
      have upper := (ordered.listed_of_memberId? there).le_length
      suffices distinct : other ≠ order.length by omega
      rintro rfl
      obtain ⟨t, seat'', -⟩ := ordered.seat_of_memberId? there
      rw [(ordered.listed_of_memberId? there).member_eq newest, absent] at seat''
      cases seat''

omit started in
/-- The last member is done only after all others, unless it lost its patience. -/
theorem Reaches.awaited_of_closing [Fintype ι] (whole : Fintype.card ι = g.size)
    (quiet : (i, .timer .finishTimeout) ∉ w.past) (closing : (w.members i).isClosing)
    (running : (w.members j).finished = false) : g.Awaited w i := by
  have justified := reaches.justified
  obtain ⟨order, ordered⟩ := reaches.ordered
  obtain ⟨last, -⟩ := (justified i).closing closing
  refine .farewell last closing (Bool.eq_false_iff.mpr fun finished ↦ ?_)
  -- Everybody is in, and all ids are taken by members that have a seat.
  have full : order.length = g.size :=
    Nat.le_antisymm ordered.short (ordered.listed_of_memberId? last).le_length
  have everybody : j ∈ order := by
    classical
    have all := Finset.eq_univ_of_card order.toFinset
      (by rw [List.toFinset_card_of_nodup ordered.nodup, full, whole])
    exact List.mem_toFinset.mp (all ▸ Finset.mem_univ j)
  obtain ⟨id, listed⟩ := Listed.exists_id everybody
  obtain ⟨k, named, -⟩ := complete_of_closing ordered justified closing id listed.1
    (Nat.le_trans listed.le_length ordered.short)
  obtain rfl := (ordered.listed_of_memberId? named).member_eq listed
  obtain ⟨s, seat, -⟩ := ordered.seat_of_memberId? named
  obtain ⟨acks, farewells⟩ := Option.isSome_iff_exists.mp closing
  have enough := (justified i).patient finished quiet acks farewells
  have other : k ≠ i := by
    rintro rfl
    rw [running] at finished
    cases finished
  rw [finished_of_acks ordered justified farewells enough (by simp [seat]) other] at running
  cases running

end Phases

/-- As long as somebody runs and nobody has lost its patience there is a member that the run waits
for, and in each phase this member repeats what the phase needs. -/
theorem never_silent [Fintype ι] (whole : Fintype.card ι = g.size) (matched : g.KeysMatch kx)
    (dependable : g.Dependable kx) (reaches : g.Reaches kx w)
    (started : ∀ i, (i, .start) ∈ w.past) (quiet : ∀ i, (i, .timer .finishTimeout) ∉ w.past)
    (running : ∃ i, (w.members i).finished = false) :
    (∃ i, g.Awaited w i) ∧
    (∀ i id, Newest w i id → id < g.size → (w.members i).heir? = none →
      (w.members i).Repeats .offer ∨ (w.members i).Repeats .infoRequest) ∧
    (∀ i j, (w.members i).heir? = some (g.endpoint j) → (w.members j).seat = none →
      (w.members i).Repeats .response) ∧
    (∀ i id, g.InRound w → g.Foremost w i id →
      ((w.members i).isComplete → (w.members i).Repeats .synchToken) ∧
      ((w.members i).isComplete = false →
        (w.members i).Repeats .synchRequest ∧ (w.members i).gapsAbove ≠ [])) ∧
    (∀ i, (w.members i).isClosing → (w.members i).finished = false →
      (w.members i).Repeats .finish ∧ (w.members i).Repeats .finishTimeout) := by
  refine ⟨?_, ?_, ?_, ?_, ?_⟩
  · obtain ⟨j, running⟩ := running
    by_cases closing : ∃ i, (w.members i).isClosing
    · obtain ⟨i, closing⟩ := closing
      exact ⟨i, reaches.awaited_of_closing whole (quiet i) closing running⟩
    · refine reaches.awaited_of_still started fun i ↦ ?_
      exact Bool.eq_false_iff.mpr fun here ↦ closing ⟨i, here⟩
  · intro i id newest room alone
    exact reaches.repeats_offer started newest room alone
  · intro i j heir absent
    exact reaches.repeats_response started heir absent
  · intro i id inRound foremost
    refine ⟨fun complete ↦ ?_, fun incomplete ↦ ?_⟩
    · exact reaches.repeats_token started foremost inRound complete
    · exact reaches.repeats_question started matched dependable foremost inRound incomplete
  · intro i closing running
    exact reaches.repeats_finish started closing running

/-- The group when the token has come to the first member, which has not yet heard of the third. -/
def halfway : World (Fin 3) := Trio.roster.world.play Trio.exchange (Trio.script.take 13)

theorem reaches_halfway : Trio.roster.Reaches Trio.exchange halfway :=
  (runs_play Trio.admits).reaches 13

theorem dependable_trio : Trio.roster.Dependable Trio.exchange :=
  fun _ _ _ _ _ _ ↦ ⟨_, rfl⟩

theorem never_silent_halfway : (∃ i, Trio.roster.Awaited halfway i) ∧
    (halfway.members 0).Repeats .synchRequest ∧ (halfway.members 0).gapsAbove ≠ [] := by
  have started : ∀ i, (i, .start) ∈ halfway.past := by
    decide +kernel
  have quiet : ∀ i, (i, .timer .finishTimeout) ∉ halfway.past := by
    decide +kernel
  have running : ∃ i, (halfway.members i).finished = false := by
    decide +kernel
  have named : ∀ i : Fin 3, (halfway.members i).memberId? = some (i.val + 1) := by
    decide +kernel
  have held : ∀ i : Fin 3, (halfway.members i).token.held = true ↔ i = 0 := by
    decide +kernel
  have still : (halfway.members 2).isClosing = false := by
    decide +kernel
  have incomplete : (halfway.members 0).isComplete = false := by
    decide +kernel
  obtain ⟨awaited, -, -, round, -⟩ := never_silent (by decide) Trio.keysMatch dependable_trio
    reaches_halfway started quiet running
  refine ⟨awaited, (round 0 1 ⟨2, named 2, still⟩ ⟨named 0, .inl ((held 0).mpr rfl), ?_⟩).2
    incomplete⟩
  intro j other there holds
  rw [named j] at there
  cases there
  rcases holds with here | last
  · rw [(held j).mp here]
    exact Nat.le_refl _
  · rw [last]
    decide

end Roster

end GroupKey
