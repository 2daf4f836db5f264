import GroupKey.Proofs.Agreement
import Mathlib.Data.List.Perm.Subperm

/-!
# Safety of hand-offs and of the token round

A member stops repeating its hand-over or its token when it overhears that the next one acts on it.
These conclusions are never wrong, so the token is at a member only after everybody before it was
complete, and the end is announced only when all are.
-/

namespace GroupKey

theorem successor_of_lt {id size : Nat} (small : id < size) : successor id size = id + 1 := by
  rw [successor, if_neg (by omega), Nat.mod_eq_of_lt small]

theorem successor_self {size : Nat} (positive : 0 < size) : successor size size = 1 := by
  rw [successor, if_neg (by omega), Nat.mod_self]

theorem successor_le (id : Nat) {size : Nat} (positive : 0 < size) : successor id size ≤ size := by
  rw [successor, if_neg (by omega)]
  exact Nat.mod_lt id positive

theorem successor_pos (id size : Nat) : 0 < successor id size := by
  unfold successor
  split <;> omega

theorem successor_inj {a b size : Nat} (a_small : a ≤ size) (b_small : b ≤ size) (a_pos : 0 < a)
    (b_pos : 0 < b) (same : successor a size = successor b size) : a = b := by
  rcases Nat.lt_or_eq_of_le a_small with a_lt | rfl
  · rw [successor_of_lt a_lt] at same
    rcases Nat.lt_or_eq_of_le b_small with b_lt | rfl
    · rw [successor_of_lt b_lt] at same
      omega
    · rw [successor_self b_pos] at same
      omega
  · rw [successor_self a_pos] at same
    rcases Nat.lt_or_eq_of_le b_small with b_lt | rfl
    · rw [successor_of_lt b_lt] at same
      omega
    · rfl

namespace Roster

variable {ι : Type} {g : Roster ι} {kx : KeyExchange} {w w' : World ι} {i j k : ι} {cause : Input}
  {said : List Outgoing} {c d : Chain} {order : List ι}

/-- What a member did in the round, and what it concluded about others, is justified by the states
of these others. -/
structure Justified (g : Roster ι) (w : World ι) (i : ι) : Prop where
  confirmed : ∀ h, (w.members i).handOver = some h → h.confirmed →
    ∃ j id, (w.members i).memberId? = some id ∧ (w.members j).memberId? = some (id + 1)
  passed : (w.members i).token.passed → (w.members i).isComplete ∧
    ((w.members i).token.held ∨ (w.members i).memberId? = some g.size)
  held : (w.members i).token.held → ∃ j id, (w.members j).token.passed ∧
    (w.members j).memberId? = some id ∧ (w.members i).memberId? = some (successor id g.size)
  taken : (w.members i).token.taken → ∃ j id, (w.members i).memberId? = some id ∧
    (w.members j).memberId? = some (successor id g.size) ∧ (w.members j).token.held
  closing : (w.members i).isClosing →
    (w.members i).memberId? = some g.size ∧ (w.members i).token.held
  finished : (w.members i).finished → ∃ j, (w.members j).isClosing
  farewells : ∀ acks, (w.members i).farewells = some acks → acks.Nodup ∧
    ∀ e ∈ acks, ∃ j, j ≠ i ∧ e = g.endpoint j ∧ (w.members j).seat.isSome ∧
      (w.members j).finished
  patient : (w.members i).finished → (i, .timer .finishTimeout) ∉ w.past →
    ∀ acks, (w.members i).farewells = some acks → g.size ≤ acks.length + 1

theorem justified_world (g : Roster ι) (i : ι) : g.Justified g.world i where
  confirmed := by simp [world, member]
  passed := by simp [world, member]
  held := by simp [world, member]
  taken := by simp [world, member]
  closing := by simp [world, member, Chain.isClosing]
  finished := by simp [world, member]
  farewells := by simp [world, member]
  patient := by simp [world, member]

/-- Others only advance, so a member that does nothing stays justified. -/
theorem Justified.mono (justified : g.Justified w i)
    (advances : ∀ j, Chain.Advances (w.members j) (w'.members j))
    (same : w'.members i = w.members i) (past : w.past ⊆ w'.past) : g.Justified w' i where
  confirmed h handOver confirmed := by
    rw [same] at handOver ⊢
    obtain ⟨j, id, own, next⟩ := justified.confirmed h handOver confirmed
    exact ⟨j, id, own, (advances j).memberId?_eq next⟩
  passed := by
    rw [same]
    exact justified.passed
  held held := by
    rw [same] at held ⊢
    obtain ⟨j, id, passed, named, own⟩ := justified.held held
    exact ⟨j, id, (advances j).passed passed, (advances j).memberId?_eq named, own⟩
  taken taken := by
    rw [same] at taken ⊢
    obtain ⟨j, id, own, named, held⟩ := justified.taken taken
    exact ⟨j, id, own, (advances j).memberId?_eq named, (advances j).held held⟩
  closing := by
    rw [same]
    exact justified.closing
  finished finished := by
    rw [same] at finished
    obtain ⟨j, closing⟩ := justified.finished finished
    exact ⟨j, (advances j).closing closing⟩
  farewells acks farewells := by
    rw [same] at farewells
    obtain ⟨nodup, all⟩ := justified.farewells acks farewells
    refine ⟨nodup, fun e here ↦ ?_⟩
    obtain ⟨j, other, endpoint, seated, finished⟩ := all e here
    exact ⟨j, other, endpoint, (advances j).isSome_seat seated, (advances j).finished finished⟩
  patient finished quiet := by
    rw [same] at finished ⊢
    exact justified.patient finished fun fired ↦ quiet (past fired)

theorem Ordered.seat_of_memberId? (ordered : g.Ordered w order) {id : Nat}
    (named : (w.members i).memberId? = some id) :
    ∃ s, (w.members i).seat = some s ∧ s.id = id ∧ 0 < id ∧ id ≤ g.size := by
  obtain ⟨s, seat, rfl⟩ := Option.map_eq_some_iff.mp named
  exact ⟨s, seat, rfl, ordered.id_le_size seat⟩

/-- Whoever sends the token has passed it on. -/
theorem Sound.heard_token (sound : g.Sound w) {target : MemberId} {source : Endpoint}
    (hears : w.Hears i (.message (.token target) source)) :
    ∃ j id, source = g.endpoint j ∧ (w.members j).token.passed ∧
      (w.members j).memberId? = some id ∧ target.toNat = successor id g.size := by
  obtain ⟨j, -, source, passed, s, seat, named⟩ := sound.heard hears
  refine ⟨j, s.id, source, passed, Chain.memberId?_of_seat seat, ?_⟩
  rw [named, sound.size]
  exact g.toNat_ofNat (successor_le s.id g.size_pos)

/-- A member that sees its heir, or somebody behind it, act is followed by its heir. -/
theorem Ordered.heir_seated (sound : g.Sound w) (ordered : g.Ordered w order)
    (hears : w.Hears i cause) (seen : (w.members i).SeesHandOver cause) :
    ∃ j id, (w.members i).memberId? = some id ∧ (w.members j).memberId? = some (id + 1) := by
  rcases seen with ⟨m, source, rfl, shows, heir⟩ | ⟨r, source, s, rfl, seat, behind⟩
  · obtain ⟨j, -, rfl, vouches⟩ := sound.heard hears
    obtain ⟨s, k, seat, listed, same⟩ := ordered.listed_of_heir? heir
    obtain rfl := g.endpoint_injective same
    have seated := vouches.seated shows (sound.coherent j)
    exact ⟨j, s.id, Chain.memberId?_of_seat seat, ordered.memberId?_eq listed seated⟩
  · obtain ⟨j, -, -, vouches⟩ := sound.heard hears
    obtain ⟨t, k, -, newest, -, id, -⟩ := ordered.response vouches
    have short := newest.le_length
    rw [id] at behind
    have early : s.id + 1 < order.length := by omega
    obtain ⟨heir, listed⟩ := Listed.exists_member (Nat.succ_pos s.id) (Nat.le_of_lt early)
    have seated := ordered.seated heir _ listed (.inr early)
    exact ⟨heir, s.id, Chain.memberId?_of_seat seat, ordered.memberId?_eq listed seated⟩

/-- A member that sees its successor ask in the round or pass the token on is right that it got
there. -/
theorem Ordered.successor_holds (sound : g.Sound w) (ordered : g.Ordered w order)
    (justified : ∀ j, g.Justified w j) (hears : w.Hears i cause)
    (passed : (w.members i).token.passed) (seen : (w.members i).SeesToken cause) :
    ∃ j id, (w.members i).memberId? = some id ∧
      (w.members j).memberId? = some (successor id g.size) ∧ (w.members j).token.held := by
  obtain ⟨own, seat, -⟩ := Chain.isComplete_iff.mp ((justified i).passed passed).1
  have named : (w.members i).memberId? = some own.id :=
    Chain.memberId?_of_seat seat
  have small := ordered.id_le_size seat
  have next : (w.members i).successorId? = some (successor own.id g.size) := by
    rw [Chain.successorId?, named, Option.map_some, sound.size]
  -- Endpoints are looked up in the directory, which is right.
  have lookup {j : ι} {id : Nat} (found : (w.members i).directory.idOf? (g.endpoint j) = some id)
      (seated : (w.members j).seat.isSome) : (w.members j).memberId? = some id := by
    obtain ⟨e, here, endpoint, rfl⟩ := Directory.idOf?_eq_some found
    obtain ⟨k, listed, same, -⟩ := (ordered.placed i).directory e here
    obtain rfl := g.endpoint_injective (endpoint.symm.trans same)
    exact ordered.memberId?_eq listed seated
  -- Passing the token on shows that it was held, except for the last member, which opens the round.
  have held {j : ι} {id : Nat} (sent : (w.members j).token.passed)
      (there : (w.members j).memberId? = some id) (inner : id ≠ g.size) :
      (w.members j).token.held := by
    rcases ((justified j).passed sent).2 with held | last
    · exact held
    · rw [there] at last
      exact absurd (Option.some.inj last) inner
  rcases seen with ⟨service, ids, source, rfl, found⟩ | ⟨target, source, s, rfl, same, inner, way⟩
  · obtain ⟨j, -, rfl, seated, asks⟩ := sound.heard hears
    rw [next] at found
    exact ⟨j, own.id, named, lookup found seated, asks rfl⟩
  · rw [seat] at same
    cases same
    rw [sound.size] at inner way
    obtain ⟨j, id, rfl, sent, there, target_eq⟩ := sound.heard_token hears
    suffices id = successor own.id g.size by
      subst this
      exact ⟨j, own.id, named, there, held sent there inner⟩
    obtain ⟨t, seat', rfl, id_pos, id_le⟩ := ordered.seat_of_memberId? there
    rcases way with forwarded | found
    · rw [target_eq] at forwarded
      exact successor_inj id_le (successor_le _ g.size_pos) id_pos (successor_pos _ _) forwarded
    · have here := lookup found (by simp [seat'])
      rw [there] at here
      exact Option.some.inj here

/-! ## The round -/

/-- A member holds the token only after everybody before it was complete and passed it on. -/
theorem passed_before (ordered : g.Ordered w order) (justified : ∀ j, g.Justified w j) {n : Nat}
    (held : (w.members i).token.held) (named : (w.members i).memberId? = some n) :
    ∀ m, 0 < m → m < n → ∃ j, (w.members j).memberId? = some m ∧ (w.members j).token.passed := by
  induction n generalizing i with
  | zero =>
    intro m _ small
    exact absurd small (Nat.not_lt_zero m)
  | succ n ih =>
    intro m positive small
    obtain ⟨j, id, passed, there, own⟩ := (justified i).held held
    rw [named] at own
    obtain ⟨s, seat, rfl, id_pos, id_le⟩ := ordered.seat_of_memberId? there
    have next := Option.some.inj own
    -- The token comes from the member before, since it is not at member one.
    have inner : s.id < g.size := by
      rcases Nat.lt_or_eq_of_le id_le with inner | last
      · exact inner
      · rw [last, successor_self g.size_pos] at next
        omega
    rw [successor_of_lt inner] at next
    obtain rfl : n = s.id := by omega
    rcases Nat.lt_succ_iff_lt_or_eq.mp small with early | rfl
    · rcases ((justified j).passed passed).2 with held' | last
      · exact ih held' there m positive early
      · rw [there] at last
        exact absurd (Option.some.inj last) (Nat.ne_of_lt inner)
    · exact ⟨j, there, passed⟩

/-- When the end is announced every id is given and everybody is complete. -/
theorem complete_of_closing (ordered : g.Ordered w order) (justified : ∀ j, g.Justified w j)
    (closing : (w.members i).isClosing) (id : Nat) (positive : 0 < id) (small : id ≤ g.size) :
    ∃ j, (w.members j).memberId? = some id ∧ (w.members j).isComplete := by
  obtain ⟨last, held⟩ := (justified i).closing closing
  rcases Nat.lt_or_eq_of_le small with inner | rfl
  · obtain ⟨j, named, passed⟩ := passed_before ordered justified held last id positive inner
    exact ⟨j, named, ((justified j).passed passed).1⟩
  · -- Member one got the token from the last member, which therefore is complete as well.
    obtain ⟨first, one, passed⟩ := passed_before ordered justified held last 1 Nat.one_pos g.two_le
    rcases ((justified first).passed passed).2 with held' | alone
    · obtain ⟨j, id, passed', there, own⟩ := (justified first).held held'
      obtain ⟨s, seat, rfl, id_pos, id_le⟩ := ordered.seat_of_memberId? there
      rw [one] at own
      rcases Nat.lt_or_eq_of_le id_le with inner | top
      · rw [successor_of_lt inner] at own
        have := Option.some.inj own
        omega
      · rw [top] at there
        exact ⟨j, there, ((justified j).passed passed').1⟩
    · rw [one] at alone
      exact absurd (Option.some.inj alone).symm g.size_ne_one

/-- The last member that did not wait in vain has heard from everybody. -/
theorem finished_of_acks (ordered : g.Ordered w order) (justified : ∀ j, g.Justified w j)
    {acks : List Endpoint}
    (farewells : (w.members i).farewells = some acks) (enough : g.size ≤ acks.length + 1)
    (seated : (w.members j).seat.isSome) (other : j ≠ i) : (w.members j).finished := by
  classical
  obtain ⟨nodup, all⟩ := (justified i).farewells acks farewells
  have seat_mem {k : ι} (seated : (w.members k).seat.isSome) : k ∈ order := by
    obtain ⟨s, seat⟩ := Option.isSome_iff_exists.mp seated
    exact ((ordered.placed k).seat s seat).mem
  have here : i ∈ order := by
    have closing := Chain.isClosing_of_farewells farewells
    obtain ⟨s, seat, -⟩ := ordered.seat_of_memberId? ((justified i).closing closing).1
    exact seat_mem (by simp [seat])
  -- The others are at most as many as the farewells, and all farewells come from others.
  let others := (order.erase i).map g.endpoint
  have among : acks ⊆ others := by
    intro e heard
    obtain ⟨k, distinct, rfl, seated, -⟩ := all e heard
    exact List.mem_map_of_mem ((List.mem_erase_of_ne distinct).mpr (seat_mem seated))
  have few : others.length ≤ acks.length := by
    have short := ordered.short
    rw [List.length_map, List.length_erase_of_mem here]
    omega
  have everybody := (nodup.subperm among).perm_of_length_le few
  have heard : g.endpoint j ∈ acks :=
    everybody.mem_iff.mpr (List.mem_map_of_mem ((List.mem_erase_of_ne other).mpr (seat_mem seated)))
  obtain ⟨k, -, same, -, finished⟩ := all _ heard
  rwa [g.endpoint_injective same]

section Move

variable (sound : g.Sound w) (ordered : g.Ordered w order) (justified : ∀ j, g.Justified w j)
  (hears : w.Hears i cause) (move : Chain.Move kx cause (w.members i) said d)

include sound justified move

include ordered hears in
theorem Justified.confirmed_move {h : HandOver} (handOver : d.handOver = some h)
    (confirmed : h.confirmed) :
    ∃ j id, (w.members i).memberId? = some id ∧ (w.members j).memberId? = some (id + 1) := by
  rcases move.handOver_cases with same | ⟨seen, -⟩ | ⟨r, fresh⟩
  · rw [same] at handOver
    exact (justified i).confirmed h handOver confirmed
  · exact ordered.heir_seated sound hears seen
  · rw [fresh] at handOver
    cases handOver
    cases confirmed

include ordered in
theorem Justified.passed_move (passed : d.token.passed) : (w.members i).isComplete ∧
    ((w.members i).token.held ∨ (w.members i).memberId? = some g.size) := by
  rcases move.token_cases with same | ⟨_, _, _, -, -, -, same⟩ |
    ⟨s, seat, complete, turn, -⟩ | ⟨before, -⟩
  · rw [same] at passed
    exact (justified i).passed passed
  · rw [same] at passed
    exact (justified i).passed passed
  · refine ⟨complete, turn.imp id fun last ↦ ?_⟩
    rw [sound.size] at last
    rw [Chain.memberId?_of_seat seat, Nat.le_antisymm (ordered.id_le_size seat).2 last]
  · exact (justified i).passed before

include hears in
theorem Justified.held_move (held : d.token.held) : ∃ j id, (w.members j).token.passed ∧
    (w.members j).memberId? = some id ∧ (w.members i).memberId? = some (successor id g.size) := by
  rcases move.token_cases with same | ⟨target, source, s, rfl, seat, own, -⟩ |
    ⟨_, -, -, -, same⟩ | ⟨-, -, same⟩
  · rw [same] at held
    exact (justified i).held held
  · obtain ⟨j, id, -, passed, named, target_eq⟩ := sound.heard_token hears
    refine ⟨j, id, passed, named, ?_⟩
    rw [Chain.memberId?_of_seat seat, ← own, target_eq]
  · rw [same] at held
    exact (justified i).held held
  · rw [same] at held
    exact (justified i).held held

include ordered hears in
theorem Justified.taken_move (taken : d.token.taken) : ∃ j id, (w.members i).memberId? = some id ∧
    (w.members j).memberId? = some (successor id g.size) ∧ (w.members j).token.held := by
  rcases move.token_cases with same | ⟨_, _, _, -, -, -, same⟩ | ⟨_, -, -, -, same⟩ |
    ⟨passed, seen, -⟩
  · rw [same] at taken
    exact (justified i).taken taken
  · rw [same] at taken
    exact (justified i).taken taken
  · rw [same] at taken
    exact (justified i).taken taken
  · exact ordered.successor_holds sound justified hears passed seen

theorem Justified.closing_move (closing : d.isClosing) :
    (w.members i).memberId? = some g.size ∧ (w.members i).token.held := by
  rw [Chain.isClosing] at closing
  rcases move.end_cases with ⟨same, -⟩ | ⟨s, seat, last, held, -⟩ | ⟨_, acks, -, before, -⟩ |
    ⟨-, same⟩ | ⟨-, none⟩
  · rw [same] at closing
    exact (justified i).closing closing
  · rw [Chain.memberId?_of_seat seat, last, sound.size]
    exact ⟨rfl, held⟩
  · exact (justified i).closing (Chain.isClosing_of_farewells before)
  · rw [same] at closing
    exact (justified i).closing closing
  · rw [none] at closing
    cases closing

include hears in
/-- Whoever ends its run does so because somebody announced the end. -/
theorem Justified.finished_move (finished : d.finished) : ∃ j, (w.members j).isClosing := by
  rcases move.end_cases with ⟨-, same⟩ | ⟨_, -, -, -, -, -, running⟩ |
    ⟨_, _, -, -, -, -, running⟩ | ⟨may, -⟩ | ⟨⟨source, rfl⟩, -⟩
  · rw [same] at finished
    exact (justified i).finished finished
  · rw [running] at finished
    cases finished
  · rw [running] at finished
    cases finished
  · rcases may with ⟨-, alone⟩ | ⟨source, rfl, -⟩ | ⟨acks, farewells, -⟩ | ⟨-, closing⟩
    · rw [sound.size] at alone
      exact absurd alone g.size_ne_one
    · obtain ⟨j, -, -, closing⟩ := sound.heard hears
      exact ⟨j, closing⟩
    · exact ⟨i, Chain.isClosing_of_farewells farewells⟩
    · exact ⟨i, closing⟩
  · obtain ⟨j, -, -, closing⟩ := sound.heard hears
    exact ⟨j, closing⟩

include hears in
theorem Justified.farewells_move {acks : List Endpoint} (farewells : d.farewells = some acks) :
    acks.Nodup ∧ ∀ e ∈ acks, ∃ j, j ≠ i ∧ e = g.endpoint j ∧ (w.members j).seat.isSome ∧
      (w.members j).finished := by
  rcases move.end_cases with ⟨same, -⟩ | ⟨_, -, -, -, -, empty, -⟩ |
    ⟨source, old, rfl, before, -, more, -⟩ | ⟨-, same⟩ | ⟨-, none⟩
  · rw [same] at farewells
    exact (justified i).farewells acks farewells
  · rw [empty] at farewells
    cases farewells
    exact ⟨List.nodup_nil, by simp⟩
  · rw [more] at farewells
    cases farewells
    obtain ⟨nodup, all⟩ := (justified i).farewells old before
    obtain ⟨j, other, endpoint, seated, finished⟩ := sound.heard hears
    refine ⟨nodup.insert, fun e here ↦ ?_⟩
    rcases List.mem_insert_iff.mp here with rfl | here
    · exact ⟨j, other, endpoint, seated, finished⟩
    · exact all e here
  · rw [same] at farewells
    exact (justified i).farewells acks farewells
  · rw [none] at farewells
    cases farewells

include ordered hears in
theorem Justified.patient_move (finished : d.finished) (quiet : (i, .timer .finishTimeout) ∉ w.past)
    {acks : List Endpoint} (farewells : d.farewells = some acks) : g.size ≤ acks.length + 1 := by
  rcases move.end_cases with ⟨same, still⟩ | ⟨_, -, -, -, -, -, running⟩ |
    ⟨_, _, -, -, -, -, running⟩ | ⟨may, same⟩ | ⟨-, none⟩
  · rw [still] at finished
    rw [same] at farewells
    exact (justified i).patient finished quiet acks farewells
  · rw [running] at finished
    cases finished
  · rw [running] at finished
    cases finished
  · rw [same] at farewells
    rcases may with ⟨-, alone⟩ | ⟨_, -, free⟩ | ⟨acks', counted, enough⟩ | ⟨rfl, -⟩
    · rw [sound.size] at alone
      exact absurd alone g.size_ne_one
    · have closing := Chain.isClosing_of_farewells farewells
      obtain ⟨s, seat, -⟩ := ordered.seat_of_memberId? ((justified i).closing closing).1
      rw [free] at seat
      cases seat
    · rw [farewells] at counted
      cases counted
      rwa [sound.size] at enough
    · exact absurd hears.2 quiet
  · rw [none] at farewells
    cases farewells

end Move

variable [DecidableEq ι]

theorem Sound.act_advances (sound : g.Sound w) (move : Chain.Move kx cause (w.members i) said d) :
    ∀ j, Chain.Advances (w.members j) ((w.act i said d).members j) :=
  World.act_forall (p := fun j c ↦ Chain.Advances (w.members j) c)
    (move.advances (sound.coherent i)) fun _ _ ↦ .refl _

/-- What a member does or concludes in a move stays justified afterwards. -/
theorem Justified.act (sound : g.Sound w) (ordered : g.Ordered w order)
    (justified : ∀ j, g.Justified w j) (hears : w.Hears i cause)
    (move : Chain.Move kx cause (w.members i) said d) : g.Justified (w.act i said d) i := by
  have advances := sound.act_advances move
  have self : (w.act i said d).members i = d := World.act_self
  obtain ⟨order', -, ordered'⟩ := ordered.act sound hears move
  refine ⟨?confirmed, ?passed, ?held, ?taken, ?closing, ?finished, ?farewells, ?patient⟩
  case confirmed =>
    intro h handOver confirmed
    rw [self] at handOver
    obtain ⟨j, id, own, next⟩ :=
      confirmed_move sound ordered justified hears move handOver confirmed
    exact ⟨j, id, (advances i).memberId?_eq own, (advances j).memberId?_eq next⟩
  case passed =>
    intro passed
    rw [self] at passed
    obtain ⟨complete, turn⟩ := passed_move sound ordered justified move passed
    have still := ordered'.isComplete (sound.act hears move) (advances i) complete
    exact ⟨still, turn.imp (advances i).held (advances i).memberId?_eq⟩
  case held =>
    intro held
    rw [self] at held
    obtain ⟨j, id, passed, named, own⟩ := held_move sound justified hears move held
    exact ⟨j, id, (advances j).passed passed, (advances j).memberId?_eq named,
      (advances i).memberId?_eq own⟩
  case taken =>
    intro taken
    rw [self] at taken
    obtain ⟨j, id, own, named, held⟩ := taken_move sound ordered justified hears move taken
    exact ⟨j, id, (advances i).memberId?_eq own, (advances j).memberId?_eq named,
      (advances j).held held⟩
  case closing =>
    intro closing
    rw [self] at closing
    obtain ⟨last, held⟩ := closing_move sound justified move closing
    exact ⟨(advances i).memberId?_eq last, (advances i).held held⟩
  case finished =>
    intro finished
    rw [self] at finished
    obtain ⟨j, closing⟩ := finished_move sound justified hears move finished
    exact ⟨j, (advances j).closing closing⟩
  case farewells =>
    intro acks farewells
    rw [self] at farewells
    obtain ⟨nodup, all⟩ := farewells_move sound justified hears move farewells
    refine ⟨nodup, fun e here ↦ ?_⟩
    obtain ⟨j, other, endpoint, seated, finished⟩ := all e here
    exact ⟨j, other, endpoint, (advances j).isSome_seat seated, (advances j).finished finished⟩
  case patient =>
    intro finished quiet acks farewells
    rw [self] at finished farewells
    exact patient_move sound ordered justified hears move finished quiet farewells

/-! ## Wherever a group can get -/

theorem Reaches.justified (reaches : g.Reaches kx w) : ∀ j, g.Justified w j := by
  suffices both : (∃ order, g.Ordered w order) ∧ ∀ j, g.Justified w j from both.2
  refine reaches.induction (P := fun v ↦ (∃ order, g.Ordered v order) ∧ ∀ j, g.Justified v j)
    ⟨⟨[], g.ordered_world⟩, g.justified_world⟩ ?_ ?_
  · intro v i input ⟨⟨order, ordered⟩, justified⟩
    refine ⟨⟨order, { ordered with }⟩, fun j ↦ ?_⟩
    exact (justified j).mono (fun k ↦ .refl _) rfl fun x here ↦ World.mem_log_past.mpr (.inl here)
  · intro v i cause said d sound hears move ⟨⟨order, ordered⟩, justified⟩
    obtain ⟨order', -, ordered'⟩ := ordered.act sound hears move
    refine ⟨⟨order', ordered'⟩, fun j ↦ ?_⟩
    by_cases same : j = i
    · subst same
      exact Justified.act sound ordered justified hears move
    · exact (justified j).mono (sound.act_advances move) (World.act_of_ne same) (List.Subset.refl _)

/-- The end is announced by the last member only, and only when every id is given and everybody
holds the group secret.  Nobody with a seat ends its run without it, and unless the last member lost
its patience it ends its run after all others. -/
theorem end_only_when_complete (reaches : g.Reaches kx w) :
    (∀ x ∈ w.sent, x.message = .finish →
      (∃ i, x.source = g.endpoint i ∧ (w.members i).memberId? = some g.size) ∧
      (∀ id, 1 ≤ id → id ≤ g.size → ∃ j, (w.members j).memberId? = some id) ∧
      (∀ j, (w.members j).seat.isSome →
        (w.members j).isComplete ∧ (w.members j).groupSecret?.isSome) ∧
      (kx.Commutes → g.KeysMatch kx →
        ∃ K, ∀ j, (w.members j).seat.isSome → (w.members j).groupSecret? = some K)) ∧
    (∀ i, (w.members i).seat.isSome → (w.members i).finished →
      (w.members i).groupSecret?.isSome) ∧
    (∀ i, (w.members i).memberId? = some g.size → (w.members i).finished →
      (i, .timer .finishTimeout) ∉ w.past →
        (∀ id, 1 ≤ id → id ≤ g.size → ∃ j, (w.members j).memberId? = some id) ∧
        ∀ j, (w.members j).seat.isSome → (w.members j).finished) := by
  have sound := reaches.sound
  have justified := reaches.justified
  obtain ⟨order, ordered⟩ := reaches.ordered
  have all_given {i : ι} (closing : (w.members i).isClosing) (id : Nat) (positive : 1 ≤ id)
      (small : id ≤ g.size) : ∃ j, (w.members j).memberId? = some id := by
    obtain ⟨j, named, -⟩ := complete_of_closing ordered justified closing id positive small
    exact ⟨j, named⟩
  have all_complete {i : ι} (closing : (w.members i).isClosing) (j : ι)
      (seated : (w.members j).seat.isSome) : (w.members j).isComplete := by
    obtain ⟨s, seat⟩ := Option.isSome_iff_exists.mp seated
    obtain ⟨positive, small⟩ := ordered.id_le_size seat
    obtain ⟨k, named, complete⟩ :=
      complete_of_closing ordered justified closing s.id positive small
    obtain ⟨t, seat', same, -⟩ := ordered.seat_of_memberId? named
    rwa [ordered.member_eq seat seat' same.symm]
  refine ⟨?_, ?_, ?_⟩
  · intro x sent announced
    obtain ⟨i, source, vouches⟩ := sound.vouched x sent
    rw [announced] at vouches
    have closing : (w.members i).isClosing := vouches
    have last := ((justified i).closing closing).1
    have known (j : ι) (seated : (w.members j).seat.isSome) :
        (w.members j).groupSecret?.isSome :=
      Chain.isSome_groupSecret?.mpr (all_complete closing j seated)
    refine ⟨⟨i, source, last⟩, all_given closing, ?_, ?_⟩
    · intro j seated
      exact ⟨all_complete closing j seated, known j seated⟩
    · intro commutes matched
      obtain ⟨order', agreement⟩ := reaches.inAgreement commutes matched
      obtain ⟨s, seat, -⟩ := ordered.seat_of_memberId? last
      obtain ⟨K, own⟩ := Option.isSome_iff_exists.mp (known i (by simp [seat]))
      refine ⟨K, fun j seated ↦ ?_⟩
      obtain ⟨K', there⟩ := Option.isSome_iff_exists.mp (known j seated)
      have root := agreement.groupSecret sound own
      have root' := agreement.groupSecret sound there
      have same := root'.unique (fun _ _ _ left right ↦ left.member_eq right) root
      rw [there, same]
  · intro i seated finished
    obtain ⟨j, closing⟩ := (justified i).finished finished
    exact Chain.isSome_groupSecret?.mpr (all_complete closing i seated)
  · intro i last finished quiet
    -- Only the last member announces the end, so it is this one.
    obtain ⟨k, closing⟩ := (justified i).finished finished
    obtain ⟨s, seat, top, -⟩ := ordered.seat_of_memberId? ((justified k).closing closing).1
    obtain ⟨t, seat', top', -⟩ := ordered.seat_of_memberId? last
    obtain rfl := ordered.member_eq seat seat' (top.trans top'.symm)
    refine ⟨all_given closing, fun j seated ↦ ?_⟩
    by_cases same : j = k
    · rwa [same]
    · obtain ⟨acks, farewells⟩ := Option.isSome_iff_exists.mp closing
      have enough := (justified k).patient finished quiet acks farewells
      exact finished_of_acks ordered justified farewells enough seated same

theorem end_only_when_complete_trio : Trio.roster.Reaches Trio.exchange Trio.final ∧
    ∃ K, ∀ j, (Trio.final.members j).seat.isSome →
      (Trio.final.members j).groupSecret? = some K := by
  obtain ⟨announced, -⟩ := end_only_when_complete Trio.reaches
  have sent : ⟨Trio.roster.endpoint 2, none, .finish⟩ ∈ Trio.final.sent := by
    decide +kernel
  exact ⟨Trio.reaches, (announced _ sent rfl).2.2.2 Trio.commutes Trio.keysMatch⟩

/-- A member stops repeating its hand-over only after its heir has taken over with the id that was
meant for it, and it stops repeating the token only after its successor got it. -/
theorem hand_offs_arrive (reaches : g.Reaches kx w) :
    (∀ i h, (w.members i).handOver = some h → h.confirmed →
      ∃ j, g.endpoint j = h.response.newSponsor.endpoint ∧
        (w.members j).memberId? = some h.response.newSponsor.id.toNat) ∧
    (∀ i id, (w.members i).memberId? = some id → (w.members i).token.taken →
      ∃ j, (w.members j).memberId? = some (successor id g.size) ∧ (w.members j).token.held) := by
  have justified := reaches.justified
  obtain ⟨order, ordered⟩ := reaches.ordered
  refine ⟨?_, ?_⟩
  · intro i h handOver confirmed
    obtain ⟨j, id, own, next⟩ := (justified i).confirmed h handOver confirmed
    obtain ⟨s, k, seat, listed, named, -⟩ := (ordered.placed i).handOver h handOver
    rw [Chain.memberId?_of_seat seat] at own
    cases own
    rw [named]
    refine ⟨j, ?_, ?_⟩
    · rw [(ordered.listed_of_memberId? next).member_eq listed]
    · rw [next, ordered.toNat_ofNat listed]
  · intro i id named taken
    obtain ⟨j, own, same, next, held⟩ := (justified i).taken taken
    rw [named] at same
    cases same
    exact ⟨j, next, held⟩

theorem hand_offs_arrive_trio : Trio.roster.Reaches Trio.exchange Trio.final ∧
    ∃ j, (Trio.final.members j).memberId? = some 2 ∧ (Trio.final.members j).token.held := by
  obtain ⟨-, tokens⟩ := hand_offs_arrive Trio.reaches
  have first : (Trio.final.members 0).memberId? = some 1 := by
    decide +kernel
  have taken : (Trio.final.members 0).token.taken := by
    decide +kernel
  exact ⟨Trio.reaches, tokens 0 1 first taken⟩

end Roster

end GroupKey
