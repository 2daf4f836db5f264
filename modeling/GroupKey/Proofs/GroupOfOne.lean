import GroupKey.Proofs.AfterTheEnd
import GroupKey.Proofs.World

/-!
# Groups of one

A configuration may ask for a group of a single member.  Its opener is done as soon as it starts,
and whoever else was configured for the group looks for a sponsor in vain.  Nothing but these
searches is ever on the network.
-/

namespace GroupKey

namespace Chain

variable {kx : KeyExchange} {c : Chain} {t : Turn Chain} {config : MemberConfig} {place : Endpoint}
  {keys : KeyPair} {random : Random} {task : Task}

/-- The member has finished, or it looks for a sponsor. -/
structure Lonely (c : Chain) : Prop where
  shut : c.isOpen = false
  ended : c.finished = true ∨ c.seat = none ∧ ∀ task, c.agenda.isArmed task → task = .find

/-- The turn ends with a lonely member, and all that is said is that it looks for a sponsor. -/
def Searches (t : Turn Chain) : Prop :=
  t.member.Lonely ∧ ∀ o ∈ t.outgoing, ∃ service, o.message = .find service

theorem searches_keepSending (service : ServiceId) (free : t.member.seat = none)
    (silent : t.outgoing = []) (few : ∀ task, t.member.agenda.isArmed task → task = .find) :
    Searches (t.keepSending .find none (.find service)) := by
  obtain ⟨agenda, member, armed⟩ := arms_keepSending t .find none (.find service)
  refine ⟨⟨?_, .inr ⟨?_, fun task on ↦ ?_⟩⟩, fun o here ↦ ?_⟩
  · rw [member]
    simp [Chain.isOpen, free]
  · rw [member]
    exact free
  · rw [member] at on
    by_contra other
    have old : t.member.agenda.isArmed task = true := by simpa [armed, other] using on
    exact other (few task old)
  · rcases Turn.mem_outgoing_keepSending here with old | new
    · simp [silent] at old
    · exact ⟨service, new⟩

theorem searches_start (one : config.size = 1) : Searches
    (begin { member := { config, endpoint := place, keys, agenda := ⟨[], random⟩ } }) := by
  unfold begin
  dsimp only
  split
  · unfold openGroup
    dsimp only
    generalize reported : reportKey _ = t
    have first : t.member.isOpen = false ∧ t.member.size = 1 := by
      rw [← reported, Follows.member_reportKey]
      exact ⟨by simp [Chain.isOpen, Chain.openingSeat, Chain.size, one, Turn.modify], one⟩
    have silent : t.outgoing = [] := by
      rw [← reported, outgoing_reportKey]
      rfl
    rw [if_pos first.2]
    obtain ⟨announced, announce⟩ := Follows.member_announceKey t
    obtain ⟨finished, ended⟩ := (announceKey t).member_endRun
    refine ⟨⟨?_, .inl (announceKey t).finished_endRun⟩, ?_⟩
    · rw [ended, announce]
      exact first.1
    · rw [Turn.outgoing_endRun, outgoing_announceKey, silent]
      simp
  · exact searches_keepSending _ rfl rfl (by simp [Agenda.isArmed])

theorem Lonely.expire (lonely : c.Lonely) (kx : KeyExchange) (armed : c.agenda.isArmed task) :
    Searches (expire kx task { member := c }) := by
  rcases lonely.ended with finished | ⟨free, few⟩
  · obtain ⟨⟨agenda, handOver, -, rests⟩, silent⟩ := expire_of_finished kx finished task
    refine ⟨?_, by simp [Turn.outgoing, silent]⟩
    rw [rests]
    exact ⟨lonely.shut, .inl finished⟩
  · obtain rfl := few task armed
    have fewer (task : Task) (on : (c.agenda.remove .find).isArmed task) : task = .find := by
      rw [Agenda.isArmed_remove, Bool.and_eq_true] at on
      exact few task on.2
    unfold Chain.expire runTask
    dsimp only
    split
    · exact searches_keepSending _ free rfl fewer
    · have silent : (({ member := c } : Turn Chain).disarm .find).outgoing = [] := rfl
      exact ⟨⟨lonely.shut, .inr ⟨free, fewer⟩⟩, by simp [silent]⟩

/-- Searches do not concern a lonely member. -/
theorem Lonely.receive (lonely : c.Lonely) {bytes : Bytes} {source : Endpoint}
    (search : ∀ m, Message.decode bytes = .ok m → ∃ service, m = .find service) :
    (Chain.protocol kx).step (.datagram bytes source) c = { member := c } := by
  rcases (Chain.protocol kx).step_datagram_cases bytes source c with same | ⟨m, decoded, same⟩
  · exact same
  · obtain ⟨service, rfl⟩ := search m decoded
    exact same.trans (if_neg (by simp [lonely.shut]))

end Chain

/-! ## Lineups -/

/-- The members of one group, which may also be a group of one. -/
structure Lineup (ι : Type) where
  service : ServiceId
  memberCount : UInt16
  opener : ι
  config : ι → MemberConfig
  endpoint : ι → Endpoint
  keys : ι → KeyPair
  random : ι → Random
  service_eq : ∀ i, (config i).service = service
  memberCount_eq : ∀ i, (config i).memberCount = memberCount
  sponsor_iff : ∀ i, (config i).sponsor = true ↔ i = opener
  accepted : ∀ i, (config i).validate = .ok ()
  endpoint_injective : Function.Injective endpoint

namespace Lineup

variable {ι : Type} {l : Lineup ι} {kx : KeyExchange} {w w' : World ι} {i : ι} {input : Input}

/-- A member before its start. -/
def member (l : Lineup ι) (i : ι) : Chain :=
  { config := l.config i, endpoint := l.endpoint i, keys := l.keys i, agenda := ⟨[], l.random i⟩ }

def world (l : Lineup ι) : World ι := { members := l.member, sent := [], past := [] }

/-- Two members or more make a group in which somebody is let in. -/
def roster (l : Lineup ι) (two : 2 ≤ l.memberCount.toNat) : Roster ι := { l with two_le := two }

def Reaches [DecidableEq ι] (l : Lineup ι) (kx : KeyExchange) (w : World ι) : Prop :=
  World.Leads kx l.world w

/-- Nobody was let in, and nobody was told of anybody. -/
structure Quiet (l : Lineup ι) (w : World ι) : Prop where
  fresh : ∀ i, (i, .start) ∉ w.past → w.members i = l.member i
  lonely : ∀ i, (w.members i).Lonely
  searches : ∀ x ∈ w.sent, ∃ service, x.message = .find service

theorem quiet_world (l : Lineup ι) : l.Quiet l.world where
  fresh _ _ := rfl
  lonely _ := ⟨rfl, .inr ⟨rfl, fun _ armed ↦ by simp [world, member, Agenda.isArmed] at armed⟩⟩
  searches x here := by simp [world] at here

theorem Quiet.started (quiet : l.Quiet w) (allowed : w.Allows i input) (later : input ≠ .start) :
    (i, .start) ∈ w.past := by
  cases input with
  | start => exact absurd rfl later
  | timer task =>
    by_contra idle
    have armed : (w.members i).agenda.isArmed task = true := allowed
    simp [quiet.fresh i idle, member, Agenda.isArmed] at armed
  | message m source => exact allowed.elim
  | datagram bytes source => exact allowed.1

/-- One step of one member of a group of one. -/
theorem Quiet.turn (kx : KeyExchange) (one : l.memberCount = 1) (quiet : l.Quiet w)
    (allowed : w.Allows i input) :
    Chain.Searches ((Chain.protocol kx).step input (w.members i)) := by
  cases input with
  | start =>
    rw [quiet.fresh i allowed]
    refine Chain.searches_start ?_
    rw [MemberConfig.size, l.memberCount_eq, one]
    rfl
  | timer task => exact (quiet.lonely i).expire kx allowed
  | message m source => exact allowed.elim
  | datagram bytes source =>
    obtain ⟨-, short, x, sent, -, rfl, -⟩ := allowed
    rw [(quiet.lonely i).receive fun m decoded ↦ ?_]
    · exact ⟨quiet.lonely i, by simp [Turn.outgoing]⟩
    · rw [Message.eq_of_decode_encode short decoded]
      exact quiet.searches x sent

variable [DecidableEq ι]

theorem Quiet.step (one : l.memberCount = 1) (quiet : l.Quiet w) (step : w.Step kx w') :
    l.Quiet w' := by
  obtain ⟨i, input, allowed, rfl⟩ := step
  obtain ⟨lonely, searches⟩ := quiet.turn kx one allowed
  refine ⟨fun j idle ↦ ?_, ?_, fun x here ↦ ?_⟩
  · have before : (j, .start) ∉ w.past := fun here ↦ idle (World.mem_log_past.mpr (.inl here))
    by_cases same : j = i
    · subst same
      by_cases first : input = .start
      · exact absurd (World.mem_log_past.mpr (.inr (by rw [first]))) idle
      · exact absurd (quiet.started allowed first) before
    · rw [World.react, World.act_of_ne same]
      exact quiet.fresh j before
  · exact World.act_forall (p := fun _ c ↦ c.Lonely) lonely fun j _ ↦ quiet.lonely j
  · rcases World.mem_act_sent.mp here with old | ⟨o, new, rfl⟩
    · exact quiet.searches x old
    · exact searches o new

/-- Nothing but searches is ever sent in a group of one. -/
theorem Reaches.quiet (one : l.memberCount = 1) (reaches : l.Reaches kx w) : l.Quiet w := by
  induction reaches with
  | refl => exact l.quiet_world
  | tail _ step ih => exact ih.step one step

end Lineup

end GroupKey
