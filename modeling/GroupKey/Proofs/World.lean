import GroupKey.Proofs.Progress
import GroupKey.Proofs.WireFormat
import Mathlib.Logic.Function.Basic
import Mathlib.Logic.Relation

/-!
# A group on an unreliable network

Any number of chained members with endpoints of their own share one service and one member count,
and one of them opens the group.  A world holds the members, every datagram that was ever sent and
every input that was ever given.  Datagrams are never taken out of it, so a step may lose, repeat
and reorder them at will; deadlines come at any time, but only those of armed tasks.
-/

namespace GroupKey

/-- The members of one group and what each brings along. -/
structure Roster (ι : Type) where
  service : ServiceId
  memberCount : UInt16
  /-- The one that is configured as sponsor. -/
  opener : ι
  config : ι → MemberConfig
  endpoint : ι → Endpoint
  keys : ι → KeyPair
  random : ι → Random
  two_le : 2 ≤ memberCount.toNat
  service_eq : ∀ i, (config i).service = service
  memberCount_eq : ∀ i, (config i).memberCount = memberCount
  sponsor_iff : ∀ i, (config i).sponsor = true ↔ i = opener
  accepted : ∀ i, (config i).validate = .ok ()
  endpoint_injective : Function.Injective endpoint

/-- A message on the network, with the endpoint it came from and the one it is for. -/
structure Dispatch where
  source : Endpoint
  target : Option Endpoint
  message : Message
  deriving DecidableEq, Repr

structure World (ι : Type) where
  members : ι → Chain
  /-- Everything that was ever sent. -/
  sent : List Dispatch
  /-- Every input that was ever given, and to whom. -/
  past : List (ι × Input)

variable {ι : Type}

namespace Roster

/-- The number of members that the group is to have. -/
def size (g : Roster ι) : Nat := g.memberCount.toNat

theorem size_pos (g : Roster ι) : 0 < g.size := Nat.lt_of_lt_of_le Nat.two_pos g.two_le

theorem size_ne_one (g : Roster ι) : g.size ≠ 1 := (Nat.ne_of_lt g.two_le).symm

/-- Ids fit into messages. -/
theorem toNat_ofNat (g : Roster ι) {id : Nat} (small : id ≤ g.size) :
    (UInt16.ofNat id).toNat = id := by
  have bound : g.size < 2 ^ 16 := g.memberCount.toNat_lt
  rw [UInt16.toNat_ofNat']
  exact Nat.mod_eq_of_lt (Nat.lt_of_le_of_lt small bound)

def publicValue (g : Roster ι) (i : ι) : PublicValue := (g.keys i).publicValue

/-- Every member's public value is that of its secret. -/
def KeysMatch (g : Roster ι) (kx : KeyExchange) : Prop :=
  ∀ i, kx.publicOf (g.keys i).secret = .ok (g.publicValue i)

/-- A member before its start. -/
def member (g : Roster ι) (i : ι) : Chain :=
  { config := g.config i, endpoint := g.endpoint i, keys := g.keys i, agenda := ⟨[], g.random i⟩ }

/-- The members of a roster are what comes of creating them. -/
theorem create_eq (g : Roster ι) (i : ι) :
    Chain.create (g.config i) (g.endpoint i) (g.keys i) (g.random i) =
      .ok (({ member := g.member i } : Turn Chain).count .cryptoOperations) := by
  rw [Chain.create, g.accepted i]
  rfl

def world (g : Roster ι) : World ι := { members := g.member, sent := [], past := [] }

end Roster

namespace World

/-- Which inputs the world may give to a member.  It starts once, before anything else, and hears
what others said to it.  A channel carries at most 65507 bytes; all that is asked here is that the
headers inside a datagram can state its length. -/
def Allows (w : World ι) (i : ι) : Input → Prop
  | .start => (i, .start) ∉ w.past
  | .timer task => (w.members i).agenda.isArmed task
  | .message _ _ => False
  | .datagram bytes source =>
    (i, .start) ∈ w.past ∧ bytes.length < 2 ^ 32 ∧
      ∃ d ∈ w.sent, d.source = source ∧ d.message.encode = bytes ∧
        (d.target = none ∨ d.target = some (w.members i).endpoint)

/-- Writes down an input. -/
def log (w : World ι) (i : ι) (input : Input) : World ι := { w with past := w.past ++ [(i, input)] }

@[simp] theorem log_members (w : World ι) (i : ι) (input : Input) :
    (w.log i input).members = w.members := rfl

@[simp] theorem log_sent (w : World ι) (i : ι) (input : Input) :
    (w.log i input).sent = w.sent := rfl

theorem mem_log_past {w : World ι} {i : ι} {input : Input} {x : ι × Input} :
    x ∈ (w.log i input).past ↔ x ∈ w.past ∨ x = (i, input) := by
  simp [log]

variable [DecidableEq ι]

instance (w : World ι) (i : ι) (input : Input) : Decidable (w.Allows i input) := by
  cases input <;> (unfold Allows; infer_instance)

/-- Puts a member into a new state and its messages on the network. -/
def act (w : World ι) (i : ι) (said : List Outgoing) (c : Chain) : World ι :=
  { w with
    members := Function.update w.members i c
    sent := w.sent ++ said.map fun o ↦ ⟨(w.members i).endpoint, o.target, o.message⟩ }

/-- One member reacts to one input. -/
def react (kx : KeyExchange) (w : World ι) (i : ι) (input : Input) : World ι :=
  let t := (Chain.protocol kx).step input (w.members i)
  (w.log i input).act i t.outgoing t.member

def Step (kx : KeyExchange) (w w' : World ι) : Prop :=
  ∃ i input, w.Allows i input ∧ w' = w.react kx i input

/-- The states that follow from a state. -/
def Leads (kx : KeyExchange) : World ι → World ι → Prop := Relation.ReflTransGen (Step kx)

end World

def Roster.Reaches [DecidableEq ι] (g : Roster ι) (kx : KeyExchange) (w : World ι) : Prop :=
  World.Leads kx g.world w

/-- A run from the beginning.  It may rest at any time, so runs that end are among them. -/
structure Roster.Runs [DecidableEq ι] (g : Roster ι) (kx : KeyExchange) (run : Nat → World ι) :
    Prop where
  begins : run 0 = g.world
  goes : ∀ n, (run n).Step kx (run (n + 1)) ∨ run (n + 1) = run n

namespace World

variable [DecidableEq ι] {kx : KeyExchange} {w : World ι} {i j : ι} {said more : List Outgoing}
  {c d : Chain}

@[simp] theorem act_self : (w.act i said c).members i = c := by
  simp [act]

theorem act_of_ne (other : j ≠ i) : (w.act i said c).members j = w.members j := by
  simp [act, other]

/-- What holds of the new state and of every other member's old one holds of all members. -/
theorem act_forall {p : ι → Chain → Prop} (here : p i c) (there : ∀ j, j ≠ i → p j (w.members j)) :
    ∀ j, p j ((w.act i said c).members j) := by
  intro j
  by_cases same : j = i
  · subst same
    rw [act_self]
    exact here
  · rw [act_of_ne same]
    exact there j same

theorem act_rest : w.act i [] (w.members i) = w := by
  simp [act]

/-- Two acts of one member are one act. -/
theorem act_act (same : c.endpoint = (w.members i).endpoint) :
    (w.act i said c).act i more d = w.act i (said ++ more) d := by
  simp [act, same]

/-- What a member says is sent under its own endpoint. -/
theorem mem_act_sent {x : Dispatch} :
    x ∈ (w.act i said c).sent ↔
      x ∈ w.sent ∨ ∃ o ∈ said, x = ⟨(w.members i).endpoint, o.target, o.message⟩ := by
  simp [act, eq_comm]

@[simp] theorem act_past : (w.act i said c).past = w.past := rfl

/-- The input that causes a move was really given: its message is on the network and comes from
someone else, its deadline was noted. -/
def Hears (w : World ι) (i : ι) (cause : Input) : Prop :=
  (i, .start) ∈ w.past ∧
    match cause with
    | .start => True
    | .timer task => (i, .timer task) ∈ w.past
    | .message m source =>
      source ≠ (w.members i).endpoint ∧ ∃ x ∈ w.sent, x.source = source ∧ x.message = m
    | .datagram _ _ => False

end World

/-! ## What every step keeps -/

namespace Roster

variable {g : Roster ι} {kx : KeyExchange} {w w' : World ι} {i j : ι} {cause input : Input}
  {said more : List Outgoing} {c d : Chain}

/-- Members keep what they brought along, and what was sent is true of its sender. -/
structure Sound (g : Roster ι) (w : World ι) : Prop where
  config : ∀ i, (w.members i).config = g.config i
  endpoint : ∀ i, (w.members i).endpoint = g.endpoint i
  keys : ∀ i, (w.members i).keys = g.keys i
  coherent : ∀ i, (w.members i).Coherent
  fresh : ∀ i, (i, .start) ∉ w.past → w.members i = g.member i
  vouched : ∀ x ∈ w.sent, ∃ i, x.source = g.endpoint i ∧ (w.members i).Vouches x.message

theorem Sound.size (sound : g.Sound w) (i : ι) : (w.members i).size = g.size := by
  rw [Chain.size, sound.config, MemberConfig.size, g.memberCount_eq, Roster.size]

/-- Only the opener was configured as sponsor. -/
theorem Sound.opener_of_chosen (sound : g.Sound w) (chosen : (w.members i).config.sponsor = true) :
    i = g.opener := by
  rw [sound.config] at chosen
  exact (g.sponsor_iff i).mp chosen

theorem sound_world (g : Roster ι) : g.Sound g.world where
  config _ := rfl
  endpoint _ := rfl
  keys _ := rfl
  coherent _ := ⟨by simp [world, member], by simp [world, member, Agenda.isArmed],
    by simp [world, member]⟩
  fresh _ _ := rfl
  vouched x here := by simp [world] at here

/-- Only those who were started have tasks. -/
theorem Sound.started (sound : g.Sound w) {task : Task}
    (armed : (w.members i).agenda.isArmed task) : (i, .start) ∈ w.past := by
  by_contra idle
  have pristine := sound.fresh i idle
  simp [pristine, member, Agenda.isArmed] at armed

theorem Sound.log (sound : g.Sound w) (i : ι) (input : Input) : g.Sound (w.log i input) where
  config := sound.config
  endpoint := sound.endpoint
  keys := sound.keys
  coherent := sound.coherent
  fresh j idle := sound.fresh j fun started ↦ idle (World.mem_log_past.mpr (.inl started))
  vouched := sound.vouched

/-- Whatever a member hears was sent by another member and is true of it. -/
theorem Sound.heard (sound : g.Sound w) {m : Message} {source : Endpoint}
    (hears : w.Hears i (.message m source)) :
    ∃ j, j ≠ i ∧ source = g.endpoint j ∧ (w.members j).Vouches m := by
  obtain ⟨-, foreign, x, sent, rfl, rfl⟩ := hears
  obtain ⟨j, source, vouches⟩ := sound.vouched x sent
  refine ⟨j, ?_, source, vouches⟩
  rintro rfl
  exact foreign (source.trans (sound.endpoint j).symm)

variable [DecidableEq ι]

/-- What a member says is true of it, and stays true while it advances. -/
theorem Sound.act (sound : g.Sound w) (hears : w.Hears i cause)
    (move : Chain.Move kx cause (w.members i) said d) : g.Sound (w.act i said d) := by
  have advances := move.advances (sound.coherent i)
  refine ⟨?_, ?_, ?_, ?_, ?_, ?_⟩
  · exact World.act_forall (p := fun j c ↦ c.config = g.config j)
      (advances.config.trans (sound.config i)) fun j _ ↦ sound.config j
  · exact World.act_forall (p := fun j c ↦ c.endpoint = g.endpoint j)
      (advances.endpoint.trans (sound.endpoint i)) fun j _ ↦ sound.endpoint j
  · exact World.act_forall (p := fun j c ↦ c.keys = g.keys j)
      (advances.keys.trans (sound.keys i)) fun j _ ↦ sound.keys j
  · exact World.act_forall (p := fun _ c ↦ c.Coherent) ((sound.coherent i).move move)
      fun j _ ↦ sound.coherent j
  · intro j idle
    by_cases same : j = i
    · subst same
      exact absurd hears.1 idle
    · rw [World.act_of_ne same]
      exact sound.fresh j idle
  · intro x here
    rcases World.mem_act_sent.mp here with old | ⟨o, new, rfl⟩
    · obtain ⟨j, source, vouches⟩ := sound.vouched x old
      refine ⟨j, source, ?_⟩
      by_cases same : j = i
      · subst same
        rw [World.act_self]
        exact vouches.advance advances
      · rw [World.act_of_ne same]
        exact vouches
    · refine ⟨i, sound.endpoint i, ?_⟩
      rw [World.act_self]
      exact move.vouches o new

/-- What a move keeps, a sequence of moves keeps. -/
theorem Sound.act_induction {P : World ι → Prop} (sound : g.Sound w) (hears : w.Hears i cause)
    (moves : Chain.Moves kx cause (w.members i) said d) (start : P w)
    (act : ∀ {v : World ι} {said : List Outgoing} {d : Chain}, g.Sound v → v.Hears i cause →
      Chain.Move kx cause (v.members i) said d → P v → P (v.act i said d)) :
    g.Sound (w.act i said d) ∧ P (w.act i said d) := by
  suffices all : g.Sound (w.act i said d) ∧ (w.act i said d).Hears i cause ∧
      P (w.act i said d) from ⟨all.1, all.2.2⟩
  induction moves with
  | rest =>
    rw [World.act_rest]
    exact ⟨sound, hears, start⟩
  | @tail said more c d _ move ih =>
    obtain ⟨sound', hears', kept⟩ := ih
    have move' : Chain.Move kx cause ((w.act i said c).members i) more d := by
      rw [World.act_self]
      exact move
    have same : c.endpoint = (w.members i).endpoint := by
      have moved := sound'.endpoint i
      rw [World.act_self] at moved
      rw [moved, sound.endpoint]
    have sound'' := sound'.act hears' move'
    have kept' := act sound' hears' move' kept
    rw [World.act_act same] at sound'' kept'
    refine ⟨sound'', ⟨hears.1, ?_⟩, kept'⟩
    cases cause with
    | message m source =>
      obtain ⟨foreign, x, sent, named⟩ := hears.2
      refine ⟨?_, x, World.mem_act_sent.mpr (.inl sent), named⟩
      rw [sound''.endpoint, ← sound.endpoint]
      exact foreign
    | start => trivial
    | timer task => exact hears.2
    | datagram bytes source => exact hears.2

/-- One step is one member's sequence of moves on an input that was really given. -/
theorem Sound.moves (kx : KeyExchange) (sound : g.Sound w) (allowed : w.Allows i input) :
    ∃ cause said d, w.react kx i input = (w.log i input).act i said d ∧
      (w.log i input).Hears i cause ∧ Chain.Moves kx cause (w.members i) said d := by
  have begun := Chain.Follows.start kx
  cases input with
  | start =>
    have pristine := sound.fresh i allowed
    refine ⟨.start, _, _, rfl, ⟨World.mem_log_past.mpr (.inr rfl), trivial⟩, ?_⟩
    refine (begun .start (w.members i)).begin rfl ?_ ?_
    · rw [pristine]
      rfl
    · rw [sound.size]
      exact g.size_pos
  | timer task =>
    refine ⟨.timer task, _, _, rfl, ⟨World.mem_log_past.mpr (.inl (sound.started allowed)),
      World.mem_log_past.mpr (.inr rfl)⟩, ?_⟩
    refine (begun (.timer task) (w.members i)).expire rfl ?_
    rintro rfl
    exact (sound.coherent i).armed allowed
  | message m source => exact allowed.elim
  | datagram bytes source =>
    obtain ⟨started, short, x, sent, rfl, rfl, -⟩ := allowed
    have logged : (i, .start) ∈ (w.log i (.datagram x.message.encode x.source)).past :=
      World.mem_log_past.mpr (.inl started)
    -- A datagram that is dropped causes nothing, as a start without moves does.
    have dropped (silent : (Chain.protocol kx).receive x.message.encode x.source
        { member := w.members i } = { member := w.members i }) :
        ∃ cause said d, w.react kx i (.datagram x.message.encode x.source) =
            (w.log i (.datagram x.message.encode x.source)).act i said d ∧
          (w.log i (.datagram x.message.encode x.source)).Hears i cause ∧
          Chain.Moves kx cause (w.members i) said d := by
      refine ⟨.start, [], w.members i, ?_, ⟨logged, trivial⟩, .rest⟩
      rw [World.react, Protocol.step, silent]
      rfl
    by_cases own : x.source = (w.members i).endpoint
    · exact dropped (Protocol.receive_own own)
    · cases decoded : Message.decode x.message.encode with
      | error e => exact dropped (Protocol.receive_of_error own decoded)
      | ok received =>
        obtain rfl := Message.eq_of_decode_encode short decoded
        refine ⟨.message x.message x.source, _, _, rfl,
          ⟨logged, own, x, sent, rfl, rfl⟩, ?_⟩
        have same : (Chain.protocol kx).step (.datagram x.message.encode x.source)
            (w.members i) = Chain.answer kx x.message x.source { member := w.members i } :=
          Protocol.receive_of_ok own decoded
        rw [same]
        exact (begun (.message x.message x.source) (w.members i)).answer rfl
          (sound.coherent i).taken

/-- An invariant of single moves is an invariant of every step. -/
theorem Sound.step {P : World ι → Prop} (sound : g.Sound w) (step : w.Step kx w') (start : P w)
    (log : ∀ {v : World ι} (i : ι) (input : Input), P v → P (v.log i input))
    (act : ∀ {v : World ι} {i : ι} {cause : Input} {said : List Outgoing} {d : Chain},
      g.Sound v → v.Hears i cause → Chain.Move kx cause (v.members i) said d → P v →
        P (v.act i said d)) : g.Sound w' ∧ P w' := by
  obtain ⟨i, input, allowed, rfl⟩ := step
  obtain ⟨cause, said, d, same, hears, moves⟩ := sound.moves kx allowed
  rw [same]
  exact (sound.log i input).act_induction hears moves (log i input start) act

/-- Every step is a row of moves of one member. -/
theorem Reaches.sound (reaches : g.Reaches kx w) : g.Sound w := by
  induction reaches with
  | refl => exact g.sound_world
  | tail _ step ih =>
    exact (ih.step (P := fun _ ↦ True) step trivial (fun _ _ _ ↦ trivial)
      fun _ _ _ _ ↦ trivial).1

/-- An invariant of single moves holds wherever a group can get. -/
theorem Reaches.induction {P : World ι → Prop} (reaches : g.Reaches kx w) (start : P g.world)
    (log : ∀ {v : World ι} (i : ι) (input : Input), P v → P (v.log i input))
    (act : ∀ {v : World ι} {i : ι} {cause : Input} {said : List Outgoing} {d : Chain},
      g.Sound v → v.Hears i cause → Chain.Move kx cause (v.members i) said d → P v →
        P (v.act i said d)) : P w := by
  induction reaches with
  | refl => exact start
  | tail reached step ih => exact ((Reaches.sound reached).step step ih log act).2

/-- Members only advance. -/
theorem Sound.advances (sound : g.Sound w) (leads : w.Leads kx w') (j : ι) :
    Chain.Advances (w.members j) (w'.members j) := by
  suffices both : g.Sound w' ∧ Chain.Advances (w.members j) (w'.members j) from both.2
  induction leads with
  | refl => exact ⟨sound, .refl _⟩
  | tail _ step ih =>
    refine ih.1.step (P := fun v ↦ Chain.Advances (w.members j) (v.members j)) step ih.2
      (fun _ _ kept ↦ kept) ?_
    intro v i cause said d sound' _ move kept
    by_cases same : j = i
    · subst same
      rw [World.act_self]
      exact kept.trans (move.advances (sound'.coherent j))
    · rw [World.act_of_ne same]
      exact kept

/-- Later worlds come of earlier ones. -/
theorem Runs.leads {run : Nat → World ι} (runs : g.Runs kx run) {m n : Nat} (later : m ≤ n) :
    (run m).Leads kx (run n) := by
  induction later with
  | refl => exact .refl
  | step _ ih =>
    rcases runs.goes _ with step | rest
    · exact ih.tail step
    · rw [Nat.succ_eq_add_one, rest]
      exact ih

theorem Runs.reaches {run : Nat → World ι} (runs : g.Runs kx run) (n : Nat) :
    g.Reaches kx (run n) := by
  rw [Reaches, ← runs.begins]
  exact runs.leads (Nat.zero_le n)

end Roster

namespace World

variable [DecidableEq ι] {kx : KeyExchange}

/-- The state after some inputs, one after the other. -/
def play (kx : KeyExchange) (w : World ι) (script : List (ι × Input)) : World ι :=
  script.foldl (fun w entry ↦ w.react kx entry.1 entry.2) w

/-- The world may give these inputs one after the other. -/
def Admits (kx : KeyExchange) : World ι → List (ι × Input) → Prop
  | _, [] => True
  | w, entry :: script => w.Allows entry.1 entry.2 ∧ Admits kx (w.react kx entry.1 entry.2) script

instance : ∀ (w : World ι) (script : List (ι × Input)), Decidable (w.Admits kx script)
  | _, [] => .isTrue trivial
  | w, entry :: script =>
    have := instDecidableAdmits (w.react kx entry.1 entry.2) script
    inferInstanceAs (Decidable (_ ∧ _))

/-- A script that may be played leads from world to world. -/
theorem leads_play {w : World ι} {script : List (ι × Input)} (admits : w.Admits kx script) :
    w.Leads kx (w.play kx script) := by
  induction script generalizing w with
  | nil => exact .refl
  | cons entry script ih =>
    exact .head ⟨entry.1, entry.2, admits.1, rfl⟩ (ih admits.2)

/-- Behind its end a script stands still. -/
theorem step_play {w : World ι} {script : List (ι × Input)} (admits : w.Admits kx script)
    (n : Nat) : (w.play kx (script.take n)).Step kx (w.play kx (script.take (n + 1))) ∨
      w.play kx (script.take (n + 1)) = w.play kx (script.take n) := by
  induction script generalizing w n with
  | nil => exact .inr (by rw [List.take_nil, List.take_nil])
  | cons entry script ih =>
    cases n with
    | zero => exact .inl ⟨entry.1, entry.2, admits.1, rfl⟩
    | succ n => exact ih admits.2 n

end World

theorem Roster.runs_play [DecidableEq ι] {g : Roster ι} {kx : KeyExchange}
    {script : List (ι × Input)} (admits : g.world.Admits kx script) :
    g.Runs kx fun n ↦ g.world.play kx (script.take n) :=
  ⟨rfl, World.step_play admits⟩

/-! ## A group of three -/

/-- Exponentiation of a base modulo a number, with values of a fixed width. -/
def KeyExchange.powers (width modulus base : Nat) : KeyExchange where
  agree s value :=
    .ok ⟨Bytes.ofNatLE width (Bytes.toNatLE value.bytes ^ Bytes.toNatLE s.bytes % modulus)⟩
  publicOf s := .ok ⟨Bytes.ofNatLE width (base ^ Bytes.toNatLE s.bytes % modulus)⟩

/-- Powers of one base commute. -/
theorem KeyExchange.powers_commutes {width modulus base : Nat} (positive : 0 < modulus)
    (fits : modulus ≤ 256 ^ width) : (powers width modulus base).Commutes := by
  rintro a b _ _ ⟨⟩ ⟨⟩
  have read (n : Nat) : Bytes.toNatLE (Bytes.ofNatLE width (n % modulus)) = n % modulus :=
    Bytes.toNatLE_ofNatLE width _ (Nat.lt_of_lt_of_le (Nat.mod_lt n positive) fits)
  have met (x y : Nat) : (base ^ x % modulus) ^ y % modulus = (base ^ y % modulus) ^ x % modulus :=
    calc
      (base ^ x % modulus) ^ y % modulus = base ^ (x * y) % modulus := by
        rw [← Nat.pow_mod, ← Nat.pow_mul]
      _ = base ^ (y * x) % modulus := by
        rw [Nat.mul_comm]
      _ = (base ^ y % modulus) ^ x % modulus := by
        rw [Nat.pow_mul, Nat.pow_mod]
  simp only [powers, read]
  rw [met]

namespace Trio

def exchange : KeyExchange := .powers 1 23 5

/-- Three members that draw no delays; the first one opens the group. -/
def roster : Roster (Fin 3) where
  service := 7
  memberCount := 3
  opener := 0
  config i := { service := 7, memberCount := 3, sponsor := i = 0, scatterDelay := .between 0 0 }
  endpoint i := ⟨⟨10, 0, 0, UInt8.ofNat i.val⟩, 40000⟩
  keys i := ⟨⟨[UInt8.ofNat (i.val + 3)]⟩, ⟨[UInt8.ofNat (5 ^ (i.val + 3) % 23)]⟩⟩
  random _ := ⟨[], 0⟩
  two_le := by decide
  service_eq _ := rfl
  memberCount_eq _ := rfl
  sponsor_iff _ := decide_eq_true_iff
  accepted _ := rfl
  endpoint_injective := by
    intro i j
    revert i j
    decide

theorem commutes : exchange.Commutes := KeyExchange.powers_commutes (by decide) (by decide)

theorem keysMatch : roster.KeysMatch exchange := by
  unfold Roster.KeysMatch
  decide

/-- Whom the opener lets in first. -/
def second : Fin 3 := .castSucc (.last 1)

def hear (i source : Fin 3) (m : Message) : Fin 3 × Input :=
  (i, .datagram m.encode (roster.endpoint source))

/-- What the first or the second member says when it hands the group over. -/
def handOver (i : Fin 2) (groupPublic : Bytes) : Message :=
  .response
    { service := 7
      groupPublic := ⟨groupPublic⟩
      predecessorPublic := roster.publicValue i.castSucc
      newSponsor := ⟨roster.endpoint i.succ, UInt16.ofNat (i.val + 2), roster.publicValue i.succ⟩
      memberCount := 3 }

/-- A whole run, up to the last farewell. -/
def script : List (Fin 3 × Input) :=
  [(0, .start), (1, .start), (2, .start), hear 1 0 (.offer 7), (1, .timer .request),
    hear 0 1 (.request 7 (roster.publicValue 1)), hear 1 0 (handOver 0 [10]), hear 2 1 (.offer 7),
    (2, .timer .request), hear 1 2 (.request 7 (roster.publicValue 2)),
    hear 2 1 (handOver 1 [6]), hear 1 2 (.token 1), hear 0 2 (.token 1), hear 0 1 (handOver 1 [6]),
    hear 1 0 (.token 2), hear 0 1 (.token 3), hear 2 1 (.token 3), hear 0 2 .finish,
    hear 1 2 .finish, hear 2 0 .finishAck, hear 2 1 .finishAck]

theorem admits : roster.world.Admits exchange script := by
  decide +kernel

/-- The group after its run. -/
def final : World (Fin 3) := roster.world.play exchange script

theorem reaches : roster.Reaches exchange final := World.leads_play admits

end Trio

end GroupKey
