import GroupKey.Proofs.Agreement
import GroupKey.Proofs.DatagramSize
import GroupKey.Proofs.Duplicates
import GroupKey.Proofs.Simulation
import GroupKey.Proofs.StarAgreement

/-!
# Simulated groups live in the worlds of the proofs

Whatever the simulated network shows of a group, of either variant, a world of that variant shows as
well, so what holds wherever a group can get holds in every simulated run.
-/

namespace GroupKey

/-- Keeping a message sent takes no task off. -/
theorem Turn.drop_mem_orders_keepSending {σ : Type} [Busy σ] {t : Turn σ} {task other : Task}
    {target : Option Endpoint} {m : Message}
    (here : .drop other ∈ (t.keepSending task target m).orders) : .drop other ∈ t.orders := by
  rw [orders_keepSending] at here
  rcases List.mem_append.mp here with old | new
  · exact old
  · split at new <;> simp at new

theorem Turn.drop_mem_orders_cancel {σ : Type} [Busy σ] {t : Turn σ} {task other : Task}
    (here : .drop other ∈ (t.cancel task).orders) : .drop other ∈ t.orders ∨ other = task := by
  rw [orders_cancel] at here
  rcases List.mem_append.mp here with old | new
  · exact .inl old
  · split at new
    · exact .inr (by simpa using new)
    · simp at new

namespace Chain

variable {kx : KeyExchange} {t u : Turn Chain} {c d : Chain} {said : List Outgoing} {task : Task}

/-- Only a message or the start gives a seat, so no deadline opens an office. -/
theorem Move.isOpen_of_timer (move : Move kx (.timer task) c said d) (isOpen : d.isOpen) :
    c.isOpen := by
  cases move with
  | learn endpoint id value =>
    obtain ⟨_, _, frame⟩ := learn_frame c endpoint id value
    rwa [frame] at isOpen
  | enqueue service value source asked => cases asked
  | openGroup first => cases first
  | takeSeat r source s named => cases named
  | resign s seat => simp [Chain.isOpen] at isOpen
  | enrol s new candidate rest before seat _ _ _ _ granted =>
    obtain ⟨tree, -, -, rfl⟩ := seatAfter_eq_ok granted
    simp [Chain.isOpen] at isOpen
  | extend s value tree seat =>
    rw [Chain.isOpen, seat]
    exact isOpen
  | _ => exact isOpen

theorem isOpen_of_expire (isOpen : (expire kx task { member := c }).member.isOpen) : c.isOpen := by
  by_cases token : task = .synchToken
  · subst token
    obtain ⟨⟨agenda, member, -⟩, -⟩ := repeatToken_frame kx c
    rwa [member] at isOpen
  · have follows : Follows kx (.timer task) c (expire kx task { member := c }) :=
      (Follows.start kx _ c).expire rfl fun same ↦ absurd same token
    have kept := follows.keeps (P := fun d ↦ d.isOpen → c.isOpen) id fun before move after ↦
      before (move.isOpen_of_timer after)
    exact kept isOpen

/-- A task is off the agenda because nothing is left of it to do: the offers of a sponsor whose
office is closed. -/
def Lapsed (c : Chain) (task : Task) : Prop := task = .offer ∧ c.isOpen = false

/-- What a turn takes off the agenda is the question, or has lapsed by its end. -/
def Clears (t u : Turn Chain) : Prop :=
  ∀ task, .drop task ∈ u.orders →
    .drop task ∈ t.orders ∨ task = .infoRequest ∨ u.member.Lapsed task

theorem clears_keepSending (t : Turn Chain) (task : Task) (target : Option Endpoint)
    (m : Message) : Clears t (t.keepSending task target m) :=
  fun _ here ↦ .inl (Turn.drop_mem_orders_keepSending here)

/-- To let somebody in closes the office, so the offers that are taken off have lapsed. -/
theorem clears_enrol (old : Seat) {new : Seat} (closed : new.sponsor = false)
    (before : PublicValue) (candidate : Candidate) :
    Clears t (enrol old new before candidate t) := by
  have shut : (enrol old new before candidate t).member.isOpen = false := by
    obtain ⟨agenda, announced, enrolled, -⟩ := enrol_frame old new before candidate t
    rw [enrolled]
    simp [isOpen, closed]
  intro task here
  rw [enrol_eq, orders_announceKey] at here
  have dropped := Turn.drop_mem_orders_keepSending here
  rw [orders_reportKey, orders_letIn] at dropped
  rcases Turn.drop_mem_orders_cancel dropped with dropped | question
  · rcases Turn.drop_mem_orders_cancel dropped with old | offer
    · exact .inl old
    · exact .inr (.inr ⟨offer, shut⟩)
  · exact .inr (.inl question)

theorem clears_enrolFirst (s : Seat) (queue : List Candidate) :
    Clears t (enrolFirst kx s queue t) := by
  induction queue with
  | nil =>
    have kept := clears_keepSending (t.modify fun c ↦ { c with pending := [] })
    exact kept _ _ _
  | cons candidate rest ih =>
    unfold enrolFirst
    split
    · exact ih
    · split
      · exact ih
      · next new before granted =>
        obtain ⟨tree, -, -, rfl⟩ := seatAfter_eq_ok granted
        have enrolled := clears_enrol (t := t.modify fun c ↦ { c with pending := rest })
        exact enrolled _ rfl _ _

theorem clears_attendQueue (t : Turn Chain) : Clears t (attendQueue kx t) := by
  unfold attendQueue
  split
  · exact fun _ here ↦ .inl here
  · split
    · exact fun _ here ↦ .inl here
    · dsimp only
      split
      · intro task here
        rcases clears_enrolFirst _ _ task here with dropped | cleared
        · exact (Turn.drop_mem_orders_cancel dropped).imp id .inl
        · exact .inr cleared
      · exact clears_keepSending _ _ _ _

/-- Only the deadline of a question takes tasks off, and what it takes off has lapsed. -/
theorem tolerant (kx : KeyExchange) : (Chain.protocol kx).Tolerant Lapsed where
  kept c task other different armed := by
    by_cases dropped : .drop other ∈ ((Chain.protocol kx).step (.timer task) c).orders
    · right
      by_cases question : task = .infoRequest
      · subst question
        change .drop other ∈ (expire kx .infoRequest { member := c }).orders at dropped
        change (expire kx .infoRequest { member := c }).member.Lapsed other
        unfold expire at dropped ⊢
        dsimp only at dropped ⊢
        split at dropped
        · next wanted =>
          rw [if_pos wanted]
          rcases clears_attendQueue _ other dropped with none | question | lapsed
          · exact (List.not_mem_nil none).elim
          · exact absurd question different
          · exact lapsed
        · exact (List.not_mem_nil dropped).elim
      · -- Every other deadline only arms its own task again.
        cases (punctual kx).alone c question _ dropped
    · exact .inl (Host.isArmed_of_undropped (punctual kx) c different armed dropped)
  stays {c} task other lapsed := by
    refine ⟨lapsed.1, Bool.eq_false_iff.mpr fun isOpen ↦ ?_⟩
    have before : c.isOpen = true := isOpen_of_expire isOpen
    rw [lapsed.2] at before
    cases before
  idle {c} task lapsed unarmed := by
    obtain ⟨rfl, shut⟩ := lapsed
    have same : ({ member := c } : Turn Chain).disarm .offer = { member := c } := by
      rw [Turn.disarm, Agenda.remove_eq_self unarmed, Turn.setAgenda]
      exact congrArg (fun c ↦ ({ member := c } : Turn Chain)) (Busy.withAgenda_agenda c)
    change expire kx .offer { member := c } = _
    unfold expire
    dsimp only
    rw [same]
    exact if_neg (by simp [wants, shut])

end Chain

/-- A star member's deadlines take no task off. -/
theorem Star.tolerant (kx : KeyExchange) : (Star.protocol kx).Tolerant fun _ _ ↦ False where
  kept m task other different armed := by
    refine .inl (Host.isArmed_of_undropped (punctual kx) m different armed fun dropped ↦ ?_)
    cases rearms_expire m _ dropped
  stays _ _ lapsed := lapsed
  idle lapsed := lapsed.elim

/-! ## Scenes and worlds -/

section Worlds

variable {n : Nat} {g : Roster (Fin n)} {kx : KeyExchange}

/-- What a network can tell of a world of chained members. -/
def World.scene (w : World (Fin n)) : Scene Chain n :=
  ⟨w.members, w.sent, fun i ↦ (i, .start) ∈ w.past⟩

/-- What a network can tell of a world of star members. -/
def StarWorld.scene (w : StarWorld (Fin n)) : Scene Star n :=
  ⟨w.members, w.sent, fun i ↦ i ∈ w.started⟩

theorem World.scene_react {w : World (Fin n)} {i : Fin n} {input : Input}
    (same : ((Chain.protocol kx).step input (w.members i)).member.endpoint =
      (w.members i).endpoint) :
    (w.react kx i input).scene = w.scene.react (Chain.protocol kx) i input := by
  have sent : (w.react kx i input).sent = (w.scene.react (Chain.protocol kx) i input).sent := by
    unfold World.react World.act
    rw [log_members, ← same]
    rfl
  have started (j : Fin n) : (j, .start) ∈ (w.react kx i input).past ↔
      (w.scene.react (Chain.protocol kx) i input).started j := by
    change (j, .start) ∈ (w.log i input).past ↔ (j, .start) ∈ w.past ∨ input = .start ∧ j = i
    rw [mem_log_past, Prod.mk.injEq, and_comm, @eq_comm _ Input.start]
  unfold World.scene at sent started ⊢
  rw [sent, funext fun j ↦ propext (started j)]
  rfl

theorem StarWorld.scene_react {w : StarWorld (Fin n)} {i : Fin n} {input : Input}
    (same : ((Star.protocol kx).step input (w.members i)).member.endpoint =
      (w.members i).endpoint) :
    (w.react kx i input).scene = w.scene.react (Star.protocol kx) i input := by
  have sent : (w.react kx i input).sent = (w.scene.react (Star.protocol kx) i input).sent := by
    unfold StarWorld.react
    rw [← same]
    rfl
  have started (j : Fin n) : j ∈ (w.react kx i input).started ↔
      (w.scene.react (Star.protocol kx) i input).started j := by
    rw [mem_react_started, or_comm]
    rfl
  unfold StarWorld.scene at sent started ⊢
  rw [sent, funext fun j ↦ propext (started j)]
  rfl

theorem Star.endpoint_step {m : Star} {input : Input}
    (outer : Protocol.Outer (fun _ ↦ True) input)
    (told : m.source?.isSome → m.config.sponsor = false ∧ m.groupSecret?.isSome) :
    ((Star.protocol kx).step input m).member.endpoint = m.endpoint := by
  rcases step_cases kx outer told with ⟨-, same⟩ | ⟨cause, -, -, does⟩
  · obtain ⟨⟨agenda, secret?, finished, member, -⟩, -⟩ := begin_frame m
    rw [same, member]
  · exact does.change.grows.endpoint

section Lifts

variable (own : ∀ i, (g.publicValue i).OnCurve)

include own

/-- Messages are short since all values in them are on the curve. -/
theorem Roster.short_of_plays (deals : kx.Deals PublicValue.OnCurve) {s : Scene Chain n}
    (plays : g.world.scene.Plays (Chain.protocol kx) s) :
    ∀ d ∈ s.sent, d.message.encode.length < 2 ^ 32 := by
  have upheld := plays.upholds (Q := fun m ↦ m.encode.length < 2 ^ 32)
    (P := fun i c ↦ c.Orderly (g.config i) PublicValue.OnCurve fun _ ↦ True)
    (fun i ↦ Chain.orderly_create (g.create_eq i) (own i)) rfl fun orderly outer ↦
      have kept := orderly.step (g.accepted _) deals outer
      ⟨kept.member, fun o here ↦ (kept.messages o here).short⟩
  exact upheld.2

/-- Every scene that follows from the first one is that of a world of chained members. -/
theorem Roster.exists_world (deals : kx.Deals PublicValue.OnCurve) {s : Scene Chain n}
    (plays : g.world.scene.Plays (Chain.protocol kx) s) :
    ∃ w, g.Reaches kx w ∧ w.scene = s := by
  induction plays with
  | rest => exact ⟨g.world, .refl, rfl⟩
  | @next _ i input plays allowed ih =>
    obtain ⟨w, reaches, rfl⟩ := ih
    have allowed' : w.Allows i input := by
      cases input with
      | datagram bytes source =>
        obtain ⟨started, d, sent, from_, encoded, target⟩ := allowed
        have short := g.short_of_plays own deals plays d sent
        exact ⟨started, encoded ▸ short, d, sent, from_, encoded, target⟩
      | _ => exact allowed
    have next : g.Reaches kx (w.react kx i input) := reaches.tail ⟨i, input, allowed', rfl⟩
    refine ⟨_, next, World.scene_react ?_⟩
    have after := next.sound.endpoint i
    rw [World.react, World.act_self] at after
    exact after.trans (reaches.sound.endpoint i).symm

/-- Star members keep their endpoints, and what they say is short. -/
theorem Roster.starPlays {s : Scene Star n}
    (plays : g.starWorld.scene.Plays (Star.protocol kx) s) :
    (∀ i, (s.members i).Orderly (g.config i) PublicValue.OnCurve ∧
      (s.members i).endpoint = g.endpoint i) ∧
      ∀ d ∈ s.sent, d.message.encode.length < 2 ^ 32 := by
  refine plays.upholds (Q := fun m ↦ m.encode.length < 2 ^ 32)
    (P := fun i m ↦ m.Orderly (g.config i) PublicValue.OnCurve ∧ m.endpoint = g.endpoint i)
    (fun i ↦ ⟨⟨rfl, own i, by simp [starWorld, StarWorld.scene, starMember],
      by simp [starWorld, StarWorld.scene, starMember],
      by simp [starWorld, StarWorld.scene, starMember]⟩, rfl⟩) rfl fun ⟨orderly, same⟩ outer ↦ ?_
  have kept : Protocol.Upholds _ _ ((Star.protocol kx).step _ _) := orderly.step outer
  exact ⟨⟨kept.member, (Star.endpoint_step outer orderly.source).trans same⟩,
    fun o here ↦ (kept.messages o here).short⟩

/-- Every scene that follows from the first one is that of a world of star members. -/
theorem Roster.exists_starWorld {s : Scene Star n}
    (plays : g.starWorld.scene.Plays (Star.protocol kx) s) :
    ∃ w, g.StarReaches kx w ∧ w.scene = s := by
  induction plays with
  | rest => exact ⟨g.starWorld, .refl, rfl⟩
  | @next _ i input plays allowed ih =>
    obtain ⟨w, reaches, rfl⟩ := ih
    obtain ⟨members, short⟩ := g.starPlays own plays
    have allowed' : w.Allows i input := by
      cases input with
      | datagram bytes source =>
        obtain ⟨-, d, sent, from_, encoded, target⟩ := allowed
        exact ⟨encoded ▸ short d sent, d, sent, from_, encoded, target⟩
      | _ => exact allowed
    exact ⟨_, reaches.tail ⟨i, input, allowed', rfl⟩,
      StarWorld.scene_react (Star.endpoint_step allowed.outer (members i).1.source)⟩

end Lifts

end Worlds

/-! ## Simulated groups -/

namespace Network

variable {σ : Type} {n : Nat}

/-- Nodes around members that were just made, before anything has happened. -/
structure Fresh (members : Fin n → σ) (w : Network σ) : Prop where
  length : w.nodes.length = n
  nodes : ∀ (i : Fin n) (node : Node σ), w.nodes[i.val]? = some node →
    ∃ t : Turn σ, t.member = members i ∧ node = Node.ofTurn t
  queue : w.queue = []
  log : w.log = []

theorem Fresh.shows [Busy σ] {lapsed : σ → Task → Prop} {s : Scene σ n} {w : Network σ}
    (fresh : w.Fresh s.members) (idle : ∀ i, (Busy.agenda (s.members i)).armed = [])
    (silent : s.sent = []) : w.Shows lapsed (fun _ ↦ []) s := by
  refine ⟨⟨fresh.length, fun i node here ↦ ?_⟩, by simp [fresh.queue], by simp [fresh.log, silent]⟩
  obtain ⟨t, member, rfl⟩ := fresh.nodes i node here
  have none : (Busy.agenda t.member).armed = [] := member ▸ idle i
  have inStep := Host.inStep_ofTurn none 0
  exact ⟨member, fun _ ↦ Node.awake_of_inStep ⟨inStep.single, inStep.agree, by simp, by simp⟩⟩

variable {g : Roster (Fin n)} {kx : KeyExchange}

/-- A simulated group of chained members, in any weather, shows a world that it can get to. -/
theorem chains_live_in_world (deals : kx.Deals PublicValue.OnCurve)
    (own : ∀ i, (g.publicValue i).OnCurve) {net : Network Chain} (fresh : net.Fresh g.member)
    (weather : Weather) (steps : Nat) :
    ∃ w, g.Reaches kx w ∧
      ((net.start (Chain.protocol kx)).run (Chain.protocol kx) weather steps).2.Shows
        Chain.Lapsed (fun _ ↦ []) w.scene := by
  have shows : net.Shows Chain.Lapsed (fun _ ↦ []) g.world.scene :=
    Fresh.shows fresh (fun _ ↦ rfl) rfl
  obtain ⟨s, plays, -, after⟩ := run_shows (Chain.punctual kx) (Chain.tolerant kx) shows
    (fun i ↦ List.not_mem_nil) weather steps
  obtain ⟨w, reaches, rfl⟩ := g.exists_world own deals plays
  exact ⟨w, reaches, after⟩

/-- So does a simulated group of star members. -/
theorem stars_live_in_world (own : ∀ i, (g.publicValue i).OnCurve) {net : Network Star}
    (fresh : net.Fresh g.starMember) (weather : Weather) (steps : Nat) :
    ∃ w, g.StarReaches kx w ∧
      ((net.start (Star.protocol kx)).run (Star.protocol kx) weather steps).2.Shows
        (fun _ _ ↦ False) (fun _ ↦ []) w.scene := by
  have shows : net.Shows (fun _ _ ↦ False) (fun _ ↦ []) g.starWorld.scene :=
    Fresh.shows fresh (fun _ ↦ rfl) rfl
  obtain ⟨s, plays, -, after⟩ := run_shows (Star.punctual kx) (Star.tolerant kx) shows
    (fun i ↦ List.not_mem_nil) weather steps
  obtain ⟨w, reaches, rfl⟩ := g.exists_starWorld own plays
  exact ⟨w, reaches, after⟩

/-- Whatever is made of a whole list is made of each of its items. -/
theorem forall₂_of_mapM_eq_ok {ε α β : Type} {f : α → Except ε β} {xs : List α} {ys : List β}
    (made : xs.mapM f = .ok ys) : List.Forall₂ (fun x y ↦ f x = .ok y) xs ys := by
  induction xs generalizing ys with
  | nil =>
    cases made
    exact .nil
  | cons x xs ih =>
    rw [List.mapM_cons] at made
    cases first : f x with
    | error e => simp [first, bind, Except.bind] at made
    | ok y =>
      cases others : xs.mapM f with
      | error e => simp [first, others, bind, Except.bind] at made
      | ok rest =>
        simp only [first, others, bind, Except.bind, pure, Except.pure, Except.ok.injEq] at made
        subst made
        exact .cons first (ih others)

theorem onCurve_draw (r : Random) : (KeyPair.draw r).1.publicValue.OnCurve := onCurve_ofBytes _

theorem publicOf_draw (r : Random) :
    x25519.publicOf (KeyPair.draw r).1.secret = .ok (KeyPair.draw r).1.publicValue := by
  have whole : X25519.checkSecret (KeyPair.draw r).1.secret = .ok () :=
    if_pos (Random.length_nextBytes _ _)
  change X25519.publicOf (KeyPair.draw r).1.secret = _
  rw [X25519.publicOf, whole]
  rfl

theorem numberedEndpoint_injective {i j : Nat} (left : i < UInt16.size) (right : j < UInt16.size)
    (same : numberedEndpoint i = numberedEndpoint j) : i = j := by
  have ports : UInt16.ofNat (50000 + i) = UInt16.ofNat (50000 + j) := congrArg Endpoint.port same
  have words := congrArg UInt16.toNat ports
  rw [UInt16.toNat_ofNat', UInt16.toNat_ofNat'] at words
  unfold UInt16.size at left right
  omega

end Network

/-- The group of some numbered nodes whose configurations are accepted. -/
def Roster.numbered (config : MemberConfig) (n seed : Nat) (several : 2 ≤ config.memberCount.toNat)
    (few : n < UInt16.size)
    (accepted : ∀ i : Fin (n + 1), (numberedConfig config i).validate = .ok ()) :
    Roster (Fin (n + 1)) where
  service := config.service
  memberCount := config.memberCount
  opener := 0
  config i := numberedConfig config i
  endpoint i := numberedEndpoint i
  keys i := (numberedDraw seed i).1
  random i := (numberedDraw seed i).2
  two_le := several
  service_eq _ := rfl
  memberCount_eq _ := rfl
  sponsor_iff i := by
    rw [numberedConfig, beq_iff_eq]
    exact Fin.val_eq_zero_iff
  accepted := accepted
  endpoint_injective i j same := Fin.ext
    (Network.numberedEndpoint_injective (by omega) (by omega) same)

namespace Network

variable {σ : Type} {config : MemberConfig} {n seed : Nat} {dice : Dice}

/-- Each node of a numbered group was made for itself, and nothing has happened yet. -/
theorem numbered_eq_ok {create : Protocol.Creation σ} {net : Network σ}
    (made : numbered create config n seed dice = .ok net) :
    (net.nodes.length = n ∧ net.queue = [] ∧ net.log = []) ∧
      ∀ i : Fin n, ∃ t, net.nodes[i.val]? = some (Node.ofTurn t) ∧
        create (numberedConfig config i) (numberedEndpoint i) (numberedDraw seed i).1
          (numberedDraw seed i).2 = .ok t := by
  unfold numbered at made
  generalize created : List.mapM (m := Except ConfigError) _ (List.range n) = turns at made
  cases turns with
  | error e => cases made
  | ok turns =>
    cases made
    obtain ⟨length, each⟩ := List.forall₂_iff_get.mp (forall₂_of_mapM_eq_ok created)
    rw [List.length_range] at length
    refine ⟨⟨by rw [List.length_map, ← length], rfl, rfl⟩, fun i ↦ ?_⟩
    have inside : i.val < turns.length := length ▸ i.isLt
    have own := each i.val (by simp) inside
    rw [List.get_eq_getElem, List.getElem_range] at own
    exact ⟨_, by rw [List.getElem?_map, List.getElem?_eq_getElem inside]; rfl, own⟩

theorem fresh_of_numbered {create : Protocol.Creation σ} {net : Network σ} {members : Fin n → σ}
    (made : numbered create config n seed dice = .ok net)
    (member : ∀ (i : Fin n) (t : Turn σ), create (numberedConfig config i) (numberedEndpoint i)
      (numberedDraw seed i).1 (numberedDraw seed i).2 = .ok t → t.member = members i) :
    net.Fresh members := by
  obtain ⟨⟨length, queue, log⟩, each⟩ := numbered_eq_ok made
  refine ⟨length, fun i node here ↦ ?_, queue, log⟩
  obtain ⟨t, known, own⟩ := each i
  exact ⟨t, member i t own, Option.some.inj (here.symm.trans known)⟩

section Numbered

variable (several : 2 ≤ config.memberCount.toNat) (few : n < UInt16.size)

include several few

/-- The nodes of a numbered group were made for the members of a roster, whose public values match
the secrets that were drawn. -/
theorem exists_roster {create : Protocol.Creation σ} {net : Network σ}
    (accepts : ∀ {c : MemberConfig} {endpoint : Endpoint} {keys : KeyPair} {random : Random}
      {t : Turn σ}, create c endpoint keys random = .ok t → c.validate = .ok ())
    (made : numbered create config (n + 1) seed dice = .ok net) :
    ∃ g : Roster (Fin (n + 1)), g.KeysMatch x25519 ∧ (∀ i, (g.publicValue i).OnCurve) ∧
      (∀ i, g.config i = numberedConfig config i ∧ g.endpoint i = numberedEndpoint i) ∧
      ∀ members : Fin (n + 1) → σ, (∀ i t, create (g.config i) (g.endpoint i) (g.keys i)
        (g.random i) = .ok t → t.member = members i) → net.Fresh members := by
  have accepted (i : Fin (n + 1)) : (numberedConfig config i).validate = .ok () := by
    obtain ⟨t, -, own⟩ := (numbered_eq_ok made).2 i
    exact accepts own
  exact ⟨.numbered config n seed several few accepted, fun i ↦ publicOf_draw _,
    fun i ↦ onCurve_draw _, fun i ↦ ⟨rfl, rfl⟩, fun members member ↦ fresh_of_numbered made member⟩

/-- A numbered group of chained members, however it is simulated, gets to a world of a roster with
its configurations, its endpoints and public values that match the drawn secrets. -/
theorem numbered_chains_live_in_world {net : Network Chain}
    (made : numbered Chain.create config (n + 1) seed dice = .ok net) :
    ∃ g : Roster (Fin (n + 1)), g.KeysMatch x25519 ∧
      (∀ i, g.config i = numberedConfig config i ∧ g.endpoint i = numberedEndpoint i) ∧
      ∀ weather steps, ∃ w, g.Reaches x25519 w ∧
        ((net.start (Chain.protocol x25519)).run (Chain.protocol x25519) weather steps).2.Shows
          Chain.Lapsed (fun _ ↦ []) w.scene := by
  obtain ⟨g, matched, own, same, fresh⟩ :=
    exists_roster several few (fun created ↦ (Chain.create_member created).1) made
  have members : net.Fresh g.member := fresh _ fun i t created ↦ (Chain.create_member created).2
  exact ⟨g, matched, same, chains_live_in_world x25519_deals own members⟩

/-- The same holds of a numbered group of star members. -/
theorem numbered_stars_live_in_world {net : Network Star}
    (made : numbered Star.create config (n + 1) seed dice = .ok net) :
    ∃ g : Roster (Fin (n + 1)), g.KeysMatch x25519 ∧
      (∀ i, g.config i = numberedConfig config i ∧ g.endpoint i = numberedEndpoint i) ∧
      ∀ weather steps, ∃ w, g.StarReaches x25519 w ∧
        ((net.start (Star.protocol x25519)).run (Star.protocol x25519) weather steps).2.Shows
          (fun _ _ ↦ False) (fun _ ↦ []) w.scene := by
  obtain ⟨g, matched, own, same, fresh⟩ :=
    exists_roster several few (fun created ↦ (MemberConfig.accepted_of_eq_ok created).1) made
  have members : net.Fresh g.starMember := fresh _ fun i t created ↦ Star.create_member created
  exact ⟨g, matched, same, stars_live_in_world own members⟩

/-- In every simulated run of a numbered group, whoever knows the group secret knows the same one,
provided that two sides of an exchange agree. -/
theorem simulated_secrets_agree (commutes : x25519.Commutes) (weather : Weather) (steps : Nat) :
    (∀ net, numbered Chain.create config (n + 1) seed dice = .ok net →
      ∀ left ∈ ((net.start (Chain.protocol x25519)).run (Chain.protocol x25519) weather
        steps).2.nodes,
      ∀ right ∈ ((net.start (Chain.protocol x25519)).run (Chain.protocol x25519) weather
        steps).2.nodes,
      ∀ K L, left.member.groupSecret? = some K → right.member.groupSecret? = some L → K = L) ∧
    ∀ net, numbered Star.create config (n + 1) seed dice = .ok net →
      ∀ left ∈ ((net.start (Star.protocol x25519)).run (Star.protocol x25519) weather
        steps).2.nodes,
      ∀ right ∈ ((net.start (Star.protocol x25519)).run (Star.protocol x25519) weather
        steps).2.nodes,
      ∀ K L, left.member.groupSecret? = some K → right.member.groupSecret? = some L → K = L := by
  refine ⟨fun net made left here right there K L known other ↦ ?_,
    fun net made left here right there K L known other ↦ ?_⟩
  · obtain ⟨g, matched, -, lives⟩ := numbered_chains_live_in_world several few made
    obtain ⟨w, reaches, shows⟩ := lives weather steps
    obtain ⟨i, member⟩ := shows.houses.exists_member here
    obtain ⟨j, member'⟩ := shows.houses.exists_member there
    rw [member] at known
    rw [member'] at other
    obtain ⟨order, agreement⟩ := reaches.inAgreement commutes matched
    exact (agreement.groupSecret reaches.sound known).unique
      (fun _ _ _ one two ↦ one.member_eq two) (agreement.groupSecret reaches.sound other)
  · obtain ⟨g, matched, -, lives⟩ := numbered_stars_live_in_world several few made
    obtain ⟨w, reaches, shows⟩ := lives weather steps
    obtain ⟨i, member⟩ := shows.houses.exists_member here
    obtain ⟨j, member'⟩ := shows.houses.exists_member there
    rw [member] at known
    rw [member'] at other
    have sound := reaches.sound commutes matched
    have same := ((sound.placed i).secret K known).symm.trans ((sound.placed j).secret L other)
    exact Option.some.inj same

end Numbered

end Network

end GroupKey
