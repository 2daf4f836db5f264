import GroupKey.Network
import GroupKey.Proofs.Deadlines
import GroupKey.Proofs.Exposure
import GroupKey.Proofs.World

/-!
# What a simulated network shows

The simulated network keeps members in nodes, datagrams in a queue and a clock, and leaves loss,
copies and order to dice.  All that matters to the members is a scene: their states and what was
sent.  Every step of the network is a sequence of inputs that the scene allows.  The nodes keep
deadlines for the tasks of their members, so a deadline never comes for a task that is not armed,
unless an earlier one of the same moment has made it pointless.
-/

namespace GroupKey

/-- The members of a group, everything that was ever sent, and who was started. -/
structure Scene (σ : Type) (n : Nat) where
  members : Fin n → σ
  sent : List Dispatch
  started : Fin n → Prop

/-- Deadlines that come together do not get into each other's way: a task that one of them takes off
the agenda has lapsed, so its own deadline does nothing. -/
structure Protocol.Tolerant {σ : Type} [Busy σ] (p : Protocol σ) (lapsed : σ → Task → Prop) :
    Prop where
  kept : ∀ (m : σ) {task other : Task}, other ≠ task → (Busy.agenda m).isArmed other = true →
    (Busy.agenda (p.step (.timer task) m).member).isArmed other = true ∨
      lapsed (p.step (.timer task) m).member other
  stays : ∀ {m : σ} (task : Task) {other : Task}, lapsed m other →
    lapsed (p.step (.timer task) m).member other
  idle : ∀ {m : σ} {task : Task}, lapsed m task → (Busy.agenda m).isArmed task = false →
    p.step (.timer task) m = { member := m }

namespace Scene

variable {σ : Type} {n : Nat} (p : Protocol σ)

/-- Puts a member into the state after a turn, and what it said on the network. -/
def act (s : Scene σ n) (i : Fin n) (t : Turn σ) : Scene σ n :=
  { s with
    members := Function.update s.members i t.member
    sent := s.sent ++ t.outgoing.map fun o ↦ ⟨p.endpoint t.member, o.target, o.message⟩ }

/-- One member reacts to one input. -/
def react (s : Scene σ n) (i : Fin n) (input : Input) : Scene σ n :=
  { s.act p i (p.step input (s.members i)) with
    started := fun j ↦ s.started j ∨ input = .start ∧ j = i }

/-- Which inputs may be given to a member: one start, deadlines of its tasks, and once it was
started what was sent to it or to everybody. -/
def Allows [Busy σ] (s : Scene σ n) (i : Fin n) : Input → Prop
  | .start => ¬ s.started i
  | .timer task => (Busy.agenda (s.members i)).isArmed task = true
  | .message _ _ => False
  | .datagram bytes source => s.started i ∧ ∃ d ∈ s.sent, d.source = source ∧
      d.message.encode = bytes ∧ (d.target = none ∨ d.target = some (p.endpoint (s.members i)))

/-- The scenes that follow from a scene. -/
inductive Plays [Busy σ] (first : Scene σ n) : Scene σ n → Prop
  | rest : Plays first first
  | next {s : Scene σ n} {i : Fin n} {input : Input} (plays : Plays first s)
    (allowed : s.Allows p i input) : Plays first (s.react p i input)

variable {p}

section Act

variable {s : Scene σ n} {i j : Fin n} {t : Turn σ}

theorem act_self : (s.act p i t).members i = t.member := Function.update_self i _ s.members

theorem act_of_ne (other : j ≠ i) : (s.act p i t).members j = s.members j :=
  Function.update_of_ne other _ s.members

theorem act_rest : s.act p i { member := s.members i } = s := by
  simp [act, Turn.outgoing]

theorem mem_act_sent {d : Dispatch} : d ∈ (s.act p i t).sent ↔
    d ∈ s.sent ∨ ∃ o ∈ t.outgoing, d = ⟨p.endpoint t.member, o.target, o.message⟩ := by
  simp [act, eq_comm]

end Act

theorem Allows.outer [Busy σ] {s : Scene σ n} {i : Fin n} {input : Input}
    (allowed : s.Allows p i input) : Protocol.Outer (fun _ ↦ True) input := by
  cases input with
  | message m source => exact allowed
  | _ => trivial

/-- What each step keeps of its member, and what it says, holds in all scenes that follow. -/
theorem Plays.upholds [Busy σ] {first s : Scene σ n} {P : Fin n → σ → Prop}
    {Q : Message → Prop} (plays : first.Plays p s) (start : ∀ i, P i (first.members i))
    (silent : first.sent = [])
    (step : ∀ {i : Fin n} {m : σ} {input : Input}, P i m → Protocol.Outer (fun _ ↦ True) input →
      Protocol.Upholds (P i) Q (p.step input m)) :
    (∀ i, P i (s.members i)) ∧ ∀ d ∈ s.sent, Q d.message := by
  induction plays with
  | rest => exact ⟨start, by simp [silent]⟩
  | @next s i input _ allowed ih =>
    obtain ⟨members, sent⟩ := ih
    have upheld := step (members i) allowed.outer
    refine ⟨fun j ↦ ?_, fun d here ↦ ?_⟩
    · change P j ((s.act p i (p.step input (s.members i))).members j)
      by_cases same : j = i
      · subst same
        rw [act_self]
        exact upheld.member
      · rw [act_of_ne same]
        exact members j
    · have here' : d ∈ (s.act p i (p.step input (s.members i))).sent := here
      rcases mem_act_sent.mp here' with old | ⟨o, new, rfl⟩
      · exact sent d old
      · exact upheld.messages o new

/-- A packet carries a message that was sent. -/
def Carries (s : Scene σ n) (packet : Packet) : Prop :=
  ∃ d ∈ s.sent, d.source = packet.source ∧ d.target = packet.target ∧
    d.message.encode = packet.bytes

theorem Carries.act {s : Scene σ n} {packet : Packet} (carried : s.Carries packet) (i : Fin n)
    (t : Turn σ) : (s.act p i t).Carries packet := by
  obtain ⟨d, sent, same⟩ := carried
  exact ⟨d, mem_act_sent.mpr (.inl sent), same⟩

end Scene

/-! ## Nodes -/

theorem Host.Meanwhile.trans {σ : Type} {h k l : Host σ} (first : Meanwhile h k)
    (second : Meanwhile k l) : Meanwhile h l :=
  ⟨second.member.trans first.member, second.scheduler.trans first.scheduler,
    second.running.trans first.running⟩

theorem Host.Performs.after {σ : Type} {h k l : Host σ} {es : List Effect}
    (meanwhile : Meanwhile h k) (performs : Performs k es l) : Performs h es l := by
  cases performs with
  | rest later => exact .rest (meanwhile.trans later)
  | next later performs => exact .next (meanwhile.trans later) performs

namespace Node

variable {σ : Type} {now : Nat} {node : Node σ} {t : Turn σ}

/-- A node seen as a host. -/
def host (now : Nat) (node : Node σ) : Host σ :=
  { member := node.member, scheduler := node.scheduler, now, running := !node.done }

theorem done_of_perform {e : Effect} (running : (node.perform now e).done = false) :
    node.done = false := by
  cases e with
  | terminate => cases running
  | _ => exact running

/-- A node that runs after a turn ran before it. -/
theorem done_of_carryOut (running : (node.carryOut now t).done = false) : node.done = false := by
  have kept (es : List Effect) (node : Node σ)
      (running : (es.foldl (perform now) node).done = false) : node.done = false := by
    induction es generalizing node with
    | nil => exact running
    | cons e es ih => exact done_of_perform (ih _ running)
  have before := kept t.effects _ running
  exact before

theorem member_carryOut : (node.carryOut now t).member = t.member := by
  have kept (es : List Effect) (node : Node σ) :
      (es.foldl (perform now) node).member = node.member := by
    induction es generalizing node with
    | nil => rfl
    | cons e es ih =>
      rw [List.foldl_cons, ih]
      cases e <;> rfl
  exact kept t.effects _

/-- What a node makes of an effect is what a host makes of it, as far as its member and its
deadlines are concerned. -/
theorem meanwhile_perform (now : Nat) (node : Node σ) (e : Effect) :
    Host.Meanwhile ((node.host now).perform e) ((node.perform now e).host now) := by
  cases e with
  | emit event =>
    obtain ⟨events, published⟩ := Host.publish_frame (node.host now) event
    change Host.Meanwhile ((node.host now).publish event) (node.host now)
    rw [published]
    exact ⟨rfl, rfl, rfl⟩
  | _ => exact ⟨rfl, rfl, rfl⟩

theorem carriesOut (now : Nat) (node : Node σ) (t : Turn σ) :
    (node.host now).CarriesOut t ((node.carryOut now t).host now) := by
  have performs (es : List Effect) (node : Node σ) :
      Host.Performs (node.host now) es ((es.foldl (perform now) node).host now) := by
    induction es generalizing node with
    | nil => exact .rest (.refl _)
    | cons e es ih => exact .next (.refl _) ((ih _).after (meanwhile_perform now node e))
  exact performs t.effects
    { node with
      member := t.member, recorder := node.recorder.recordAll now.toUInt64 t.measurements }

variable [Busy σ]

/-- The deadlines of a node that still runs are those of its member's tasks, apart from the tasks
that are due: these are armed or have lapsed. -/
structure Awake (lapsed : σ → Task → Prop) (due : List Task) (node : Node σ) : Prop where
  inStep : (node.host 0).InStep due
  distinct : due.Nodup
  pending : ∀ task ∈ due,
    (Busy.agenda node.member).isArmed task = true ∨ lapsed node.member task

/-- A node that holds a member in the given state. -/
structure Holds (lapsed : σ → Task → Prop) (due : List Task) (m : σ) (node : Node σ) : Prop where
  member : node.member = m
  awake : node.done = false → node.Awake lapsed due

theorem inStep_host {due : List Task} (now later : Nat) (inStep : (node.host now).InStep due) :
    (node.host later).InStep due :=
  ⟨inStep.single, inStep.agree, inStep.taken, inStep.armed⟩

variable {lapsed : σ → Task → Prop} {task : Task} {due : List Task}

theorem awake_of_inStep (inStep : (node.host 0).InStep []) : node.Awake lapsed [] :=
  ⟨inStep, List.nodup_nil, by simp⟩

/-- When deadlines come, all tasks that are due are armed. -/
theorem Awake.popExpired (awake : node.Awake lapsed []) (now : Nat) :
    ({ node with scheduler := (node.scheduler.popExpired now).2 } : Node σ).Awake lapsed
      (node.scheduler.popExpired now).1 := by
  refine ⟨awake.inStep.popExpired now, awake.inStep.single.nodup_popExpired now,
    fun task here ↦ .inl ?_⟩
  have armed := awake.inStep.agree task List.not_mem_nil
  obtain ⟨d, known, -, same⟩ := Scheduler.mem_popExpired.mp here
  exact armed.symm.trans (Scheduler.isArmed_eq_true_iff.mpr ⟨d, known, same⟩)

variable [Terminable σ] [Configured σ] {p : Protocol σ} (punctual : p.Punctual)

include punctual

/-- A turn that is not caused by a deadline leaves the deadlines in step. -/
theorem Awake.turn (awake : node.Awake lapsed []) (now : Nat) (input : Input)
    (opening : Turn.opening input node.member = { member := node.member }) :
    (node.carryOut now (p.step input node.member)).Awake lapsed [] :=
  awake_of_inStep (inStep_host now 0
    ((inStep_host 0 now awake.inStep).turn punctual input opening (carriesOut now node _)))

/-- One of the due tasks is run, and the others are still armed or have lapsed. -/
theorem Awake.fire (tolerant : p.Tolerant lapsed) (awake : node.Awake lapsed (task :: due))
    (now : Nat) : (node.carryOut now (p.step (.timer task) node.member)).Awake lapsed due := by
  obtain ⟨fresh, distinct⟩ := List.nodup_cons.mp awake.distinct
  have inStep := (inStep_host 0 now awake.inStep).fire punctual fresh (carriesOut now node _)
  refine ⟨inStep_host now 0 inStep, distinct, fun other here ↦ ?_⟩
  have different : other ≠ task := by
    rintro rfl
    exact fresh here
  rw [member_carryOut]
  rcases awake.pending other (List.mem_cons_of_mem _ here) with armed | lapsed
  · exact tolerant.kept _ different armed
  · exact .inr (tolerant.stays task lapsed)

end Node

/-! ## Networks -/

/-- A message as it left its sender. -/
def Dispatch.outgoing (d : Dispatch) : Outgoing := ⟨d.target, d.message⟩

/-- What was said in a turn that is on the log. -/
def LogEntry.said (e : LogEntry) : List Outgoing := e.effects.filterMap Effect.outgoing?

namespace Network

variable {σ : Type} [Busy σ] {n : Nat}

/-- Every member has its node, while some of its tasks are due. -/
structure Houses (lapsed : σ → Task → Prop) (due : Fin n → List Task) (members : Fin n → σ)
    (nodes : List (Node σ)) : Prop where
  length : nodes.length = n
  holds : ∀ (i : Fin n) (node : Node σ), nodes[i.val]? = some node →
    node.Holds lapsed (due i) (members i)

/-- A network shows a scene while some tasks are due: its nodes hold the members, its packets carry
messages that were sent, and its log says what was sent in which order. -/
structure Shows (lapsed : σ → Task → Prop) (due : Fin n → List Task) (s : Scene σ n)
    (w : Network σ) : Prop where
  houses : Houses lapsed due s.members w.nodes
  queue : ∀ packet ∈ w.queue, s.Carries packet
  log : w.log.reverse.flatMap LogEntry.said = s.sent.map Dispatch.outgoing

variable {lapsed : σ → Task → Prop} {due : Fin n → List Task} {members : Fin n → σ}
  {nodes : List (Node σ)} {p : Protocol σ} {s : Scene σ n} {w : Network σ} {i : Fin n} {m : σ}
  {node : Node σ} {t : Turn σ}

theorem Houses.exists_node (houses : Houses lapsed due members nodes) (i : Fin n) :
    ∃ node, nodes[i.val]? = some node := by
  have inside : i.val < nodes.length := houses.length ▸ i.isLt
  exact ⟨_, List.getElem?_eq_getElem inside⟩

theorem Houses.exists_index (houses : Houses lapsed due members nodes) {k : Nat}
    (here : nodes[k]? = some node) :
    ∃ i : Fin n, i.val = k ∧ node.Holds lapsed (due i) (members i) := by
  have inside : k < n := houses.length ▸ (List.getElem?_eq_some_iff.mp here).1
  exact ⟨⟨k, inside⟩, rfl, houses.holds ⟨k, inside⟩ node here⟩

theorem Houses.exists_member (houses : Houses lapsed due members nodes) (here : node ∈ nodes) :
    ∃ i, node.member = members i := by
  obtain ⟨k, known⟩ := List.mem_iff_getElem?.mp here
  obtain ⟨i, -, holds⟩ := houses.exists_index known
  exact ⟨i, holds.member⟩

/-- One node and its member change together. -/
theorem Houses.set (houses : Houses lapsed due members nodes) {rest : List Task}
    (holds : node.Holds lapsed rest m) :
    Houses lapsed (Function.update due i rest) (Function.update members i m)
      (nodes.set i.val node) := by
  refine ⟨by rw [List.length_set, houses.length], fun j other here ↦ ?_⟩
  by_cases same : j = i
  · subst same
    have inside : j.val < nodes.length := houses.length ▸ j.isLt
    rw [List.getElem?_set_self inside] at here
    cases here
    rw [Function.update_self, Function.update_self]
    exact holds
  · have apart : i.val ≠ j.val := fun equal ↦ same (Fin.ext equal.symm)
    rw [List.getElem?_set_ne apart] at here
    rw [Function.update_of_ne same, Function.update_of_ne same]
    exact houses.holds j other here

/-- Only the tasks that are due at one node change. -/
theorem Houses.redue (houses : Houses lapsed due members nodes) (here : nodes[i.val]? = some node)
    {rest : List Task} (holds : node.Holds lapsed rest (members i)) :
    Houses lapsed (Function.update due i rest) members nodes := by
  have kept := houses.set (i := i) holds
  obtain ⟨inside, rfl⟩ := List.getElem?_eq_some_iff.mp here
  rwa [Function.update_eq_self, List.set_getElem_self inside] at kept

theorem packet?_eq (sender : Nat) (source : Endpoint) (e : Effect) :
    packet? sender source e =
      e.outgoing?.map fun o ↦ ⟨sender, source, o.target, o.message.encode⟩ := by
  cases e <;> rfl

/-- Whatever a turn of one node leads to, the network shows it. -/
theorem Shows.act (shows : w.Shows lapsed due s) (i : Fin n) (cause : Cause) (node : Node σ)
    (t : Turn σ) {rest : List Task}
    (awake : (node.carryOut w.now t).done = false → (node.carryOut w.now t).Awake lapsed rest) :
    (w.act p i.val cause node t).Shows lapsed (Function.update due i rest) (s.act p i t) := by
  refine ⟨shows.houses.set ⟨Node.member_carryOut, awake⟩, fun packet here ↦ ?_, ?_⟩
  · rcases List.mem_append.mp here with old | new
    · exact (shows.queue packet old).act i t
    · obtain ⟨e, left, made⟩ := List.mem_filterMap.mp new
      rw [packet?_eq] at made
      obtain ⟨o, told, rfl⟩ := Option.map_eq_some_iff.mp made
      have outgoing : o ∈ t.outgoing := List.mem_filterMap.mpr ⟨e, left, told⟩
      exact ⟨_, Scene.mem_act_sent.mpr (.inr ⟨o, outgoing, rfl⟩), rfl, rfl, rfl⟩
  · have said : (s.act p i t).sent.map Dispatch.outgoing =
        s.sent.map Dispatch.outgoing ++ t.outgoing := by
      simp [Scene.act, Dispatch.outgoing, Function.comp_def]
    rw [said, ← shows.log, Network.act]
    cases effects : t.effects with
    | nil => simp [Turn.outgoing, effects]
    | cons e es => simp [Turn.outgoing, effects, LogEntry.said]

/-- The network shows a scene that follows from the first one, everybody was started, some tasks are
due, and some packets are being delivered. -/
def Underway (p : Protocol σ) (lapsed : σ → Task → Prop) (first : Scene σ n)
    (due : Fin n → List Task) (air : List Packet) (w : Network σ) : Prop :=
  ∃ s, first.Plays p s ∧ (∀ i, s.started i) ∧ (∀ packet ∈ air, s.Carries packet) ∧
    w.Shows lapsed due s

/-- Only one node has tasks that are due. -/
def only (i : Fin n) (tasks : List Task) : Fin n → List Task := Function.update (fun _ ↦ []) i tasks

theorem only_nil (i : Fin n) : only i [] = fun _ ↦ [] := Function.update_eq_self i _

theorem update_only (i : Fin n) (tasks rest : List Task) :
    Function.update (only i tasks) i rest = only i rest :=
  Function.update_idem _ _ _

variable {first : Scene σ n} {air : List Packet} {packet : Packet}

/-- A reaction that the scene allows leads on to another scene. -/
theorem Underway.react {input : Input} (plays : first.Plays p s) (started : ∀ i, s.started i)
    (carried : ∀ packet ∈ air, s.Carries packet) (allowed : s.Allows p i input)
    (shows : w.Shows lapsed due (s.act p i (p.step input (s.members i)))) :
    Underway p lapsed first due air w :=
  ⟨s.react p i input, plays.next allowed, fun j ↦ .inl (started j),
    fun packet here ↦ (carried packet here).act i _,
    ⟨shows.houses, shows.queue, shows.log⟩⟩

omit [Busy σ] in
/-- Only the queue and the dice change when a packet is taken out. -/
theorem take?_eq_some {weather : Weather} {v : Network σ}
    (taken : w.take? weather = some (packet, v)) :
    ∃ k dice, w.queue[k]? = some packet ∧ v = { w with queue := w.queue.eraseIdx k, dice } := by
  unfold Network.take? at taken
  split at taken
  next k dice _ =>
    obtain ⟨_, queued, made⟩ := Option.map_eq_some_iff.mp taken
    obtain ⟨rfl, rfl⟩ := Prod.mk.inj made
    exact ⟨k, dice, queued, rfl⟩

section Steps

variable [Terminable σ] [Configured σ] (punctual : p.Punctual) (weather : Weather)

include punctual

/-- A packet that reaches a node was sent to it or to everybody. -/
theorem Underway.deliverTo (underway : Underway p lapsed first (fun _ ↦ []) [packet] w) (k : Nat) :
    Underway p lapsed first (fun _ ↦ []) [packet] (w.deliverTo p weather packet k) := by
  obtain ⟨s, plays, started, carried, shows⟩ := underway
  unfold Network.deliverTo
  split
  · exact ⟨s, plays, started, carried, shows⟩
  · next node here =>
    split
    · exact ⟨s, plays, started, carried, shows⟩
    · next heard =>
      obtain ⟨i, rfl, holds⟩ := shows.houses.exists_index here
      obtain ⟨running, addressed⟩ : node.done = false ∧
          (packet.target = none ∨ packet.target = some (p.endpoint node.member)) := by
        cases target : packet.target <;> simp_all
      generalize w.dice.happens weather.drop = fate
      obtain ⟨lost, dice⟩ := fate
      have shaken : ({ w with dice } : Network σ).Shows lapsed (fun _ ↦ []) s :=
        ⟨shows.houses, shows.queue, shows.log⟩
      dsimp only
      split
      · exact ⟨s, plays, started, carried, shaken⟩
      · obtain ⟨d, sent, source, target, bytes⟩ := carried packet (List.mem_singleton_self _)
        have allowed : s.Allows p i (.datagram packet.bytes packet.source) :=
          ⟨started i, d, sent, source, bytes, by rwa [target, ← holds.member]⟩
        have acted := shaken.act (p := p) i
          (.received packet.sender ((packet.bytes.head?.map UInt8.toNat).getD 0)) node
          (p.step (.datagram packet.bytes packet.source) node.member) fun _ ↦
            (holds.awake running).turn punctual w.now _ rfl
        rw [← only, only_nil, holds.member] at acted
        rw [holds.member]
        exact .react plays started carried allowed acted

/-- The packet stays known while it is handed to one node after the other. -/
theorem Underway.deliver (underway : Underway p lapsed first (fun _ ↦ []) [packet] w) :
    Underway p lapsed first (fun _ ↦ []) [] (w.deliver p weather packet) := by
  obtain ⟨s, plays, started, carried, shows⟩ := underway
  have known := carried packet (List.mem_singleton_self _)
  unfold Network.deliver
  generalize w.dice.happens weather.duplicate = fate
  obtain ⟨copied, dice⟩ := fate
  dsimp only
  have ready : Underway p lapsed first (fun _ ↦ []) [packet]
      { w with dice, queue := if copied then w.queue ++ [packet] else w.queue } := by
    refine ⟨s, plays, started, carried, shows.houses, fun other here ↦ ?_, shows.log⟩
    change other ∈ (if copied = true then w.queue ++ [packet] else w.queue) at here
    split at here
    · rcases List.mem_append.mp here with old | new
      · exact shows.queue other old
      · exact List.mem_singleton.mp new ▸ known
    · exact shows.queue other here
  obtain ⟨s', plays', started', -, shows'⟩ := List.foldlRecOn
    (motive := Underway p lapsed first (fun _ ↦ []) [packet]) (List.range w.nodes.length)
    (Network.deliverTo p weather packet) ready fun w underway k _ ↦
      underway.deliverTo punctual weather k
  exact ⟨s', plays', started', by simp, shows'⟩

variable (tolerant : p.Tolerant lapsed)

include tolerant

/-- One of the due tasks is run, unless the node is done.  A task that has lapsed is not armed, so
the scene does not allow its deadline, but nothing happens then. -/
theorem Underway.fire {task : Task} {tasks : List Task}
    (underway : Underway p lapsed first (only i (task :: tasks)) air w) :
    Underway p lapsed first (only i tasks) air (w.fire p i.val task) := by
  obtain ⟨s, plays, started, carried, shows⟩ := underway
  obtain ⟨node, here⟩ := shows.houses.exists_node i
  have holds := shows.houses.holds i node here
  rw [only, Function.update_self] at holds
  unfold Network.fire
  rw [here]
  dsimp only
  split
  · next ended =>
    -- A node that is done may hold any deadlines, as none of them is handled any more.
    have holds' : node.Holds lapsed tasks (s.members i) :=
      ⟨holds.member, fun running ↦ absurd ended (by simp [running])⟩
    have rested := shows.houses.redue here holds'
    rw [update_only] at rested
    exact ⟨s, plays, started, carried, rested, shows.queue, shows.log⟩
  · next goes =>
    have awake := holds.awake (by simpa using goes)
    have acted := shows.act (p := p) i (.fired task) node (p.step (.timer task) node.member)
      fun _ ↦ awake.fire punctual tolerant w.now
    have pending := awake.pending task List.mem_cons_self
    rw [update_only, holds.member] at acted
    rw [holds.member] at pending ⊢
    cases armed : (Busy.agenda (s.members i)).isArmed task with
    | true =>
      have allowed : s.Allows p i (.timer task) := armed
      exact .react plays started carried allowed acted
    | false =>
      -- An earlier deadline of the same moment has made this one pointless.
      have nothing := tolerant.idle (pending.resolve_left (by simp [armed])) armed
      rw [nothing, Scene.act_rest] at acted
      rw [nothing]
      exact ⟨s, plays, started, carried, acted⟩

theorem Underway.fireAll {tasks : List Task}
    (underway : Underway p lapsed first (only i tasks) air w) :
    Underway p lapsed first (fun _ ↦ []) air (tasks.foldl (Network.fire p i.val) w) := by
  induction tasks generalizing w with
  | nil =>
    rw [only_nil] at underway
    exact underway
  | cons task tasks ih => exact ih (underway.fire punctual tolerant)

/-- When the clock moves to a deadline, all tasks of one node that are due by then are run. -/
theorem Underway.advanceTo (underway : Underway p lapsed first (fun _ ↦ []) air w) (time k : Nat) :
    Underway p lapsed first (fun _ ↦ []) air (w.advanceTo p time k) := by
  obtain ⟨s, plays, started, carried, shows⟩ := underway
  unfold Network.advanceTo
  dsimp only
  split
  · exact ⟨s, plays, started, carried, shows⟩
  · next node here =>
    obtain ⟨i, rfl, holds⟩ := shows.houses.exists_index here
    have holds' : ({ node with
        scheduler := (node.scheduler.popExpired (max w.now time)).2 } : Node σ).Holds lapsed
          (node.scheduler.popExpired (max w.now time)).1 (s.members i) :=
      ⟨holds.member, fun running ↦ (holds.awake running).popExpired (max w.now time)⟩
    have expired := shows.houses.set (i := i) holds'
    rw [← only, Function.update_eq_self] at expired
    exact Underway.fireAll punctual tolerant
      ⟨s, plays, started, carried, expired, shows.queue, shows.log⟩

theorem Underway.step? {v : Network σ} (underway : Underway p lapsed first (fun _ ↦ []) [] w)
    (goes : w.step? p weather = some v) : Underway p lapsed first (fun _ ↦ []) [] v := by
  obtain ⟨s, plays, started, carried, shows⟩ := underway
  unfold Network.step? at goes
  dsimp only at goes
  split at goes
  · next packet rest taken =>
    cases goes
    obtain ⟨k, dice, queued, rfl⟩ := take?_eq_some taken
    have known := shows.queue packet (List.mem_of_getElem? queued)
    refine Underway.deliver punctual weather ⟨s, plays, started, ?_, shows.houses, ?_, shows.log⟩
    · exact fun other here ↦ List.mem_singleton.mp here ▸ known
    · exact fun other here ↦ shows.queue other (List.mem_of_mem_eraseIdx here)
  · obtain ⟨⟨time, k⟩, -, rfl⟩ := Option.map_eq_some_iff.mp goes
    have ready : Underway p lapsed first (fun _ ↦ []) [] { w with steps := w.steps + 1 } :=
      ⟨s, plays, started, carried, shows.houses, shows.queue, shows.log⟩
    exact ready.advanceTo punctual tolerant time k

/-- A run of the network, of any length and in any weather, goes from scene to scene. -/
theorem Underway.run (underway : Underway p lapsed first (fun _ ↦ []) [] w) (steps : Nat) :
    Underway p lapsed first (fun _ ↦ []) [] (w.run p weather steps).2 := by
  induction steps generalizing w with
  | zero => exact underway
  | succ steps ih =>
    unfold Network.run
    split
    · exact underway
    · split
      · next goes => exact ih (underway.step? punctual weather tolerant goes)
      · obtain ⟨s, plays, started, carried, shows⟩ := underway
        exact ⟨s, plays, started, carried, shows.houses, shows.queue, shows.log⟩

end Steps

variable [Terminable σ] [Configured σ]

/-- The nodes start one after the other, before anything else happens. -/
theorem underway_start (punctual : p.Punctual) (shows : w.Shows lapsed (fun _ ↦ []) first)
    (fresh : ∀ i, ¬ first.started i) :
    Underway p lapsed first (fun _ ↦ []) [] (w.start p) := by
  -- After `k` rounds the first `k` members were started, and no packet was delivered yet.
  have rounds (k : Nat) (part : k ≤ n) : ∃ s, first.Plays p s ∧
      (∀ i, s.started i ↔ i.val < k) ∧
        ((List.range k).foldl (startNode p) w).Shows lapsed (fun _ ↦ []) s := by
    induction k with
    | zero => exact ⟨first, .rest, by simpa using fresh, shows⟩
    | succ k ih =>
      obtain ⟨s, plays, started, shows⟩ := ih (Nat.le_of_succ_le part)
      rw [List.range_succ, List.foldl_concat]
      generalize (List.range k).foldl (startNode p) w = v at shows ⊢
      let i : Fin n := ⟨k, part⟩
      obtain ⟨node, here⟩ := shows.houses.exists_node i
      have holds := shows.houses.holds i node here
      have acted := shows.act (p := p) i .start node (p.step .start node.member) fun running ↦
        (holds.awake (Node.done_of_carryOut running)).turn punctual v.now .start rfl
      have turn : startNode p v k = v.act p i.val .start node (p.step .start node.member) := by
        rw [startNode, here]
      have allowed : s.Allows p i .start := fun already ↦ Nat.lt_irrefl k ((started i).mp already)
      rw [← only, only_nil, holds.member] at acted
      rw [turn, holds.member]
      refine ⟨s.react p i .start, plays.next allowed, fun j ↦ ?_, acted.houses, acted.queue,
        acted.log⟩
      have new : j = i ↔ j.val = k := Fin.ext_iff
      change s.started j ∨ Input.start = .start ∧ j = i ↔ j.val < k + 1
      simp only [started, new, true_and]
      exact Nat.lt_succ_iff_lt_or_eq.symm
  obtain ⟨s, plays, started, shows'⟩ := rounds n (Nat.le_refl n)
  rw [Network.start, shows.houses.length]
  exact ⟨s, plays, fun i ↦ (started i).mpr i.isLt, by simp, shows'⟩

/-- Whatever the weather and the dice, and however long it runs, a network that is started shows a
scene that follows from the first one. -/
theorem run_shows (punctual : p.Punctual) (tolerant : p.Tolerant lapsed)
    (shows : w.Shows lapsed (fun _ ↦ []) first) (fresh : ∀ i, ¬ first.started i)
    (weather : Weather) (steps : Nat) :
    ∃ s, first.Plays p s ∧ (∀ i, s.started i) ∧
      ((w.start p).run p weather steps).2.Shows lapsed (fun _ ↦ []) s := by
  obtain ⟨s, plays, started, -, after⟩ :=
    (underway_start punctual shows fresh).run punctual weather tolerant steps
  exact ⟨s, plays, started, after⟩

end Network

end GroupKey
