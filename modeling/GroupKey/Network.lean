import GroupKey.Protocol
import GroupKey.Statistics.Aggregate

/-!
# A group on a simulated network

Nodes exchange datagrams through a queue that may lose, copy and reorder them, and share one
clock that only moves when the queue is empty.  Chance comes from a small generator, so a run is a
function of its inputs.
-/

namespace GroupKey

/-- How unreliable the network is, in thousandths, and whether it keeps the order. -/
structure Weather where
  drop : Nat := 0
  duplicate : Nat := 0
  shuffle : Bool := false
  deriving DecidableEq, Repr

structure Dice where
  state : UInt64
  deriving DecidableEq, Repr

/-- A number below `bound`. -/
def Dice.roll (d : Dice) (bound : Nat) : Nat × Dice :=
  let state := d.state * 6364136223846793005 + 1442695040888963407
  ((state >>> 33).toNat % bound, ⟨state⟩)

/-- Whether an event of so many thousandths happens. -/
def Dice.happens (d : Dice) (perMille : Nat) : Bool × Dice :=
  let (n, d) := d.roll 1000
  (n < perMille, d)

/-! ## Nodes and datagrams -/

structure Node (σ : Type) where
  member : σ
  recorder : Recorder := .empty
  scheduler : Scheduler := .empty
  done : Bool := false

/-- A node around a member that was just made. -/
def Node.ofTurn {σ : Type} (t : Turn σ) : Node σ :=
  { member := t.member, recorder := Recorder.empty.recordAll 0 t.measurements }

/-- What an effect means for the node itself. -/
def Node.perform {σ : Type} (now : Nat) (n : Node σ) : Effect → Node σ
  | .schedule task delay => { n with scheduler := n.scheduler.arm task now delay }
  | .cancel task => { n with scheduler := n.scheduler.cancel task }
  | .terminate => { n with done := true }
  | _ => n

/-- Puts a node into the state after a turn and carries out the effects. -/
def Node.carryOut {σ : Type} (now : Nat) (n : Node σ) (t : Turn σ) : Node σ :=
  let recorder := n.recorder.recordAll now.toUInt64 t.measurements
  t.effects.foldl (Node.perform now) { n with member := t.member, recorder }

structure Packet where
  sender : Nat
  source : Endpoint
  target : Option Endpoint
  bytes : Bytes
  deriving DecidableEq, Repr

inductive Cause
  | start
  | received (sender : Nat) (code : Nat)
  | fired (task : Task)
  deriving DecidableEq, Repr

/-- One turn in which a node did something. -/
structure LogEntry where
  time : Nat
  node : Nat
  cause : Cause
  effects : List Effect
  deriving DecidableEq, Repr

structure Network (σ : Type) where
  nodes : List (Node σ)
  queue : List Packet := []
  now : Nat := 0
  dice : Dice
  /-- The newest entry first. -/
  log : List LogEntry := []
  steps : Nat := 0

inductive RunEnd
  | done
  | idle
  | outOfSteps
  deriving DecidableEq, Repr

namespace Network

variable {σ : Type}

def packet? (sender : Nat) (source : Endpoint) : Effect → Option Packet
  | .multicast m => some ⟨sender, source, none, m.encode⟩
  | .unicast target m => some ⟨sender, source, some target, m.encode⟩
  | _ => none

/-- Replaces node `i` after a turn, puts what it said into the queue and notes the effects down. -/
def act (p : Protocol σ) (i : Nat) (cause : Cause) (node : Node σ) (t : Turn σ) (w : Network σ) :
    Network σ :=
  { w with
    nodes := w.nodes.set i (node.carryOut w.now t)
    queue := w.queue ++ t.effects.filterMap (packet? i (p.endpoint t.member))
    log := if t.effects.isEmpty then w.log else ⟨w.now, i, cause, t.effects⟩ :: w.log }

def startNode (p : Protocol σ) (w : Network σ) (i : Nat) : Network σ :=
  match w.nodes[i]? with
  | some node => w.act p i .start node (p.step .start node.member)
  | none => w

def start (p : Protocol σ) (w : Network σ) : Network σ :=
  (List.range w.nodes.length).foldl (startNode p) w

/-- Hands a datagram to node `i`, unless it is done, not addressed, or out of luck. -/
def deliverTo (p : Protocol σ) (weather : Weather) (packet : Packet) (w : Network σ) (i : Nat) :
    Network σ :=
  match w.nodes[i]? with
  | none => w
  | some node =>
    if node.done || packet.target.any (fun target ↦ target ≠ p.endpoint node.member) then w
    else
      let (lost, dice) := w.dice.happens weather.drop
      let w := { w with dice }
      if lost then w
      else
        let code := (packet.bytes.head?.map UInt8.toNat).getD 0
        w.act p i (.received packet.sender code) node
          (p.step (.datagram packet.bytes packet.source) node.member)

/-- Takes a datagram out of the queue, the first or any. -/
def take? (weather : Weather) (w : Network σ) : Option (Packet × Network σ) :=
  let (i, dice) := if weather.shuffle then w.dice.roll w.queue.length else (0, w.dice)
  (w.queue[i]?).map fun packet ↦ (packet, { w with queue := w.queue.eraseIdx i, dice })

def deliver (p : Protocol σ) (weather : Weather) (packet : Packet) (w : Network σ) : Network σ :=
  let (copied, dice) := w.dice.happens weather.duplicate
  let queue := if copied then w.queue ++ [packet] else w.queue
  (List.range w.nodes.length).foldl (deliverTo p weather packet) { w with dice, queue }

/-- The node that is due first and when; of several the first one. -/
def nextDue? (w : Network σ) : Option (Nat × Nat) :=
  let dues := w.nodes.zipIdx.filterMap fun (node, i) ↦
    if node.done then none else node.scheduler.next?.map fun due ↦ (due, i)
  dues.foldl (fun best x ↦ match best with
    | none => some x
    | some b => if x.1 < b.1 then some x else some b) none

def fire (p : Protocol σ) (i : Nat) (w : Network σ) (task : Task) : Network σ :=
  match w.nodes[i]? with
  | none => w
  | some node =>
    if node.done then w else w.act p i (.fired task) node (p.step (.timer task) node.member)

/-- Moves the clock to a deadline and runs what is due at that node. -/
def advanceTo (p : Protocol σ) (due i : Nat) (w : Network σ) : Network σ :=
  let now := max w.now due
  match w.nodes[i]? with
  | none => w
  | some node =>
    let (tasks, scheduler) := node.scheduler.popExpired now
    tasks.foldl (fire p i) { w with now, nodes := w.nodes.set i { node with scheduler } }

/-- One step, or nothing if nobody has anything left to do. -/
def step? (p : Protocol σ) (weather : Weather) (w : Network σ) : Option (Network σ) :=
  let w := { w with steps := w.steps + 1 }
  match w.take? weather with
  | some (packet, w) => some (w.deliver p weather packet)
  | none => w.nextDue?.map fun (due, i) ↦ w.advanceTo p due i

def run (p : Protocol σ) (weather : Weather) : (steps : Nat) → Network σ → RunEnd × Network σ
  | 0, w => (.outOfSteps, w)
  | steps + 1, w =>
    if w.nodes.all Node.done then (.done, w)
    else match w.step? p weather with
      | some w => run p weather steps w
      | none => (.idle, { w with steps := w.steps + 1 })

/-- The counters of all nodes together. -/
def aggregate (memberCount : UInt16) (w : Network σ) : Aggregate :=
  (Aggregate.empty memberCount).absorbAll
    (w.nodes.map fun n ↦ { n.recorder.snapshot with times := .empty })

end Network

/-! ## Groups on one network -/

/-- Numbered nodes have endpoints of their own. -/
def numberedEndpoint (i : Nat) : Endpoint :=
  ⟨⟨192, 168, 7, UInt8.ofNat (i + 1)⟩, UInt16.ofNat (50000 + i)⟩

/-- The configuration of a numbered node: the first one opens the group. -/
def numberedConfig (config : MemberConfig) (i : Nat) : MemberConfig :=
  { config with sponsor := i == 0 }

/-- What a numbered node draws from its seed before it is made. -/
def numberedDraw (seed i : Nat) : KeyPair × Random :=
  KeyPair.draw (Random.ofSeed (UInt64.ofNat (seed * 1000 + i)))

/-- A group of numbered nodes, each made from a seed of its own. -/
def Network.numbered {σ : Type} (create : Protocol.Creation σ) (config : MemberConfig)
    (members seed : Nat) (dice : Dice) : Except ConfigError (Network σ) := do
  let turns ← (List.range members).mapM fun i ↦
    let (keys, random) := numberedDraw seed i
    create (numberedConfig config i) (numberedEndpoint i) keys random
  return { nodes := turns.map Node.ofTurn, dice }

end GroupKey
