import GroupKey.Protocol
import GroupKey.Statistics.Recorder

/-!
# A host for one member

A host carries out a member's effects: it sends, keeps the deadlines, and passes events on to an
application that reads them when it likes.  Events that find the channel full are lost.  Time is
given from outside; a deadline is met at the first whole millisecond that is not before it.  A host
stops when the member asks for it or when it is told to.  It also keeps the statistics of the run.
-/

namespace GroupKey

structure Sent where
  time : Nat
  target : Option Endpoint
  kind : Message.Kind
  bytes : Bytes
  deriving DecidableEq, Repr

structure Host (σ : Type) where
  member : σ
  recorder : Recorder := .empty
  /-- The time of day, in nanoseconds, at which the host's own time is zero. -/
  epoch : Nat := 0
  scheduler : Scheduler := .empty
  now : Nat := 0
  running : Bool := true
  /-- Why nothing can be sent at the moment. -/
  outage : Option String := none
  /-- Events that nobody has read yet, and datagrams since the last look. -/
  events : List Event := []
  sent : List Sent := []

namespace Host

variable {σ : Type}

def eventCapacity : Nat := 256

/-- A host for a member that was just made. -/
def ofTurn (t : Turn σ) (epoch : Nat) : Host σ :=
  { member := t.member, recorder := Recorder.empty.recordAll epoch.toUInt64 t.measurements, epoch }

def publish (h : Host σ) (e : Event) : Host σ :=
  if h.events.length < eventCapacity then { h with events := h.events ++ [e] } else h

/-- The event of a datagram that could not be sent. -/
def sendFailure (target : Option Endpoint) (kind : Message.Kind) (reason : String) : Event :=
  let attempt := match target with
    | none => "multicast " ++ kind.name
    | some endpoint => "send " ++ kind.name ++ " to " ++ endpoint.toText
  .failed (attempt ++ " failed: " ++ reason)

def send (h : Host σ) (target : Option Endpoint) (m : Message) : Host σ :=
  match h.outage with
  | none => { h with sent := h.sent ++ [⟨h.now, target, m.kind, m.encode⟩] }
  | some reason => h.publish (sendFailure target m.kind reason)

def perform (h : Host σ) : Effect → Host σ
  | .multicast m => h.send none m
  | .unicast target m => h.send (some target) m
  | .schedule task delay => { h with scheduler := h.scheduler.arm task h.now delay }
  | .cancel task => { h with scheduler := h.scheduler.cancel task }
  | .emit event => h.publish event
  | .terminate => { h with running := false }

/-- All effects of a turn are carried out, also those behind the end of the run. -/
def carryOut (h : Host σ) (t : Turn σ) : Host σ :=
  let recorder := h.recorder.recordAll (h.epoch + h.now).toUInt64 t.measurements
  t.effects.foldl perform { h with member := t.member, recorder }

/-! ## What a host reacts to -/

def start (p : Protocol σ) (h : Host σ) : Host σ := h.carryOut (p.step .start h.member)

def receive (p : Protocol σ) (bytes : Bytes) (source : Endpoint) (h : Host σ) : Host σ :=
  if h.running then h.carryOut (p.step (.datagram bytes source) h.member) else h

def fire (p : Protocol σ) (h : Host σ) (task : Task) : Host σ :=
  if h.running then h.carryOut (p.step (.timer task) h.member) else h

/-- Runs what is due, until the member ends the run. -/
def expire (p : Protocol σ) (h : Host σ) : Host σ :=
  let (tasks, scheduler) := h.scheduler.popExpired h.now
  tasks.foldl (fire p) { h with scheduler }

def shutdown (h : Host σ) : Host σ := { h with running := false }

def status? (p : Protocol σ) (h : Host σ) : Option Status :=
  if h.running then some (p.status h.member) else none

/-! ## Time -/

/-- The first whole millisecond that is not before a time. -/
def wholeMilli (time : Nat) : Nat := (time + (nanosPerMilli - 1)) / nanosPerMilli * nanosPerMilli

/-- Meets at most `rounds` deadlines one after the other up to a time, and arrives there. -/
def advanceTo (p : Protocol σ) (time : Nat) : (rounds : Nat) → Host σ → Host σ
  | 0, h => { h with now := time }
  | rounds + 1, h =>
    match h.scheduler.next? with
    | none => { h with now := time }
    | some due =>
      if h.running && wholeMilli due ≤ time then
        advanceTo p time rounds (expire p { h with now := max h.now (wholeMilli due) })
      else { h with now := time }

/-- Lets milliseconds pass.  Every deadline met moves the clock, unless a delay was empty, so the
number of rounds leaves room for some of those. -/
def advance (p : Protocol σ) (millis : Nat) (h : Host σ) : Host σ :=
  advanceTo p (h.now + millis * nanosPerMilli) (2 * millis + 1000) h

/-- Takes out what was sent since the last look. -/
def takeSent (h : Host σ) : List Sent × Host σ := (h.sent, { h with sent := [] })

def takeEvents (h : Host σ) : List Event × Host σ := (h.events, { h with events := [] })

end Host

end GroupKey
