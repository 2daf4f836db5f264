import GroupKey.Proofs.StarOffice
import GroupKey.Statistics.Recorder

/-!
# Counters match messages

To send a message and to count it are two things that a member does, and a recorder sees the second
one only.  They never come apart: an operation sends and counts one message, or neither sends nor
counts any.  So the counters of a recorder say what has left the member, up to wrapping.
-/

namespace GroupKey

/-- A counter goes up by the number of measurements that name it. -/
theorem Recorder.count_recordAll (r : Recorder) (now : UInt64) (made : List Measurement)
    (m : CountMetric) :
    (r.recordAll now made).count m = r.count m + UInt64.ofNat (made.count (.count m)) := by
  induction made generalizing r with
  | nil => simp [recordAll]
  | cons first made ih =>
    calc
      _ = (r.record now first).count m + UInt64.ofNat (made.count (.count m)) := ih _
      _ = r.count m + UInt64.ofNat
            ((if first = .count m then 1 else 0) + made.count (.count m)) := by
        rw [count_record, UInt64.ofNat_add, ← UInt64.add_assoc]
        split <;> rfl
      _ = _ := by
        rw [List.count_cons, Nat.add_comm]
        simp

/-- A counter counts the members, what they compute, or the messages of one kind. -/
theorem CountMetric.exists_kind (m : CountMetric) :
    m = .memberCount ∨ m = .cryptoOperations ∨ ∃ kind : Message.Kind, kind.metric = m := by
  cases m with
  | memberCount => exact .inl rfl
  | cryptoOperations => exact .inr (.inl rfl)
  | find => exact .inr (.inr ⟨.find, rfl⟩)
  | offer => exact .inr (.inr ⟨.offer, rfl⟩)
  | request => exact .inr (.inr ⟨.request, rfl⟩)
  | response => exact .inr (.inr ⟨.response, rfl⟩)
  | memberInfoRequest => exact .inr (.inr ⟨.infoRequest .joining, rfl⟩)
  | memberInfoResponse => exact .inr (.inr ⟨.infoResponse .joining, rfl⟩)
  | memberInfoSynchRequest => exact .inr (.inr ⟨.infoRequest .synch, rfl⟩)
  | memberInfoSynchResponse => exact .inr (.inr ⟨.infoResponse .synch, rfl⟩)
  | synchToken => exact .inr (.inr ⟨.token, rfl⟩)
  | finish => exact .inr (.inr ⟨.finish, rfl⟩)
  | finishAck => exact .inr (.inr ⟨.finishAck, rfl⟩)
  | distributedResponse => exact .inr (.inr ⟨.distributed, rfl⟩)

/-- Members and operations are counted apart from messages. -/
theorem Message.Kind.metric_ne (kind : Message.Kind) :
    kind.metric ≠ .memberCount ∧ kind.metric ≠ .cryptoOperations := by
  rcases kind with _ | _ | _ | _ | ⟨_ | _⟩ | ⟨_ | _⟩ | _ | _ | _ | _ <;> exact ⟨nofun, nofun⟩

/-! ## Turns -/

namespace Turn

variable {σ : Type} {t u : Turn σ}

/-- How many messages of a kind have left in a turn. -/
def sentOf (t : Turn σ) (kind : Message.Kind) : Nat :=
  t.outgoing.countP fun o ↦ o.message.kind = kind

/-- A turn has counted the messages of each kind that have left in it. -/
def Balanced (t : Turn σ) : Prop :=
  ∀ kind, t.measurements.count (.count kind.metric) = t.sentOf kind

theorem Balanced.of_same (balanced : t.Balanced) (measured : u.measurements = t.measurements)
    (sent : u.outgoing = t.outgoing) : u.Balanced := by
  intro kind
  rw [measured, sentOf, sent]
  exact balanced kind

/-- What is measured besides messages leaves the balance as it is. -/
theorem Balanced.measure (balanced : t.Balanced) {made : Measurement}
    (other : ∀ kind : Message.Kind, made ≠ .count kind.metric) : (t.measure made).Balanced := by
  intro kind
  have same : (t.measurements ++ [made]).count (.count kind.metric) =
      t.measurements.count (.count kind.metric) := by
    simp [List.count_append, other kind]
  exact same.trans (balanced kind)

theorem Balanced.deliver (balanced : t.Balanced) {o : Outgoing}
    (measured : u.measurements = t.measurements ++ [.count o.message.kind.metric])
    (sent : u.outgoing = t.outgoing ++ [o]) : u.Balanced := by
  intro kind
  rw [measured, sentOf, sent, List.count_append, List.countP_append, balanced kind]
  congr 1
  by_cases same : o.message.kind = kind
  · subst same
    simp
  · have apart : o.message.kind.metric ≠ kind.metric := fun equal ↦
      same (Message.Kind.metric_injective equal)
    simp [same, apart]

/-- A message is measured where it is sent. -/
theorem Balanced.send (balanced : t.Balanced) (target : Option Endpoint) (m : Message) :
    (t.send target m).Balanced := by
  cases target with
  | none => exact balanced.deliver (o := ⟨none, m⟩) rfl (outgoing_multicast t m)
  | some endpoint => exact balanced.deliver (o := ⟨some endpoint, m⟩) rfl (outgoing_unicast t _ m)

section Agenda

variable [Busy σ]

theorem measurements_schedule (t : Turn σ) (task : Task) :
    (t.schedule task).measurements = t.measurements := by
  unfold schedule
  split
  · rfl
  · rfl

theorem measurements_cancel (t : Turn σ) (task : Task) :
    (t.cancel task).measurements = t.measurements := by
  unfold cancel
  split
  · rfl
  · rfl

variable [Terminable σ] [Configured σ]

/-- Every operation sends and counts one message, or does neither. -/
theorem Operation.balanced (operation : t.Operation u) (balanced : t.Balanced) : u.Balanced := by
  cases operation with
  | emit e => exact balanced.of_same rfl (outgoing_emit t e)
  | count m own =>
    apply balanced.measure
    rintro kind ⟨⟩
    exact own.elim kind.metric_ne.1 kind.metric_ne.2
  | mark m => exact balanced.measure nofun
  | send target m => exact balanced.send target m
  | change f => exact balanced.of_same rfl rfl
  | schedule task =>
    exact balanced.of_same (measurements_schedule t task) (outgoing_schedule t task)
  | scheduleTimeout delay => exact balanced.of_same rfl (outgoing_scheduleAfter t _ delay)
  | cancel task => exact balanced.of_same (measurements_cancel t task) (outgoing_cancel t task)
  | terminate => exact balanced.of_same rfl (outgoing_terminate t)

/-- Only sending measures messages, so every reaction balances. -/
theorem Leads.balanced (leads : t.Leads u) (balanced : t.Balanced) : u.Balanced := by
  induction leads with
  | refl => exact balanced
  | tail _ operation ih => exact operation.balanced ih

end Agenda

end Turn

/-! ## Runs -/

namespace Protocol

variable {σ : Type} {p : Protocol σ}

/-- What a recorder has recorded after inputs that came at given times of day. -/
def recorded (p : Protocol σ) : σ → Recorder → List (UInt64 × Input) → Recorder
  | _, r, [] => r
  | m, r, (now, input) :: later =>
    p.recorded (p.step input m).member (r.recordAll now (p.step input m).measurements) later

theorem recorded_concat (m : σ) (r : Recorder) (past : List (UInt64 × Input)) (now : UInt64)
    (input : Input) :
    p.recorded m r (past ++ [(now, input)]) = (p.recorded m r past).recordAll now
      (p.step input (p.after m (past.map Prod.snd))).measurements := by
  induction past generalizing m r with
  | nil => rfl
  | cons first past ih => exact ih _ _

/-- The counters of a member's recorder match the messages that leave the member, and a step changes
no other counter of messages. -/
structure CountsMessages (p : Protocol σ) (m : σ) (r : Recorder) : Prop where
  total : ∀ past kind, ((p.recorded m r past).count kind.metric).toNat =
    ((p.sent m (past.map Prod.snd)).countP fun o ↦ o.message.kind = kind) % UInt64.size
  change : ∀ past now input metric,
    (p.recorded m r (past ++ [(now, input)])).count metric ≠ (p.recorded m r past).count metric →
    metric = .memberCount ∨ metric = .cryptoOperations ∨
      ∃ o ∈ (p.step input (p.after m (past.map Prod.snd))).outgoing,
        o.message.kind.metric = metric

section Balanced

variable (balanced : ∀ (input : Input) (m : σ), (p.step input m).Balanced)

include balanced

/-- The induction is on the inputs, from the last one back. -/
theorem count_recorded (m : σ) (r : Recorder) (past : List (UInt64 × Input))
    (kind : Message.Kind) :
    (p.recorded m r past).count kind.metric = r.count kind.metric + UInt64.ofNat
      ((p.sent m (past.map Prod.snd)).countP fun o ↦ o.message.kind = kind) := by
  induction past generalizing m r with
  | nil => simp [recorded, sent]
  | cons first past ih =>
    obtain ⟨now, input⟩ := first
    calc
      _ = (r.recordAll now (p.step input m).measurements).count kind.metric + UInt64.ofNat
            ((p.sent (p.step input m).member (past.map Prod.snd)).countP
              fun o ↦ o.message.kind = kind) := ih _ _
      _ = r.count kind.metric + UInt64.ofNat ((p.step input m).sentOf kind +
            (p.sent (p.step input m).member (past.map Prod.snd)).countP
              fun o ↦ o.message.kind = kind) := by
        rw [Recorder.count_recordAll, balanced input m kind, UInt64.ofNat_add, UInt64.add_assoc]
      _ = _ := by
        rw [List.map_cons, sent, List.countP_append]
        rfl

theorem countsMessages (m : σ) {r : Recorder}
    (fresh : ∀ kind : Message.Kind, r.count kind.metric = 0) : p.CountsMessages m r where
  total past kind := by
    rw [count_recorded balanced, fresh, UInt64.zero_add]
    exact UInt64.toNat_ofNat
  change past now input metric changed := by
    obtain rfl | rfl | ⟨kind, rfl⟩ := metric.exists_kind
    · exact .inl rfl
    · exact .inr (.inl rfl)
    · have some : (p.step input (p.after m (past.map Prod.snd))).sentOf kind ≠ 0 := by
        intro none
        apply changed
        rw [recorded_concat, Recorder.count_recordAll, balanced, none]
        exact UInt64.add_zero _
      obtain ⟨o, here, same⟩ := List.countP_pos_iff.mp (Nat.pos_of_ne_zero some)
      exact .inr (.inr ⟨o, here, by rw [of_decide_eq_true same]⟩)

end Balanced

theorem balanced_step [Busy σ] [Terminable σ] [Configured σ]
    (leads : ∀ (input : Input) (m : σ), (Turn.opening input m).Leads (p.step input m))
    (input : Input) (m : σ) : (p.step input m).Balanced := by
  apply (leads input m).balanced
  cases input <;> exact fun kind ↦ rfl

end Protocol

/-- The one thing that is counted before the start is the making of a key pair. -/
theorem Recorder.count_created (made : UInt64) (kind : Message.Kind) :
    (empty.recordAll made [.count .cryptoOperations]).count kind.metric = 0 := by
  have uncounted : Measurement.count kind.metric ∉ [Measurement.count .cryptoOperations] := by
    simp [kind.metric_ne.2]
  rw [count_recordAll, count_empty, List.count_eq_zero_of_not_mem uncounted]
  rfl

/-- Whatever happens to a member of either kind, at any times of day, the counter for messages of a
kind is the number of those that have left it, as far as it fits into the counter.  A step changes
no counter of messages but those of the messages that leave in it. -/
theorem counters_match_messages (kx : KeyExchange) (config : MemberConfig) (endpoint : Endpoint)
    (keys : KeyPair) (random : Random) (made : UInt64) :
    (∀ t, Chain.create config endpoint keys random = .ok t →
      (Chain.protocol kx).CountsMessages t.member
        (Recorder.empty.recordAll made t.measurements)) ∧
    ∀ t, Star.create config endpoint keys random = .ok t →
      (Star.protocol kx).CountsMessages t.member
        (Recorder.empty.recordAll made t.measurements) := by
  constructor
  · intro t created
    obtain ⟨-, rfl⟩ := MemberConfig.accepted_of_eq_ok created
    exact Protocol.countsMessages (Protocol.balanced_step Chain.leads_step) _
      (Recorder.count_created made)
  · intro t created
    obtain ⟨-, rfl⟩ := MemberConfig.accepted_of_eq_ok created
    exact Protocol.countsMessages (Protocol.balanced_step Star.leads_step) _
      (Recorder.count_created made)

/-- A request and its repetition are answered by two messages, and one announces the end.  The
sponsor of a chain offers once and sends one hand-over. -/
theorem counters_match_messages_tandem :
    ∃ star chain : Recorder,
      star = (Star.protocol x25519).recorded Tandem.sponsor
        (Recorder.empty.recordAll 5 [.count .cryptoOperations])
        (Tandem.script.map fun input ↦ (8, input)) ∧
      (star.count .distributedResponse).toNat = 2 ∧ (star.count .finish).toNat = 1 ∧
      chain = (Chain.protocol x25519).recorded Couple.sponsor
        (Recorder.empty.recordAll 5 [.count .cryptoOperations])
        [(6, .start), (7, Couple.request)] ∧
      (chain.count .offer).toNat = 1 ∧ (chain.count .response).toNat = 1 := by
  obtain ⟨chained, distributed⟩ := counters_match_messages x25519 Couple.config Doorway.endpoint
    Doorway.keys (.ofSeed 1) 5
  have star := (distributed _ Tandem.created).total (Tandem.script.map fun input ↦ (8, input))
  have chain := (chained _ Couple.created).total [(6, .start), (7, Couple.request)]
  refine ⟨_, _, rfl, (star .distributed).trans ?_, (star .finish).trans ?_, rfl,
    (chain .offer).trans ?_, (chain .response).trans ?_⟩
  · decide +kernel
  · decide +kernel
  · decide +kernel
  · decide +kernel

end GroupKey
