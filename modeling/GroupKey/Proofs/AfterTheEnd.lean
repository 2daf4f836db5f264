import GroupKey.Proofs.KeyBounds

/-!
# After the end

A member that has finished its run takes no further part in it.  Deadlines that it asked for pass,
and it may still notice that its hand-over arrived, but it does nothing and learns nothing more.
There is one exception.  A sponsor whose run was ended while it still let others in goes on offering
to whoever looks for its service, although it lets nobody in any more.
-/

namespace GroupKey

/-! ## Chained members -/

namespace Chain

variable {kx : KeyExchange} {c d : Chain} {input : Input}

/-- Nothing happened but that tasks were taken off and the hand-over was seen to arrive. -/
def Rests (c d : Chain) : Prop :=
  ∃ agenda handOver, handOver.map HandOver.response = c.handOver.map HandOver.response ∧
    d = { c with agenda, handOver }

theorem Rests.refl (c : Chain) : c.Rests c := ⟨c.agenda, c.handOver, rfl, rfl⟩

theorem Rests.trans {e : Chain} (first : c.Rests d) (second : d.Rests e) : c.Rests e := by
  obtain ⟨agenda, handOver, same, rfl⟩ := first
  obtain ⟨agenda', handOver', same', rfl⟩ := second
  exact ⟨agenda', handOver', same'.trans same, rfl⟩

theorem rests_hearAssigned (c : Chain) (source : Endpoint) : c.Rests (c.hearAssigned source) := by
  unfold hearAssigned
  split
  · refine ⟨c.agenda, c.confirm.handOver, ?_, rfl⟩
    rw [confirm, Option.map_map]
    rfl
  · exact .refl c

/-- What a member holds and knows is as it was. -/
structure Unmoved (c d : Chain) : Prop where
  finished : d.finished = c.finished
  memberId : d.memberId? = c.memberId?
  sponsor : d.isSponsor = c.isSponsor
  keys : d.keysComputed = c.keysComputed
  tree : d.tree? = c.tree?
  secret : d.groupSecret? = c.groupSecret?
  directory : d.directory = c.directory
  pending : d.pending = c.pending
  heir : d.heir? = c.heir?

theorem Rests.unmoved (rests : c.Rests d) : c.Unmoved d := by
  obtain ⟨agenda, handOver, same, rfl⟩ := rests
  refine ⟨rfl, rfl, rfl, rfl, rfl, rfl, rfl, rfl, ?_⟩
  have named := congrArg (Option.map fun r : Response ↦ r.newSponsor.endpoint) same
  rwa [Option.map_map, Option.map_map] at named

/-- Somebody looks for the service of a member that would let others in, were it not finished. -/
def Beckons (c : Chain) (input : Input) : Prop :=
  c.isOpen ∧ ∃ bytes source, input = .datagram bytes source ∧ source ≠ c.endpoint ∧
    Message.decode bytes = .ok (.find c.config.service)

theorem answerFind_of_finished (c : Chain) (service : ServiceId) :
    c.Rests (answerFind service { member := c }).member ∧
      (answerFind service { member := c }).effects =
        if c.isOpen ∧ service = c.config.service then [.multicast c.offerMessage] else [] := by
  by_cases asked : service = c.config.service ∧ c.isOpen = true
  · have offers : answerFind service { member := c } =
        ({ member := c } : Turn Chain).multicast c.offerMessage :=
      if_pos (by simp [isFor, asked])
    rw [offers, if_pos asked.symm]
    exact ⟨.refl c, rfl⟩
  · have silent : answerFind service { member := c } = { member := c } :=
      if_neg (by simpa [isFor] using asked)
    rw [silent, if_neg fun both ↦ asked both.symm]
    exact ⟨.refl c, rfl⟩

/-- Whatever a finished member is told, it only answers those who look for a sponsor. -/
theorem answer_of_finished (kx : KeyExchange) (finished : c.finished = true) (m : Message)
    (source : Endpoint) :
    c.Rests (answer kx m source { member := c }).member ∧
      (answer kx m source { member := c }).effects =
        if c.isOpen ∧ m = .find c.config.service then [.multicast c.offerMessage] else [] := by
  -- Whatever is not a search is refused by the member's own check that it has not finished.
  have refuses {m : Message} (dull : m ≠ .find c.config.service)
      (silent : answer kx m source { member := c } = { member := c }) :
      c.Rests (answer kx m source { member := c }).member ∧
        (answer kx m source { member := c }).effects =
          if c.isOpen ∧ m = .find c.config.service then [.multicast c.offerMessage] else [] := by
    rw [silent, if_neg fun both ↦ dull both.2]
    exact ⟨.refl c, rfl⟩
  cases m with
  | find service =>
    obtain ⟨rests, effects⟩ := answerFind_of_finished c service
    refine ⟨rests, effects.trans ?_⟩
    simp only [Message.find.injEq]
  | offer service =>
    have hears : answer kx (.offer service) source { member := c } =
        { member := c.hearAssigned source } :=
      if_pos (by simp [finished])
    rw [hears, if_neg (by simp)]
    exact ⟨rests_hearAssigned c source, rfl⟩
  | request service value => exact refuses nofun (if_pos (by simp [finished]))
  | response r => exact refuses nofun (if_pos (by simp [finished]))
  | infoRequest phase service ids => exact refuses nofun (if_pos (by simp [finished]))
  | infoResponse phase service id value => exact refuses nofun (if_pos (by simp [finished]))
  | token target => exact refuses nofun (if_pos finished)
  | finish => exact refuses nofun (if_pos (by simp [finished]))
  | finishAck =>
    refine refuses nofun ?_
    change answerFinishAck source { member := c } = { member := c }
    unfold answerFinishAck
    split
    · rfl
    · exact if_pos finished
  | distributed body => exact refuses nofun rfl

/-- A finished member wants none of its tasks. -/
theorem expire_of_finished (kx : KeyExchange) (finished : c.finished = true) (task : Task) :
    c.Rests (expire kx task { member := c }).member ∧
      (expire kx task { member := c }).effects = [] := by
  have unwanted : (({ member := c } : Turn Chain).disarm task).member.wants task = false := by
    have same : (({ member := c } : Turn Chain).disarm task).member.finished = c.finished := rfl
    simp [wants, same, finished]
  unfold expire
  dsimp only
  rw [if_neg (by simp [unwanted])]
  exact ⟨⟨_, c.handOver, rfl, rfl⟩, rfl⟩

theorem step_of_finished (kx : KeyExchange) (finished : c.finished = true)
    (allowed : c.OnceStarted input) :
    c.Rests ((Chain.protocol kx).step input c).member ∧
      (c.Beckons input → ((Chain.protocol kx).step input c).effects =
        [.multicast c.offerMessage]) ∧
      (¬ c.Beckons input → ((Chain.protocol kx).step input c).effects = []) := by
  cases input with
  | start => exact absurd rfl allowed.2
  | timer task =>
    obtain ⟨rests, silent⟩ := expire_of_finished kx finished task
    exact ⟨rests, by rintro ⟨-, bytes, source, ⟨⟩, -⟩, fun _ ↦ silent⟩
  | message m source => exact allowed.1.elim
  | datagram bytes source =>
    -- An echo of the member's own and what is no message pass unnoticed.
    have unnoticed (silent : (Chain.protocol kx).step (.datagram bytes source) c = { member := c })
        (dull : ¬ c.Beckons (.datagram bytes source)) :
        c.Rests ((Chain.protocol kx).step (.datagram bytes source) c).member ∧
          (c.Beckons (.datagram bytes source) →
            ((Chain.protocol kx).step (.datagram bytes source) c).effects =
              [.multicast c.offerMessage]) ∧
          (¬ c.Beckons (.datagram bytes source) →
            ((Chain.protocol kx).step (.datagram bytes source) c).effects = []) := by
      rw [silent]
      exact ⟨.refl c, fun beckons ↦ absurd beckons dull, fun _ ↦ rfl⟩
    by_cases own : source = c.endpoint
    · refine unnoticed (Protocol.receive_own own) ?_
      rintro ⟨-, _, _, ⟨⟩, foreign, -⟩
      exact foreign own
    · cases decoded : Message.decode bytes with
      | error e =>
        refine unnoticed (Protocol.receive_of_error own decoded) ?_
        rintro ⟨-, _, _, ⟨⟩, -, found⟩
        rw [decoded] at found
        cases found
      | ok m =>
        have answered : (Chain.protocol kx).step (.datagram bytes source) c =
            answer kx m source { member := c } := Protocol.receive_of_ok own decoded
        obtain ⟨rests, effects⟩ := answer_of_finished kx finished m source
        rw [answered]
        refine ⟨rests, fun ⟨isOpen, _, _, same, _, found⟩ ↦ ?_, fun dull ↦ ?_⟩
        · cases same
          rw [decoded] at found
          cases found
          rw [effects, if_pos ⟨isOpen, rfl⟩]
        · rw [effects, if_neg]
          rintro ⟨isOpen, rfl⟩
          exact dull ⟨isOpen, bytes, source, rfl, own, decoded⟩

/-- However long a finished member is talked to, it rests. -/
theorem rests_of_exposed (finished : c.finished = true)
    (exposed : (Chain.protocol kx).Exposed OnceStarted c d) : c.Rests d := by
  refine exposed.keeps (.refl c) fun rests allowed ↦ ?_
  have ended := rests.unmoved.finished.trans finished
  exact rests.trans (step_of_finished kx ended allowed).1

end Chain

/-! ## Star members -/

namespace Star

variable {kx : KeyExchange} {m d : Star} {input : Input}

/-- A star member is started once, and anybody may say anything to it at any time. -/
def OnceStarted (_ : Star) (input : Input) : Prop :=
  Protocol.Outer (fun _ ↦ True) input ∧ input ≠ .start

theorem answer_of_finished (finished : m.finished = true) (said : Message) (source : Endpoint) :
    answer kx said source { member := m } = { member := m } := by
  have unwanted (task : Task) : m.wants task = false := by simp [wants, finished]
  cases said with
  | find service =>
    unfold answer answerFind
    exact if_neg (by simp [unwanted])
  | offer service =>
    unfold answer answerOffer
    exact if_pos (by simp [unwanted])
  | request service value =>
    unfold answer answerRequest
    exact if_pos (by simp [finished])
  | distributed body =>
    unfold answer takeSecret
    exact if_pos (by simp [finished])
  | finish =>
    unfold answer answerFinish
    exact if_pos (by simp [finished])
  | finishAck =>
    unfold answer answerFinishAck
    exact if_pos (by simp [finished])
  | _ => rfl

theorem step_of_finished (kx : KeyExchange) (finished : m.finished = true)
    (allowed : m.OnceStarted input) :
    ∃ agenda, (Star.protocol kx).step input m = { member := { m with agenda } } := by
  cases input with
  | start => exact absurd rfl allowed.2
  | timer task =>
    refine ⟨m.agenda.remove task, if_neg ?_⟩
    simp [wants, Turn.disarm, Turn.setAgenda, Busy.withAgenda, finished]
  | message said source => exact allowed.1.elim
  | datagram bytes source =>
    refine ⟨m.agenda, ?_⟩
    rcases (Star.protocol kx).step_datagram_cases bytes source m with same | ⟨said, -, same⟩
    · exact same
    · exact same.trans (answer_of_finished finished said source)

theorem rests_of_exposed (finished : m.finished = true)
    (exposed : (Star.protocol kx).Exposed OnceStarted m d) : ∃ agenda, d = { m with agenda } := by
  refine exposed.keeps (P := fun d ↦ ∃ agenda, d = { m with agenda }) ⟨m.agenda, rfl⟩ ?_
  rintro _ input ⟨agenda, rfl⟩ allowed
  obtain ⟨agenda', same⟩ := step_of_finished kx (m := { m with agenda }) finished allowed
  exact ⟨agenda', congrArg Turn.member same⟩

end Star

/-- Once a member of either variant has finished, nothing that it receives and no deadline makes it
do anything, and what it holds and knows stays as it is.  Only a sponsor that was still open answers
with an offer when somebody looks for its service. -/
theorem finished_is_final {kx : KeyExchange} :
    (∀ c : Chain, c.finished = true →
      ∀ d, (Chain.protocol kx).Exposed Chain.OnceStarted c d → c.Unmoved d ∧
        ∀ input, d.OnceStarted input →
          d.Unmoved ((Chain.protocol kx).step input d).member ∧
          (d.Beckons input →
            ((Chain.protocol kx).step input d).effects = [.multicast d.offerMessage]) ∧
          (¬ d.Beckons input → ((Chain.protocol kx).step input d).effects = [])) ∧
    ∀ m : Star, m.finished = true →
      ∀ d, (Star.protocol kx).Exposed Star.OnceStarted m d → (∃ agenda, d = { m with agenda }) ∧
        ∀ input, d.OnceStarted input →
          ∃ agenda, (Star.protocol kx).step input d = { member := { d with agenda } } := by
  refine ⟨fun c finished d exposed ↦ ?_, fun m finished d exposed ↦ ?_⟩
  · have unmoved := (Chain.rests_of_exposed finished exposed).unmoved
    refine ⟨unmoved, fun input allowed ↦ ?_⟩
    obtain ⟨rests, effects⟩ :=
      Chain.step_of_finished kx (unmoved.finished.trans finished) allowed
    exact ⟨rests.unmoved, effects⟩
  · obtain ⟨agenda, rfl⟩ := Star.rests_of_exposed finished exposed
    exact ⟨⟨agenda, rfl⟩, fun input allowed ↦ Star.step_of_finished kx finished allowed⟩

namespace Epilogue

def after (c : Chain) (input : Input) : Chain :=
  ((Chain.protocol Trio.exchange).step input c).member

/-- The opener of the three. -/
def opener : Chain := after (Trio.roster.member Trio.roster.opener) .start

/-- Its run is ended before it has let anybody in. -/
def ended : Chain := after opener (Trio.hear Trio.roster.opener Trio.second .finish).2

def request : Input :=
  (Trio.hear Trio.roster.opener (.last 2) (.request 7 (Trio.roster.publicValue (.last 2)))).2

def search : Input := (Trio.hear Trio.roster.opener (.last 2) (.find 7)).2

theorem exposed : (Chain.protocol Trio.exchange).Exposed Chain.OnceStarted opener ended :=
  .next .rest ⟨trivial, nofun⟩

end Epilogue

/-- The opener whose run is ended still holds the sponsor's role, and does not hear a request. -/
theorem finished_is_final_epilogue :
    Epilogue.ended.finished = true ∧ Epilogue.ended.isOpen = true ∧
    Epilogue.ended.Unmoved (Epilogue.after Epilogue.ended Epilogue.request) ∧
    ((Chain.protocol Trio.exchange).step Epilogue.request Epilogue.ended).effects = [] := by
  have finished : Epilogue.ended.finished = true := by decide +kernel
  obtain ⟨-, steps⟩ := (@finished_is_final Trio.exchange).1 _ finished _ .rest
  obtain ⟨unmoved, -, silent⟩ := steps Epilogue.request ⟨trivial, nofun⟩
  refine ⟨finished, by decide +kernel, unmoved, silent ?_⟩
  rintro ⟨-, _, _, ⟨⟩, -, read⟩
  have other : Message.decode (Message.request 7 (Trio.roster.publicValue 2)).encode ≠
      .ok (.find Epilogue.ended.config.service) := by
    decide +kernel
  exact other read

/-- Yet it offers to let others in. -/
theorem finished_sponsor_offers :
    (Chain.protocol Trio.exchange).Exposed Chain.OnceStarted Epilogue.opener Epilogue.ended ∧
    Epilogue.ended.finished = true ∧
    ((Chain.protocol Trio.exchange).step Epilogue.search Epilogue.ended).effects =
      [.multicast (.offer 7)] :=
  ⟨Epilogue.exposed, by decide +kernel, by decide +kernel⟩

end GroupKey
