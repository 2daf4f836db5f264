import GroupKey.Proofs.Moves

/-!
# What a star member does in one step

A reaction of a star member changes its plans and at most one thing besides.  `Change` lists what
this can be, each with the tests that the reaction makes first, and `Vouches` is what a message says
about its sender for good.
-/

namespace GroupKey.Star

variable {kx : KeyExchange} {cause : Input} {m d : Star} {t u : Turn Star}

/-- The group secret as it is handed to somebody with whom the sponsor agreed on another secret. -/
def answerWith (m : Star) (group shared : Secret) (nonce : Bytes) : SealedResponse :=
  { service := m.config.service
    sponsorPublic := m.keys.publicValue
    sealedSecret := group.sealFor shared nonce
    nonce }

/-- An answer goes to the endpoint that it was made for, and nowhere else. -/
def Vouches (m : Star) (target : Option Endpoint) : Message → Prop
  | .find service => service = m.config.service
  | .offer service => service = m.config.service
  | .request service value => service = m.config.service ∧ value = m.keys.publicValue
  | .distributed answer => ∃ e, target = some e ∧ ⟨e, answer⟩ ∈ m.served
  | .finish => m.closing
  | .finishAck => m.config.sponsor = false ∧ m.groupSecret?.isSome
  | _ => False

/-! ## Changes -/

inductive Change (kx : KeyExchange) (cause : Input) (m : Star) : Star → Prop
  | plan (agenda : Agenda) (sponsorFound : Bool) :
    Change kx cause m { m with agenda, sponsorFound }
  | openGroup (agenda : Agenda) (secret : Secret) (finished : Bool) (first : cause = .start)
    (chosen : m.config.sponsor = true) (free : m.groupSecret? = none)
    (alone : finished = true → m.finished ∨ m.peers = 0) :
    Change kx cause m { m with agenda, groupSecret? := some secret, finished }
  | serve (agenda : Agenda) (service : ServiceId) (value : PublicValue) (source : Endpoint)
    (group shared : Secret) (nonce : Bytes)
    (asked : cause = .message (.request service value) source) (chosen : m.config.sponsor = true)
    (unserved : ∀ s ∈ m.served, s.endpoint ≠ source) (room : m.served.length < m.peers)
    (secret : m.groupSecret? = some group) (agreed : kx.agree m.keys.secret value = .ok shared)
    (whole : nonce.length = nonceLength) :
    Change kx cause m
      { m with agenda, served := m.served ++ [⟨source, m.answerWith group shared nonce⟩] }
  | keep (agenda : Agenda) (answer : SealedResponse) (source : Endpoint) (secret : Secret)
    (sent : cause = .message (.distributed answer) source) (other : m.config.sponsor = false)
    (free : m.groupSecret? = none) (opened : openAnswer kx m.keys answer = .ok secret) :
    Change kx cause m { m with agenda, source? := some source, groupSecret? := some secret }
  | acknowledge (agenda : Agenda) (source : Endpoint) (closing : Bool)
    (sent : cause = .message .finishAck source) (chosen : m.config.sponsor = true)
    (served : ∃ s ∈ m.served, s.endpoint = source) (still : m.closing = false)
    (enough : closing = true → m.peers ≤ (m.acknowledged.insert source).length) :
    Change kx cause m
      { m with agenda, acknowledged := m.acknowledged.insert source, closing }
  | finish (agenda : Agenda)
    (may : (∃ source, cause = .message .finish source ∧ m.config.sponsor = false) ∨ m.closing) :
    Change kx cause m { m with agenda, finished := true }

/-- Plans can be changed besides. -/
theorem Change.replan (change : Change kx cause m d) (agenda : Agenda) :
    Change kx cause m { d with agenda } := by
  cases change with
  | plan _ sponsorFound => exact .plan agenda sponsorFound
  | openGroup _ secret finished first chosen free alone =>
    exact .openGroup agenda secret finished first chosen free alone
  | serve _ service value source group shared nonce asked chosen unserved room known agreed whole =>
    exact .serve agenda service value source group shared nonce asked chosen unserved room known
      agreed whole
  | keep _ answer source secret sent other free opened =>
    exact .keep agenda answer source secret sent other free opened
  | acknowledge _ source closing sent chosen served still enough =>
    exact .acknowledge agenda source closing sent chosen served still enough
  | finish _ may => exact .finish agenda may

/-- A sponsor draws the group secret when it starts, and no other way. -/
theorem Change.unopened (change : Change kx cause m d) (chosen : m.config.sponsor = true)
    (free : m.groupSecret? = none) : d.groupSecret? = none ∨ cause = .start := by
  cases change with
  | openGroup _ _ _ first => exact .inr first
  | keep _ _ _ _ _ other =>
    rw [chosen] at other
    cases other
  | _ => exact .inl free

/-- Whether the task was armed does not matter to the agenda that is left. -/
theorem member_cancel (t : Turn Star) (task : Task) :
    (t.cancel task).member = { t.member with agenda := t.member.agenda.remove task } := by
  unfold Turn.cancel
  split
  · rfl
  · next idle =>
    have same : t.member.agenda.remove task = t.member.agenda :=
      Agenda.remove_eq_self (Bool.eq_false_iff.mpr idle)
    rw [same]

/-- One state of a member may come after another. -/
structure Grows (m d : Star) : Prop where
  config : d.config = m.config
  endpoint : d.endpoint = m.endpoint
  keys : d.keys = m.keys
  secret : ∀ K, m.groupSecret? = some K → d.groupSecret? = some K
  served : m.served ⊆ d.served
  closing : m.closing → d.closing

theorem Grows.refl (m : Star) : Grows m m := ⟨rfl, rfl, rfl, fun _ ↦ id, List.Subset.refl _, id⟩

/-- Whoever knows the group secret goes on knowing one. -/
theorem Grows.isSome_groupSecret? (grows : Grows m d) (known : m.groupSecret?.isSome) :
    d.groupSecret?.isSome := by
  obtain ⟨K, here⟩ := Option.isSome_iff_exists.mp known
  rw [grows.secret K here]
  rfl

/-- No change takes back a secret, a served member or the end. -/
theorem Change.grows (change : Change kx cause m d) : Grows m d := by
  cases change with
  | plan | finish => exact ⟨rfl, rfl, rfl, fun _ ↦ id, List.Subset.refl _, id⟩
  | openGroup _ _ _ _ _ free =>
    refine ⟨rfl, rfl, rfl, fun K known ↦ ?_, List.Subset.refl _, id⟩
    rw [free] at known
    cases known
  | serve => exact ⟨rfl, rfl, rfl, fun _ ↦ id, List.subset_append_left _ _, id⟩
  | keep _ _ _ _ _ _ free =>
    refine ⟨rfl, rfl, rfl, fun K known ↦ ?_, List.Subset.refl _, id⟩
    rw [free] at known
    cases known
  | acknowledge _ _ _ _ _ _ still =>
    refine ⟨rfl, rfl, rfl, fun _ ↦ id, List.Subset.refl _, fun closing ↦ ?_⟩
    rw [still] at closing
    cases closing

/-- What a message tells about its sender stays true while the sender grows. -/
theorem Vouches.grow {target : Option Endpoint} {said : Message} (vouches : m.Vouches target said)
    (grows : Grows m d) : d.Vouches target said := by
  cases said with
  | find service | offer service =>
    unfold Vouches at vouches ⊢
    rwa [grows.config]
  | request service value =>
    unfold Vouches at vouches ⊢
    rwa [grows.config, grows.keys]
  | distributed answer =>
    obtain ⟨e, same, here⟩ := vouches
    exact ⟨e, same, grows.served here⟩
  | finish => exact grows.closing vouches
  | finishAck =>
    obtain ⟨other, known⟩ := vouches
    refine ⟨?_, grows.isSome_groupSecret? known⟩
    rwa [grows.config]
  | _ => exact vouches.elim

/-- The turn changed the member in one of these ways, and all that left it is true of it. -/
structure Does (kx : KeyExchange) (cause : Input) (m : Star) (t : Turn Star) : Prop where
  change : Change kx cause m t.member
  vouches : ∀ o ∈ t.outgoing, t.member.Vouches o.target o.message

namespace Does

/-- Who says nothing has only its change to answer for. -/
theorem of_silent (silent : t.outgoing = []) (change : Change kx cause m t.member) :
    Does kx cause m t where
  change := change
  vouches o here := by
    rw [silent] at here
    cases here

theorem start (kx : KeyExchange) (cause : Input) (m : Star) : Does kx cause m { member := m } :=
  of_silent rfl (.plan m.agenda m.sponsorFound)

/-- Nothing but the plans changed. -/
theorem replan (does : Does kx cause m t) (agenda : Agenda)
    (member : u.member = { t.member with agenda }) (said : u.outgoing = t.outgoing) :
    Does kx cause m u where
  change := by
    rw [member]
    exact does.change.replan agenda
  vouches o here := by
    rw [said] at here
    rw [member]
    exact (does.vouches o here).grow ⟨rfl, rfl, rfl, fun _ ↦ id, List.Subset.refl _, id⟩

theorem emit (does : Does kx cause m t) (e : Event) : Does kx cause m (t.emit e) where
  change := does.change
  vouches o here := does.vouches o (by simpa using here)

theorem terminate (does : Does kx cause m t) : Does kx cause m (t.act .terminate) where
  change := does.change
  vouches o here := does.vouches o (by simpa using here)

theorem multicast (does : Does kx cause m t) {said : Message} (true_ : t.member.Vouches none said) :
    Does kx cause m (t.multicast said) where
  change := does.change
  vouches o here := by
    rcases List.mem_append.mp (Turn.outgoing_multicast t said ▸ here) with old | new
    · exact does.vouches o old
    · obtain rfl := List.mem_singleton.mp new
      exact true_

theorem unicast (does : Does kx cause m t) {target : Endpoint} {said : Message}
    (true_ : t.member.Vouches (some target) said) : Does kx cause m (t.unicast target said) where
  change := does.change
  vouches o here := by
    rcases List.mem_append.mp (Turn.outgoing_unicast t target said ▸ here) with old | new
    · exact does.vouches o old
    · obtain rfl := List.mem_singleton.mp new
      exact true_

theorem schedule (does : Does kx cause m t) (task : Task) : Does kx cause m (t.schedule task) := by
  unfold Turn.schedule
  split
  · exact does
  · exact does.replan _ rfl (by simp)

theorem scheduleAfter (does : Does kx cause m t) (task : Task) (delay : Nat) :
    Does kx cause m (t.scheduleAfter task delay) :=
  does.replan _ rfl (t.outgoing_scheduleAfter task delay)

theorem cancel (does : Does kx cause m t) (task : Task) : Does kx cause m (t.cancel task) :=
  does.replan _ (member_cancel t task) (t.outgoing_cancel task)

/-- A message that is repeated is true already when it is first said. -/
theorem keepSending (does : Does kx cause m t) (task : Task) (target : Option Endpoint)
    {said : Message} (true_ : t.member.Vouches target said) :
    Does kx cause m (t.keepSending task target said) := by
  unfold Turn.keepSending
  split
  · exact does
  · cases target with
    | none => exact (does.multicast true_).schedule task
    | some endpoint => exact (does.unicast true_).schedule task

/-! ## Reactions -/

theorem endRun (does : Does kx cause m t)
    (finish : Change kx cause m { t.member with finished := true }) :
    Does kx cause m t.endRun := by
  unfold Turn.endRun
  split
  · exact does
  · refine (emit (t := (t.modify fun m ↦ { m with finished := true }).mark .durationEnd)
      ⟨finish, fun o here ↦ ?_⟩ _).terminate
    exact (does.vouches o here).grow ⟨rfl, rfl, rfl, fun _ ↦ id, List.Subset.refl _, id⟩

/-- The sponsor draws the group secret at its start, and never again. -/
theorem begin (free : m.config.sponsor = true → m.groupSecret? = none) :
    Does kx .start m (begin { member := m }) := by
  unfold Star.begin openGroup
  dsimp only
  split
  · next chosen =>
    have opened (finished : Bool) (alone : finished = true → m.finished ∨ m.peers = 0) :
        Change kx .start m { m.drawGroupSecret.2 with finished } :=
      .openGroup _ _ finished rfl chosen (free chosen) alone
    have silent (t : Turn Star) (quiet : t.outgoing = []) :
        ((t.emit (.assigned 1)).emit (.becameSponsor 1)).outgoing = [] := by
      simpa using quiet
    have known := opened m.finished .inl
    split
    · next alone =>
      refine endRun (emit (of_silent ?_ known) _) (opened true fun _ ↦ .inr alone)
      exact silent _ rfl
    · refine keepSending (emit (of_silent ?_ known) _) _ _ rfl
      exact silent _ rfl
  · exact keepSending (of_silent rfl (.plan m.agenda m.sponsorFound)) _ _ rfl

theorem answerFind (service : ServiceId) :
    Does kx cause m (answerFind service { member := m }) := by
  unfold Star.answerFind
  split
  · exact (start kx cause m).multicast rfl
  · exact start kx cause m

/-- A request is answered by the sponsor, with what it sealed for the sender before or seals now. -/
theorem answerRequest {service : ServiceId} {value : PublicValue} {source : Endpoint} :
    Does kx (.message (.request service value) source) m
      (answerRequest kx service value source { member := m }) := by
  unfold Star.answerRequest
  dsimp only
  split
  · exact start kx _ m
  · next guard =>
    have chosen : m.config.sponsor = true := by
      simp only [Bool.or_eq_true, not_or] at guard
      simpa using guard.1.1
    split
    · next answer made =>
      obtain ⟨s, found, rfl⟩ := Option.map_eq_some_iff.mp made
      have own : s.endpoint = source := by simpa using List.find?_some found
      refine (start kx _ m).unicast ⟨source, rfl, ?_⟩
      rw [← own]
      exact List.mem_of_find?_eq_some found
    · next unmade =>
      split
      · exact start kx _ m
      · next room =>
        split
        · next group shared secret agreed =>
          have unserved : ∀ s ∈ m.served, s.endpoint ≠ source := by
            simpa [answerFor?] using unmade
          refine unicast (emit (of_silent rfl ?_) _) ⟨source, rfl, ?_⟩
          · exact .serve _ service value source group shared _ rfl chosen unserved
              (Nat.lt_of_not_le room) secret agreed (Random.length_nextBytes nonceLength _)
          · exact List.mem_append_right _ (List.mem_singleton.mpr rfl)
        · exact start kx _ m

/-- Only acknowledgements of members that were served are counted. -/
theorem answerFinishAck {source : Endpoint} :
    Does kx (.message .finishAck source) m (answerFinishAck source { member := m }) := by
  unfold Star.answerFinishAck
  dsimp only
  split
  · exact start kx _ m
  · next guard =>
    simp only [Bool.or_eq_true, not_or, Bool.not_eq_true] at guard
    obtain ⟨⟨chosen, still⟩, -⟩ := guard
    have chosen : m.config.sponsor = true := by simpa using chosen
    split
    · exact start kx _ m
    · next known =>
      have served : ∃ s ∈ m.served, s.endpoint = source := by simpa using known
      split
      · next enough =>
        unfold Star.announceEnd
        have closed : Does kx (.message .finishAck source) m
            { member :=
                { m with acknowledged := m.acknowledged.insert source, closing := true } } :=
          of_silent rfl (.acknowledge m.agenda source true rfl chosen served still fun _ ↦ enough)
        refine ((closed.cancel .offer).keepSending .finish none ?_).scheduleAfter _ _
        rw [member_cancel]
        rfl
      · exact of_silent rfl (.acknowledge m.agenda source m.closing rfl chosen served still
          fun closing ↦ by rw [still] at closing; cases closing)

theorem answerOffer (service : ServiceId) :
    Does kx cause m (answerOffer service { member := m }) := by
  unfold Star.answerOffer
  split
  · exact start kx cause m
  · dsimp only
    split
    · exact (start kx cause m).schedule _
    · exact schedule (of_silent rfl (.plan m.agenda true)) _

/-- A member keeps the secret that it could open, and acknowledges that. -/
theorem takeSecret {answer : SealedResponse} {source : Endpoint} :
    Does kx (.message (.distributed answer) source) m
      (takeSecret kx answer source { member := m }) := by
  unfold Star.takeSecret
  dsimp only
  split
  · exact start kx _ m
  · next guard =>
    simp only [Bool.or_eq_true, not_or, Bool.not_eq_true] at guard
    obtain ⟨⟨-, other⟩, -⟩ := guard
    split
    · exact start kx _ m
    · next unknown =>
      have free : m.groupSecret? = none := by simpa using unknown
      split
      · next secret opened =>
        have kept : Does kx (.message (.distributed answer) source) m
            ((({ member := m } : Turn Star).count .cryptoOperations).modify fun m ↦
              { m with source? := some source, groupSecret? := some secret }) :=
          of_silent rfl (.keep m.agenda answer source secret rfl other free opened)
        refine (emit ((kept.cancel .request).cancel .find) _).keepSending .finishAck
          (some source) ?_
        rw [Turn.member_emit, member_cancel, member_cancel]
        exact ⟨other, rfl⟩
      · exact emit (of_silent rfl (.plan m.agenda m.sponsorFound)) _

theorem answerFinish {source : Endpoint} :
    Does kx (.message .finish source) m (answerFinish { member := m }) := by
  unfold Star.answerFinish
  split
  · exact start kx _ m
  · next guard =>
    simp only [Bool.or_eq_true, not_or, Bool.not_eq_true] at guard
    refine ((start kx _ m).cancel .finishAck).endRun ?_
    rw [member_cancel]
    exact .finish _ (.inl ⟨source, rfl, guard.1⟩)

/-- What a deadline repeats is still true. -/
theorem expire (task : Task)
    (told : m.source?.isSome → m.config.sponsor = false ∧ m.groupSecret?.isSome) :
    Does kx (.timer task) m (expire task { member := m }) := by
  have waited : Does kx (.timer task) m (({ member := m } : Turn Star).disarm task) :=
    of_silent rfl (.plan _ m.sponsorFound)
  unfold Star.expire runTask
  dsimp only
  split
  · next wanted =>
    simp only [wants, Bool.and_eq_true] at wanted
    cases task with
    | offer => exact waited.keepSending _ _ rfl
    | find => exact waited.keepSending _ _ rfl
    | request => exact waited.multicast ⟨rfl, rfl⟩
    | finishAck => exact waited.keepSending _ _ (told wanted.2)
    | finish => exact waited.keepSending _ _ wanted.2
    | finishTimeout => exact waited.endRun (.finish _ (.inr wanted.2))
    | _ => exact waited
  · exact waited

/-- Whatever a star member hears, it changes in one of these ways and says what is true. -/
theorem answer (said : Message) (source : Endpoint) :
    Does kx (.message said source) m (answer kx said source { member := m }) := by
  cases said with
  | find service => exact answerFind service
  | offer service => exact answerOffer service
  | request service value => exact answerRequest
  | distributed body => exact takeSecret
  | finish => exact answerFinish
  | finishAck => exact answerFinishAck
  | _ => exact start kx _ m

end Does

/-- Whoever opens an answer says so to the one it came from. -/
theorem takeSecret_acknowledges {answer : SealedResponse} {source : Endpoint} {secret : Secret}
    (own : m.isFor answer.service) (other : m.config.sponsor = false) (running : m.finished = false)
    (free : m.groupSecret? = none) (idle : m.agenda.isArmed .finishAck = false)
    (opened : openAnswer kx m.keys answer = .ok secret) :
    ⟨some source, .finishAck⟩ ∈ (takeSecret kx answer source { member := m }).outgoing := by
  have taken : takeSecret kx answer source { member := m } =
      keepSecret secret source (({ member := m } : Turn Star).count .cryptoOperations) := by
    unfold takeSecret
    dsimp only
    rw [if_neg (by simp [own, other, running]), if_neg (by simp [free]), opened]
  rw [taken]
  unfold keepSecret Turn.keepSending
  rw [if_neg]
  · simp [Turn.send]
  · have still : ((m.agenda.remove .request).remove .find).isArmed .finishAck = false := by
      rw [Agenda.isArmed_remove, Agenda.isArmed_remove, idle, Bool.and_false, Bool.and_false]
    rw [Bool.not_eq_true, Turn.isArmed, announceKey, Turn.member_emit, member_cancel, member_cancel]
    exact still

end GroupKey.Star
