import GroupKey.Proofs.Diligence
import GroupKey.Proofs.HonestValues
import GroupKey.Proofs.TokenSafety

/-!
# Holders of the token are up to date

The key exchange does not fail on honest values, so a cascade only stops at a value that the member
does not know.  Whatever a holder of the token learns goes through a cascade at once.  What is
missing from its key is therefore missing from its directory, and it can ask for it.
-/

namespace GroupKey

namespace Directory

theorem containsId_of_publicOf? {d : Directory} {id : Nat} {value : PublicValue}
    (known : d.publicOf? id = some value) : d.containsId id = true := by
  obtain ⟨e, listed, same, -⟩ := publicOf?_eq_some known
  exact containsId_iff.mpr ⟨e, listed, same⟩

end Directory

namespace Chain

variable {kx : KeyExchange} {cause : Input} {c d : Chain} {t : Turn Chain} {said : List Outgoing}
  {good : Secret → Prop}

/-- Unless the member is complete, it does not know the value that comes next. -/
def UpToDate (c : Chain) : Prop :=
  ∀ s, c.seat = some s → s.id + s.keysComputed ≤ c.size →
    c.directory.containsId (s.id + s.keysComputed) = false

/-- Every value in the directory extends every good secret, to a good one again. -/
def Usable (kx : KeyExchange) (good : Secret → Prop) (d : Directory) : Prop :=
  ∀ e ∈ d.entries, ∀ a, good a → ∃ met, kx.agree a e.publicValue = .ok met ∧ good met

/-- A member with all keys has nothing left to apply. -/
theorem upToDate_of_last {s : Seat} (seat : c.seat = some s)
    (full : c.size < s.id + s.keysComputed) : c.UpToDate := by
  intro other same room
  rw [seat] at same
  cases same
  exact absurd room (Nat.not_le.mpr full)

/-- The induction is on the ids that are left.  The values applied are usable, so nothing but a gap
can stop it. -/
theorem applyAll_upToDate (usable : Usable kx good t.member.directory) (count first : Nat)
    (place : ∀ s, t.member.seat = some s →
      s.id + s.keysComputed = first ∧ good s.tree.rootSecret)
    (whole : t.member.size < first + count) :
    (applyAll kx (List.range' first count) t).member.UpToDate := by
  induction count generalizing first t with
  | zero =>
    intro s seat room
    have small : s.id + s.keysComputed ≤ t.member.size := room
    rw [(place s seat).1] at small
    exact absurd small (Nat.not_le.mpr whole)
  | succ count ih =>
    rw [List.range'_succ]
    unfold applyAll
    split
    · next s value seat known =>
      obtain ⟨rfl, root⟩ := place s seat
      obtain ⟨e, listed, -, rfl⟩ := Directory.publicOf?_eq_some known
      obtain ⟨met, agrees, honest⟩ := usable e listed _ root
      have extended : s.tree.extend kx e.publicValue false =
          .ok ⟨⟨met, none, none, e.publicValue⟩, s.tree.nodes⟩ := by
        rw [KeyTree.extend, agrees]
        rfl
      rw [extended]
      refine ih ?_ _ ?_ ?_
      · rw [Follows.member_reportKey]
        exact usable
      · rw [Follows.member_reportKey]
        rintro _ ⟨⟩
        exact ⟨rfl, honest⟩
      · rw [Follows.member_reportKey]
        change t.member.size < _
        omega
    · next unknown =>
      intro s seat room
      obtain ⟨here, -⟩ := place s seat
      rw [here]
      refine Directory.publicOf?_eq_none_iff.mp ?_
      cases known : t.member.directory.publicOf? first with
      | none => rfl
      | some value => exact absurd known (unknown s value seat)

/-- After the cascade the value that comes next is not recorded. -/
theorem cascade_upToDate (usable : Usable kx good t.member.directory)
    (root : ∀ s, t.member.seat = some s → good s.tree.rootSecret) :
    (cascade kx t).member.UpToDate := by
  unfold cascade Directory.idsBelow
  split
  · next s seat =>
    obtain ⟨announced, announce⟩ := Follows.member_announceKey
      (applyAll kx (List.range' (s.id + s.keysComputed)
        (t.member.size + 1 - (s.id + s.keysComputed))) t)
    rw [announce]
    refine applyAll_upToDate usable _ _ ?_ (by omega)
    intro other same
    rw [seat] at same
    cases same
    exact ⟨rfl, root s seat⟩
  · next free =>
    intro s seat
    rw [free] at seat
    cases seat

/-- Tending the token changes nothing about keys. -/
theorem tendToken_frame (t : Turn Chain) :
    ∃ agenda token, (tendToken t).member = { t.member with agenda, token } := by
  unfold tendToken passToken
  dsimp only
  split
  · exact ⟨t.member.agenda, t.member.token, rfl⟩
  · split
    · split
      · rw [Follows.member_cancel]
        exact ⟨_, t.member.token, rfl⟩
      · split
        · next next _ =>
          obtain ⟨agenda, member⟩ := Turn.member_keepSending
            ((t.cancel .synchRequest).modify fun c ↦ { c with token.passed := true }) .synchToken
            none (tokenMessage next)
          rw [member, Turn.member_modify, Follows.member_cancel]
          exact ⟨agenda, _, rfl⟩
        · rw [Follows.member_cancel]
          exact ⟨_, t.member.token, rfl⟩
    · split
      · exact ⟨t.member.agenda, t.member.token, rfl⟩
      · obtain ⟨agenda, member⟩ := t.member_keepSending .synchRequest none
          (t.member.questionMessage .synch t.member.gapsAbove)
        rw [member]
        exact ⟨agenda, t.member.token, rfl⟩

/-- A token for others changes nothing about keys. -/
theorem overhearToken_frame (target : Nat) (source : Endpoint) (s : Seat) (t : Turn Chain) :
    ∃ agenda taken, (overhearToken target source s t).member =
      { t.member with agenda, token := { t.member.token with taken } } := by
  unfold overhearToken seeTokenTaken
  dsimp only
  split
  · exact ⟨t.member.agenda, t.member.token.taken, rfl⟩
  · split
    · split
      · exact ⟨t.member.agenda, t.member.token.taken, rfl⟩
      · rw [Follows.member_cancel]
        exact ⟨_, true, rfl⟩
    · exact ⟨t.member.agenda, t.member.token.taken, rfl⟩

/-- To press on uses up all that is known. -/
theorem pressOn_upToDate
    (usable : Usable kx good (tendToken (cascade kx t)).member.directory)
    (root : ∀ s, t.member.seat = some s → good s.tree.rootSecret) :
    (tendToken (cascade kx t)).member.UpToDate := by
  obtain ⟨agenda, token, tend⟩ := tendToken_frame (cascade kx t)
  obtain ⟨seat, announced, apply⟩ := cascade_frame kx t
  rw [tend, apply] at usable
  rw [tend]
  exact cascade_upToDate usable root

/-- A sponsor that lets nobody in has only its own key, or all of them. -/
theorem makeProgress_upToDate (usable : Usable kx good (makeProgress kx t).member.directory)
    (root : ∀ s, t.member.seat = some s → good s.tree.rootSecret)
    (shut : t.member.isOpen = false) (positive : ∀ s, t.member.seat = some s → 0 < s.keysComputed) :
    (makeProgress kx t).member.UpToDate := by
  unfold makeProgress at usable ⊢
  split
  · next free =>
    intro s seat
    rw [free] at seat
    cases seat
  · next s seat =>
    rw [seat] at usable
    dsimp only at usable
    split
    · next sponsor =>
      unfold attendQueue
      rw [seat]
      dsimp only
      rw [if_pos (by rw [shut]; rfl)]
      have last : t.member.size ≤ s.id := by simpa [isOpen, seat, sponsor] using shut
      have more := positive s seat
      exact upToDate_of_last seat (by omega)
    · next other =>
      rw [if_neg other] at usable
      exact pressOn_upToDate usable root

/-! ## What is told -/

theorem takeAnswer_upToDate {service : ServiceId} {id : MemberId} {value : PublicValue}
    {source : Endpoint}
    (usable : Usable kx good (takeAnswer kx service id value source t).member.directory)
    (root : ∀ s, t.member.seat = some s → good s.tree.rootSecret) (shut : t.member.isOpen = false)
    (positive : ∀ s, t.member.seat = some s → 0 < s.keysComputed) (upToDate : t.member.UpToDate) :
    (takeAnswer kx service id value source t).member.UpToDate := by
  obtain ⟨handOver, hear⟩ := hearAssigned_frame t.member source
  obtain ⟨directory, pending, learned⟩ :=
    learn_frame { t.member with handOver } source id.toNat value
  unfold takeAnswer at usable ⊢
  split
  · exact upToDate
  · next guard =>
    rw [if_neg guard] at usable
    refine makeProgress_upToDate usable ?_ ?_ ?_
    all_goals rw [Turn.member_modify, hear, learned]
    · exact root
    · exact shut
    · exact positive

/-- One message adds one id. -/
theorem containsId_of_learn {endpoint : Endpoint} {id other : Nat} {value : PublicValue}
    (there : (c.learn endpoint id value).directory.containsId other) :
    c.directory.containsId other ∨ other = id := by
  unfold learn at there
  split at there
  · exact .inl there
  · obtain ⟨e, here, rfl⟩ := Directory.containsId_iff.mp there
    rcases Directory.mem_record here with old | rfl
    · exact .inl (Directory.containsId_iff.mpr ⟨e, old, rfl⟩)
    · exact .inr rfl

/-- A hand-over tells of two members, of whom its newcomer already knows one to be itself and the
other to be before it. -/
theorem learnFrom_upToDate {r : Response} {source : Endpoint} (upToDate : c.UpToDate)
    (positive : ∀ s, c.seat = some s → 0 < s.keysComputed)
    (placed : ∀ s, c.seat = some s → s.id = r.newSponsor.id.toNat) :
    (learnFrom r source c).UpToDate := by
  obtain ⟨handOver, directory, pending, frame⟩ := Follows.learnFrom_frame r source c
  obtain ⟨heard, hear⟩ := hearAssigned_frame c source
  intro s seat room
  rw [frame] at seat room
  have more := positive s seat
  have here := placed s seat
  refine Bool.eq_false_iff.mpr fun there ↦ ?_
  unfold learnFrom at there
  dsimp only at there
  rcases containsId_of_learn there with before | newcomer
  · rcases containsId_of_learn before with old | sender
    · have known : c.directory.containsId (s.id + s.keysComputed) = true := by
        rw [hear] at old
        split at old <;> exact old
      rw [upToDate s seat room] at known
      cases known
    · omega
  · omega

theorem answerResponse_upToDate {r : Response} {source : Endpoint}
    (usable : Usable kx good (answerResponse kx r source t).member.directory)
    (root : ∀ s, t.member.seat = some s → good s.tree.rootSecret) (shut : t.member.isOpen = false)
    (positive : ∀ s, t.member.seat = some s → 0 < s.keysComputed) (upToDate : t.member.UpToDate)
    (seated : t.member.seat.isSome)
    (own : r.newSponsor.endpoint = t.member.endpoint →
      ∀ s, t.member.seat = some s → s.id = r.newSponsor.id.toNat) :
    (answerResponse kx r source t).member.UpToDate := by
  obtain ⟨handOver, directory, pending, learned⟩ := Follows.learnFrom_frame r source t.member
  unfold answerResponse at usable ⊢
  split
  · exact upToDate
  · next guard =>
    rw [if_neg guard] at usable
    split
    · exact upToDate
    · next count =>
      rw [if_neg count] at usable
      dsimp only at usable ⊢
      split
      · next named =>
        split
        · rw [Turn.member_modify, learned] at named
          exact learnFrom_upToDate upToDate positive (own named)
        · next free =>
          rw [Turn.member_modify, learned] at free
          simp [seated] at free
      · next named =>
        rw [if_neg named] at usable
        refine makeProgress_upToDate usable ?_ ?_ ?_
        all_goals rw [Turn.member_modify, learned]
        · exact root
        · exact shut
        · exact positive

theorem announceEnd_frame (t : Turn Chain) :
    ∃ agenda farewells, (announceEnd t).member = { t.member with agenda, farewells } := by
  unfold announceEnd
  obtain ⟨agenda, member, -⟩ := arms_scheduleAfter
    (((t.modify fun c ↦ { c with farewells := some [] }).cancel .synchToken).keepSending .finish
      none .finish) .finishTimeout t.member.config.finishTimeout
  obtain ⟨sending, sent⟩ := Turn.member_keepSending
    ((t.modify fun c ↦ { c with farewells := some [] }).cancel .synchToken) .finish none .finish
  rw [sent, Follows.member_cancel] at member
  exact ⟨agenda, some [], member⟩

/-- The token makes its holder apply whatever is recorded. -/
theorem holdToken_upToDate {source : Endpoint} {s : Seat} (seat : t.member.seat = some s)
    (usable : Usable kx good (holdToken kx source s t).member.directory)
    (root : good s.tree.rootSecret) (positive : 0 < s.keysComputed)
    (taken : t.member.token.taken → t.member.isComplete) :
    (holdToken kx source s t).member.UpToDate := by
  unfold holdToken at usable ⊢
  dsimp only at usable ⊢
  generalize received : (if t.member.token.held = true then t
    else (t.modify fun c ↦ { c with token.held := true }).emit (.tokenReceived source)) = u
    at usable ⊢
  have member : ∃ token, u.member = { t.member with token } := by
    rw [← received]
    split
    · exact ⟨t.member.token, rfl⟩
    · exact ⟨_, rfl⟩
  have same : u.member.token.taken = t.member.token.taken := by
    rw [← received]
    split <;> rfl
  obtain ⟨token, member⟩ := member
  have seat' : u.member.seat = some s := by
    rw [member]
    exact seat
  split
  · next last =>
    split
    · exact upToDate_of_last seat' (by omega)
    · obtain ⟨agenda, farewells, announce⟩ := announceEnd_frame u
      rw [announce]
      exact upToDate_of_last (c := { u.member with agenda, farewells }) seat'
        (Nat.lt_of_le_of_lt (Nat.le_of_eq last.symm) (Nat.lt_add_of_pos_right positive))
  · next inner =>
    rw [if_neg inner] at usable
    split
    · next passed =>
      rw [same] at passed
      obtain ⟨_, again, all⟩ := isComplete_iff.mp (taken passed)
      rw [seat] at again
      cases again
      rw [Turn.member_unicast, member]
      have full : t.member.size < s.id + s.keysComputed := by omega
      exact upToDate_of_last (c := { t.member with token }) seat full
    · next fresh =>
      rw [if_neg fresh] at usable
      refine pressOn_upToDate usable ?_
      rw [seat']
      rintro _ ⟨⟩
      exact root

theorem answerToken_upToDate {target : Nat} {source : Endpoint}
    (usable : Usable kx good (answerToken kx target source t).member.directory)
    (root : ∀ s, t.member.seat = some s → good s.tree.rootSecret)
    (positive : ∀ s, t.member.seat = some s → 0 < s.keysComputed)
    (taken : t.member.token.taken → t.member.isComplete)
    (upToDate : t.member.token.held → t.member.UpToDate)
    (held : (answerToken kx target source t).member.token.held) :
    (answerToken kx target source t).member.UpToDate := by
  obtain ⟨handOver, hear⟩ := hearAssigned_frame t.member source
  unfold answerToken at usable held ⊢
  split
  · next finished =>
    rw [if_pos finished] at held
    exact upToDate held
  · next running =>
    rw [if_neg running] at usable held
    split
    · next free =>
      intro s seat
      rw [free] at seat
      cases seat
    · next s seat =>
      rw [seat] at usable held
      dsimp only at usable held ⊢
      split
      · next own =>
        rw [if_pos own] at usable
        refine holdToken_upToDate ?_ usable (root s seat) (positive s seat) ?_
        · rw [Turn.member_modify, hear]
          exact seat
        · rw [Turn.member_modify, hear]
          exact taken
      · next other =>
        rw [if_neg other] at held
        obtain ⟨agenda, taken', overheard⟩ :=
          overhearToken_frame target source s (t.modify fun c ↦ c.hearAssigned source)
        rw [Turn.member_modify, hear] at overheard
        rw [overheard] at held ⊢
        exact upToDate held

/-- Only the token makes a member hold it. -/
theorem Moves.held (moves : Moves kx cause c said d)
    (other : ∀ target source, cause ≠ .message (.token target) source) (held : d.token.held) :
    c.token.held := by
  induction moves with
  | rest => exact held
  | tail _ move ih =>
    apply ih
    rcases move.token_cases with same | ⟨target, source, _, told, -⟩ | ⟨_, -, -, -, same⟩ |
      ⟨-, -, same⟩
    · rwa [same] at held
    · exact absurd told (other target source)
    · rwa [same] at held
    · rwa [same] at held

/-- A member that learns nothing stays up to date, if it cannot let anybody in. -/
theorem Moves.upToDate (moves : Moves kx cause c said d)
    (untold : ∀ endpoint id value, ¬Tells cause endpoint id value) (seated : c.seat.isSome)
    (shut : c.isOpen = false) (upToDate : c.UpToDate) :
    d.seat.isSome ∧ d.isOpen = false ∧ d.UpToDate := by
  induction moves with
  | rest => exact ⟨seated, shut, upToDate⟩
  | tail _ move ih =>
    obtain ⟨seated, shut, upToDate⟩ := ih
    cases move with
    | learn endpoint id value told => exact absurd told (untold endpoint id value)
    | enqueue service value source =>
      obtain ⟨_, frame⟩ := enqueue_frame _ ⟨source, value⟩
      rw [frame]
      exact ⟨seated, shut, upToDate⟩
    | openGroup _ _ free =>
      rw [free] at seated
      cases seated
    | takeSeat r source _ named =>
      exact absurd (.inr (.inl ⟨r, named, rfl, rfl⟩)) (untold source _ _)
    | resign s seat =>
      refine ⟨rfl, by simp [isOpen], ?_⟩
      rintro _ ⟨⟩ room
      exact upToDate s seat room
    | enrol _ _ _ _ _ _ isOpen =>
      rw [shut] at isOpen
      cases isOpen
    | extend s _ _ seat known room =>
      have there := Directory.containsId_of_publicOf? known
      rw [upToDate s seat room] at there
      cases there
    | _ => exact ⟨seated, shut, upToDate⟩

theorem not_tells
    (answer : ∀ phase service id value source,
      cause ≠ .message (.infoResponse phase service id value) source)
    (handOver : ∀ r source, cause ≠ .message (.response r) source) (endpoint : Endpoint) (id : Nat)
    (value : PublicValue) : ¬Tells cause endpoint id value := by
  rintro (⟨phase, service, held, told, -⟩ | ⟨r, told, -⟩ | ⟨r, source, told, -⟩)
  · exact answer phase service held value endpoint told
  · exact handOver r endpoint told
  · exact handOver r source told

end Chain

/-! ## Wherever a group can get -/

namespace Roster

variable {ι : Type} {g : Roster ι} {kx : KeyExchange} {w : World ι} {i : ι} {cause input : Input}
  {said : List Outgoing} {d : Chain} {order : List ι}

/-- A datagram is dropped, or it is a message that the member hears. -/
theorem received {bytes : Bytes} {source : Endpoint}
    (allowed : w.Allows i (.datagram bytes source)) :
    (Chain.protocol kx).step (.datagram bytes source) (w.members i) = { member := w.members i } ∨
      ∃ m, w.Hears i (.message m source) ∧
        (Chain.protocol kx).step (.datagram bytes source) (w.members i) =
          Chain.answer kx m source { member := w.members i } := by
  obtain ⟨started, short, x, sent, rfl, rfl, -⟩ := allowed
  by_cases own : x.source = (w.members i).endpoint
  · exact .inl (if_pos own)
  · cases decoded : Message.decode x.message.encode with
    | error e =>
      refine .inl ?_
      simp only [Protocol.step, Protocol.receive, Chain.protocol, if_neg own, decoded]
    | ok received =>
      obtain rfl := Message.eq_of_decode_encode short decoded
      refine .inr ⟨x.message, ⟨started, own, x, sent, rfl, rfl⟩, ?_⟩
      simp only [Protocol.step, Protocol.receive, Chain.protocol, if_neg own, decoded]

/-- Whoever holds the token cannot let anybody in, since the token only travels when all ids are
given. -/
theorem Ordered.isOpen_eq_false (sound : g.Sound w) (ordered : g.Ordered w order)
    (justified : ∀ j, g.Justified w j) (held : (w.members i).token.held) :
    (w.members i).isOpen = false := by
  refine Bool.eq_false_iff.mpr fun isOpen ↦ ?_
  obtain ⟨s, seat⟩ := Chain.exists_seat_of_isOpen isOpen
  obtain ⟨last, -, small⟩ := ordered.last_of_isOpen sound seat isOpen
  obtain ⟨j, id, passed, -⟩ := (justified i).held held
  obtain ⟨s', seat', all⟩ := Chain.isComplete_iff.mp ((justified j).passed passed).1
  obtain ⟨-, few⟩ := (ordered.placed j).keys s' seat'
  have upper := (ordered.id_le_size seat').2
  rw [sound.size] at all
  omega

variable [DecidableEq ι]

/-- A holder of the token is up to date after every step. -/
theorem Reaches.upToDate_step (matched : g.KeysMatch kx) (dependable : g.Dependable kx)
    (reaches : g.Reaches kx w) (allowed : w.Allows i input)
    (before : (w.members i).token.held → (w.members i).UpToDate)
    (held : ((Chain.protocol kx).step input (w.members i)).member.token.held) :
    ((Chain.protocol kx).step input (w.members i)).member.UpToDate := by
  have sound := reaches.sound
  have justified := reaches.justified
  obtain ⟨order, ordered⟩ := reaches.ordered
  have next : g.Reaches kx (w.react kx i input) := reaches.tail ⟨i, input, allowed, rfl⟩
  obtain ⟨order', ordered'⟩ := next.ordered
  have usable : Chain.Usable kx (Honest kx g)
      ((Chain.protocol kx).step input (w.members i)).member.directory := by
    intro e entry a honest
    refine ordered'.agrees (i := i) matched dependable ?_ honest
    rw [World.react, World.act_self]
    exact entry
  have root (s : Seat) (seat : (w.members i).seat = some s) :=
    (reaches.genuine matched i).secret s seat
  have positive (s : Seat) (seat : (w.members i).seat = some s) : 0 < s.keysComputed :=
    ((ordered.placed i).keys s seat).1
  have seated (own : (w.members i).token.held) : (w.members i).seat.isSome := by
    obtain ⟨_, _, -, -, named⟩ := (justified i).held own
    obtain ⟨s, seat, -⟩ := ordered.seat_of_memberId? named
    simp [seat]
  have shut := ordered.isOpen_eq_false sound justified (i := i)
  -- Most inputs neither tell a value nor hand over the token.
  have quiet {cause : Input} {said : List Outgoing} {d : Chain}
      (moves : Chain.Moves kx cause (w.members i) said d)
      (untold : ∀ endpoint id value, ¬Chain.Tells cause endpoint id value)
      (other : ∀ target source, cause ≠ .message (.token target) source)
      (held : d.token.held) : d.UpToDate := by
    have own := moves.held other held
    exact (moves.upToDate untold (seated own) (shut own) (before own)).2.2
  cases input with
  | start =>
    have pristine := sound.fresh i allowed
    refine quiet ((Chain.Follows.start kx .start (w.members i)).begin rfl ?_ ?_)
      (Chain.not_tells (by simp) (by simp)) (by simp) held
    · rw [pristine]
      rfl
    · rw [sound.size]
      exact g.size_pos
  | timer task =>
    refine quiet ((Chain.Follows.start kx (.timer task) (w.members i)).expire rfl ?_)
      (Chain.not_tells (by simp) (by simp)) (by simp) held
    rintro rfl
    exact (sound.coherent i).armed allowed
  | message m source => exact allowed.elim
  | datagram bytes source =>
    rcases received allowed with dropped | ⟨m, hears, answered⟩
    · rw [dropped] at held ⊢
      exact before held
    · rw [answered] at held usable ⊢
      have moves := (Chain.Follows.start kx (.message m source) (w.members i)).answer rfl
        (sound.coherent i).taken
      cases m with
      | infoResponse phase service id value =>
        have own := moves.held (by simp) held
        exact Chain.takeAnswer_upToDate usable root (shut own) positive (before own)
      | response r =>
        have own := moves.held (by simp) held
        refine Chain.answerResponse_upToDate usable root (shut own) positive (before own)
          (seated own) fun named s seat ↦ ?_
        rw [sound.endpoint] at named
        have listed := ordered.listed_of_response sound hears named
        exact ((ordered.placed i).seat s seat).id_eq ordered.nodup listed
      | token target =>
        refine Chain.answerToken_upToDate usable root positive (fun taken ↦ ?_) before held
        exact ((justified i).passed ((sound.coherent i).taken taken)).1
      | _ => exact quiet moves (Chain.not_tells (by simp) (by simp)) (by simp) held

/-- Whoever holds the token has applied all that it knows, in every world that the group reaches. -/
theorem Reaches.upToDate (matched : g.KeysMatch kx) (dependable : g.Dependable kx)
    (reaches : g.Reaches kx w) (i : ι) (held : (w.members i).token.held) :
    (w.members i).UpToDate := by
  induction reaches generalizing i with
  | refl => simp [world, member] at held
  | @tail v w reached step ih =>
    obtain ⟨j, input, allowed, rfl⟩ := step
    by_cases same : i = j
    · subst same
      rw [World.react, World.act_self] at held ⊢
      exact Reaches.upToDate_step matched dependable reached allowed (ih i) held
    · rw [World.react, World.act_of_ne same] at held ⊢
      exact ih i held

end Roster

end GroupKey
