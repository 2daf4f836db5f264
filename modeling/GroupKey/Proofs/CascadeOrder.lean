import GroupKey.Proofs.Exposure
import GroupKey.Proofs.UpToDate

/-!
# The cascade does not depend on the order of arrival

A member that is not the sponsor applies values in the order of ids, whatever the order in which it
learns them.  As long as nobody contradicts anybody, what it knows in the end depends only on what
it was told, and its tree only on what it knows.
-/

namespace GroupKey

namespace Directory

variable {d : Directory} {facts facts' : List DirectoryEntry}

/-- Records several entries, one after the other. -/
def recordAll (d : Directory) (facts : List DirectoryEntry) : Directory :=
  facts.foldl (fun d e ↦ (d.record e.endpoint e.id e.publicValue).2) d

/-- The facts contradict neither each other nor the directory: no endpoint has two ids, and no id
two endpoints or two values. -/
def Agrees (d : Directory) (facts : List DirectoryEntry) : Prop :=
  ∀ e ∈ facts, ∀ e' ∈ d.entries ++ facts, e.endpoint = e'.endpoint ∨ e.id = e'.id → e = e'

/-- An entry that agrees with the directory is in it afterwards, whether it was there or not. -/
theorem find?_record {e : DirectoryEntry}
    (agrees : ∀ e' ∈ d.entries, e.endpoint = e'.endpoint ∨ e.id = e'.id → e = e')
    (p : DirectoryEntry → Bool) :
    (d.record e.endpoint e.id e.publicValue).2.entries.find? p =
      (d.entries.find? p).or ([e].find? p) := by
  rcases d.record_cases e.endpoint e.id e.publicValue with ⟨⟨e', here, same⟩, kept⟩ | ⟨-, -, made⟩
  · have listed : e ∈ d.entries := agrees e' here (same.imp Eq.symm Eq.symm) ▸ here
    rw [kept]
    cases found : d.entries.find? p with
    | some e' => rfl
    | none =>
      have fails : ¬ p e = true := List.find?_eq_none.mp found e listed
      simp [fails]
  · rw [made]
    exact List.find?_append

theorem find?_recordAll (agrees : d.Agrees facts) (p : DirectoryEntry → Bool) :
    (d.recordAll facts).entries.find? p = (d.entries.find? p).or (facts.find? p) := by
  induction facts generalizing d with
  | nil => exact (Option.or_none).symm
  | cons e facts ih =>
    have first : ∀ e' ∈ d.entries, e.endpoint = e'.endpoint ∨ e.id = e'.id → e = e' :=
      fun e' here ↦ agrees e (by simp) e' (by simp [here])
    have rest : (d.record e.endpoint e.id e.publicValue).2.Agrees facts := by
      intro e₁ here e₂ there
      refine agrees e₁ (by simp [here]) e₂ ?_
      rcases List.mem_append.mp there with there | there
      · rcases mem_record there with old | rfl
        · simp [old]
        · simp
      · simp [there]
    calc
      ((d.record e.endpoint e.id e.publicValue).2.recordAll facts).entries.find? p =
          ((d.entries.find? p).or ([e].find? p)).or (facts.find? p) := by
        rw [ih rest, find?_record first]
      _ = (d.entries.find? p).or ((e :: facts).find? p) := by
        rw [Option.or_assoc, ← List.find?_append]
        rfl

theorem mem_recordAll (agrees : d.Agrees facts) {e : DirectoryEntry} :
    e ∈ (d.recordAll facts).entries ↔ e ∈ d.entries ∨ e ∈ facts := by
  have found := congrArg Option.isSome (find?_recordAll agrees fun e' ↦ e' = e)
  rw [Option.isSome_or] at found
  simpa [List.find?_isSome] using congrArg (· = true) found

/-- What is known stays known. -/
theorem publicOf?_record {id : Nat} {value : PublicValue} (known : d.publicOf? id = some value)
    (e : DirectoryEntry) :
    (d.record e.endpoint e.id e.publicValue).2.publicOf? id = some value := by
  rcases d.record_cases e.endpoint e.id e.publicValue with ⟨-, kept⟩ | ⟨-, -, made⟩
  · rw [kept]
    exact known
  · obtain ⟨found, here, same⟩ := Option.map_eq_some_iff.mp known
    rw [find?] at here
    rw [made, publicOf?, find?, List.find?_append, here]
    exact congrArg some same

theorem publicOf?_recordAll {id : Nat} {value : PublicValue} (known : d.publicOf? id = some value)
    (facts : List DirectoryEntry) : (d.recordAll facts).publicOf? id = some value := by
  induction facts generalizing d with
  | nil => exact known
  | cons e facts ih => exact ih (publicOf?_record known e)

/-- Facts that agree are found in any order. -/
theorem Agrees.find?_congr (agrees : d.Agrees facts) (same : ∀ e, e ∈ facts' ↔ e ∈ facts)
    {p : DirectoryEntry → Bool}
    (key : ∀ e e', p e → p e' → e.endpoint = e'.endpoint ∨ e.id = e'.id) :
    facts'.find? p = facts.find? p := by
  cases found : facts.find? p with
  | none =>
    rw [List.find?_eq_none] at found ⊢
    exact fun e here ↦ found e ((same e).mp here)
  | some e =>
    have here := List.mem_of_find?_eq_some found
    have fits := List.find?_some found
    have listed : (facts'.find? p).isSome :=
      List.find?_isSome.mpr ⟨e, (same e).mpr here, fits⟩
    obtain ⟨e', found'⟩ := Option.isSome_iff_exists.mp listed
    have here' := (same e').mp (List.mem_of_find?_eq_some found')
    rw [found', agrees e' here' e (by simp [here]) (key _ _ (List.find?_some found') fits)]

theorem Agrees.congr (agrees : d.Agrees facts) (same : ∀ e, e ∈ facts' ↔ e ∈ facts) :
    d.Agrees facts' := by
  intro e here e' there
  refine agrees e ((same e).mp here) e' ?_
  simpa [same] using there

theorem Agrees.lookups_congr (agrees : d.Agrees facts) (same : ∀ e, e ∈ facts' ↔ e ∈ facts) :
    (d.recordAll facts').idOf? = (d.recordAll facts).idOf? ∧
      (d.recordAll facts').publicOf? = (d.recordAll facts).publicOf? := by
  refine ⟨funext fun endpoint ↦ ?_, funext fun id ↦ ?_⟩
  · rw [idOf?, idOf?, find?_recordAll (agrees.congr same), find?_recordAll agrees,
      agrees.find?_congr same fun e e' here there ↦ .inl (by simp_all)]
  · rw [publicOf?, publicOf?, find?, find?, find?_recordAll (agrees.congr same),
      find?_recordAll agrees, agrees.find?_congr same fun e e' here there ↦ .inr (by simp_all)]

end Directory

namespace KeyTree

variable {kx : KeyExchange} {t t' : KeyTree} {value : PublicValue} {values : List PublicValue}

/-- Adds a node for each of several contributions, the first one first. -/
def grow (kx : KeyExchange) (t : KeyTree) (values : List PublicValue) :
    Except CryptoError KeyTree :=
  values.foldlM (fun t value ↦ t.extend kx value false) t

/-- The nodes of the new contributions lie on top of the old ones, the last one topmost. -/
theorem nodes_of_grow (grown : t.grow kx values = .ok t') :
    ∃ new, t'.nodes = new ++ t.nodes ∧ new.map KeyNode.leafPublic = values.reverse := by
  induction values generalizing t with
  | nil =>
    cases grown
    exact ⟨[], rfl, rfl⟩
  | cons value values ih =>
    cases extended : t.extend kx value false with
    | error e => simp [grow, extended, bind, Except.bind] at grown
    | ok next =>
      have rest : next.grow kx values = .ok t' := by
        simpa [grow, extended, bind, Except.bind] using grown
      obtain ⟨root, -, rfl⟩ := KeyTree.extend_silent_eq_ok extended
      obtain ⟨new, nodes, leaves⟩ := ih rest
      refine ⟨new ++ [⟨root, none, none, value⟩], ?_, ?_⟩
      · rw [nodes, List.append_assoc]
        rfl
      · rw [List.map_append, leaves, List.reverse_cons]
        rfl

/-- A tree does not grow only if the key exchange rejects the value. -/
theorem agree_of_extend_eq_error {e : CryptoError} (rejected : t.extend kx value false = .error e) :
    kx.agree t.rootSecret value = .error e := by
  unfold extend at rejected
  cases agreed : kx.agree t.rootSecret value with
  | error e' => simpa [agreed, bind, Except.bind] using rejected
  | ok root => simp [agreed, bind, Except.bind, pure, Except.pure] at rejected

end KeyTree

namespace Seat

variable {kx : KeyExchange} {known known' : Nat → Option PublicValue} {size : Nat} {s t u : Seat}

/-- One more contribution, the known one of the id that comes next. -/
def Gains (kx : KeyExchange) (known : Nat → Option PublicValue) (size : Nat) (s t : Seat) : Prop :=
  s.id + s.keysComputed ≤ size ∧ ∃ value tree, known (s.id + s.keysComputed) = some value ∧
    s.tree.extend kx value false = .ok tree ∧
    t = { s with tree, keysComputed := s.keysComputed + 1 }

/-- There is nothing more to apply. -/
def Stuck (kx : KeyExchange) (known : Nat → Option PublicValue) (size : Nat) (s : Seat) : Prop :=
  ∀ t, ¬ s.Gains kx known size t

theorem gains_rightUnique : Relator.RightUnique (Gains kx known size) := by
  rintro s t u ⟨-, value, tree, here, extended, rfl⟩ ⟨-, value', tree', here', extended', rfl⟩
  cases here.symm.trans here'
  cases extended.symm.trans extended'
  rfl

theorem Gains.mono (more : ∀ id value, known id = some value → known' id = some value)
    (gains : s.Gains kx known size t) : s.Gains kx known' size t := by
  obtain ⟨room, value, tree, here, rest⟩ := gains
  exact ⟨room, value, tree, more _ _ here, rest⟩

/-- Where nothing more can be applied, all ways there end. -/
theorem Stuck.eq_of_gains (stuck : s.Stuck kx known size)
    (gains : Relation.ReflTransGen (Gains kx known size) s t) : s = t := by
  cases Relation.ReflTransGen.cases_head gains with
  | inl same => exact same
  | inr gains =>
    obtain ⟨next, first, -⟩ := gains
    exact absurd first (stuck next)

theorem eq_of_stuck (first : Relation.ReflTransGen (Gains kx known size) s t)
    (stuck : t.Stuck kx known size) (second : Relation.ReflTransGen (Gains kx known size) s u)
    (stuck' : u.Stuck kx known size) : t = u := by
  rcases Relation.ReflTransGen.total_of_right_unique gains_rightUnique first second with on | on
  · exact stuck.eq_of_gains on
  · exact (stuck'.eq_of_gains on).symm

/-- What was applied are the values of the ids that come next, in ascending order. -/
theorem grown_of_gains (gains : Relation.ReflTransGen (Gains kx known size) s t) :
    ∃ values : List PublicValue,
      t.id = s.id ∧ t.sponsor = s.sponsor ∧ t.keysComputed = s.keysComputed + values.length ∧
      (List.range' (s.id + s.keysComputed) values.length).map known = values.map some ∧
      (values ≠ [] → t.id + t.keysComputed ≤ size + 1) ∧
      s.tree.grow kx values = .ok t.tree := by
  induction gains with
  | refl => exact ⟨[], rfl, rfl, rfl, rfl, by simp, rfl⟩
  | @tail t u _ next ih =>
    obtain ⟨values, id, sponsor, keys, read, -, grown⟩ := ih
    obtain ⟨room, value, tree, here, extended, rfl⟩ := next
    refine ⟨values ++ [value], id, sponsor, ?_, ?_, fun _ ↦ Nat.succ_le_succ room, ?_⟩
    · rw [keys, List.length_append]
      rfl
    · have last : known (s.id + s.keysComputed + 1 * values.length) = some value := by
        rw [← here, id, keys]
        congr 1
        omega
      rw [List.length_append, List.length_singleton, List.range'_concat, List.map_append, read,
        List.map_append, List.map_singleton, last]
      rfl
    · rw [KeyTree.grow, List.foldlM_append]
      unfold KeyTree.grow at grown
      rw [grown]
      change List.foldlM _ _ _ = _
      simp [bind, Except.bind, extended, pure, Except.pure]

/-- The second seat has on top of the first one's tree what is known of the next ids, in ascending
order and nothing else, and as much of it as can be applied. -/
structure CaughtUp (kx : KeyExchange) (known : Nat → Option PublicValue) (size : Nat) (s t : Seat)
    (values : List PublicValue) : Prop where
  id : t.id = s.id
  keys : t.keysComputed = s.keysComputed + values.length
  recorded : (List.range' (s.id + s.keysComputed) values.length).map known = values.map some
  grown : s.tree.grow kx values = .ok t.tree
  nodes : ∃ new, t.tree.nodes = new ++ s.tree.nodes ∧ new.map KeyNode.leafPublic = values.reverse
  within : values ≠ [] → t.id + t.keysComputed ≤ size + 1
  halts : size < t.id + t.keysComputed ∨ known (t.id + t.keysComputed) = none ∨
    ∃ value e, known (t.id + t.keysComputed) = some value ∧
      kx.agree t.tree.rootSecret value = .error e

theorem caughtUp_of_stuck (gains : Relation.ReflTransGen (Gains kx known size) s t)
    (stuck : t.Stuck kx known size) : ∃ values, s.CaughtUp kx known size t values := by
  obtain ⟨values, id, -, keys, read, room, grown⟩ := grown_of_gains gains
  refine ⟨values, id, keys, read, grown, KeyTree.nodes_of_grow grown, room, ?_⟩
  by_cases within : t.id + t.keysComputed ≤ size
  · refine .inr ?_
    cases here : known (t.id + t.keysComputed) with
    | none => exact .inl rfl
    | some value =>
      cases extended : t.tree.extend kx value false with
      | ok tree => exact absurd ⟨within, value, tree, here, extended, rfl⟩ (stuck _)
      | error e => exact .inr ⟨value, e, rfl, KeyTree.agree_of_extend_eq_error extended⟩
  · exact .inl (Nat.not_le.mp within)

end Seat

namespace Chain

variable {kx : KeyExchange} {c d e : Chain} {s s' s'' : Seat} {t : Turn Chain} {input : Input}
  {facts facts' : List DirectoryEntry}

/-! ## The cascade -/

/-- The second seat is the first one with more of the values that the member knows. -/
def Climbs (kx : KeyExchange) (c : Chain) : Seat → Seat → Prop :=
  Relation.ReflTransGen (Seat.Gains kx c.directory.publicOf? c.size)

theorem applyAll_climbs (kx : KeyExchange) (seat : t.member.seat = some s) (count : Nat)
    (whole : t.member.size < s.id + s.keysComputed + count)
    (bounded : s.id + s.keysComputed + count ≤ t.member.size + 1 ∨ count = 0) :
    ∃ s', (applyAll kx (List.range' (s.id + s.keysComputed) count) t).member =
        { t.member with seat := some s' } ∧
      t.member.Climbs kx s s' ∧ s'.Stuck kx t.member.directory.publicOf? t.member.size := by
  induction count generalizing s t with
  | zero =>
    have same : t.member = { t.member with seat := some s } := by rw [← seat]
    refine ⟨s, same, .refl, ?_⟩
    rintro _ ⟨room, -⟩
    omega
  | succ count ih =>
    have halts (stuck : s.Stuck kx t.member.directory.publicOf? t.member.size) :
        ∃ s', t.member = { t.member with seat := some s' } ∧ t.member.Climbs kx s s' ∧
          s'.Stuck kx t.member.directory.publicOf? t.member.size :=
      ⟨s, by rw [← seat], .refl, stuck⟩
    rw [List.range'_succ]
    unfold applyAll
    rw [seat]
    cases known : t.member.directory.publicOf? (s.id + s.keysComputed) with
    | none =>
      refine halts ?_
      rintro _ ⟨-, value, -, here, -⟩
      rw [known] at here
      cases here
    | some value =>
      dsimp only
      cases extended : s.tree.extend kx value false with
      | error fault =>
        refine halts ?_
        rintro _ ⟨-, value', tree, here, granted, -⟩
        cases known.symm.trans here
        rw [extended] at granted
        cases granted
      | ok tree =>
        dsimp only
        let next : Seat := { s with tree, keysComputed := s.keysComputed + 1 }
        generalize reported :
          reportKey ((t.count .cryptoOperations).modify fun c ↦ { c with seat := some next }) = u
        have member : u.member = { t.member with seat := some next } := by
          rw [← reported, Follows.member_reportKey]
          rfl
        have size : u.member.size = t.member.size := by
          rw [member]
          rfl
        obtain ⟨s', final, climbs, stuck⟩ :=
          ih (s := next) (t := u) (by rw [member]) (by dsimp only [next]; omega)
            (by dsimp only [next]; omega)
        unfold Climbs at climbs
        rw [size, member] at climbs stuck
        refine ⟨s', ?_, .head ⟨by omega, value, tree, known, extended, rfl⟩ climbs, stuck⟩
        subst reported
        exact final.trans (by rw [member])

theorem cascade_climbs (kx : KeyExchange) (seat : t.member.seat = some s) :
    ∃ s' announced, (cascade kx t).member = { t.member with seat := some s', announced } ∧
      t.member.Climbs kx s s' ∧ s'.Stuck kx t.member.directory.publicOf? t.member.size := by
  unfold cascade Directory.idsBelow
  rw [seat]
  obtain ⟨s', member, climbs, stuck⟩ := applyAll_climbs kx seat
    (t.member.size + 1 - (s.id + s.keysComputed)) (by omega) (by omega)
  obtain ⟨announced, announce⟩ := Follows.member_announceKey
    (applyAll kx (List.range' (s.id + s.keysComputed)
      (t.member.size + 1 - (s.id + s.keysComputed))) t)
  refine ⟨s', announced, ?_, climbs, stuck⟩
  rw [announce, member]

/-- What a member that has been let in learns from an answer or from a hand-over that names somebody
else.  Echoes and answers of other services teach nothing; there is no lesson in anything else. -/
def lesson? (c : Chain) : Input → Option (List DirectoryEntry)
  | .datagram bytes source =>
    if source = c.endpoint then some []
    else match Message.decode bytes with
      | .ok (.infoResponse _ service id value) =>
        some (if service = c.config.service then [⟨source, id.toNat, value⟩] else [])
      | .ok (.response r) =>
        if r.service = c.config.service ∧ r.memberCount = c.config.memberCount ∧
            r.newSponsor.endpoint ≠ c.endpoint then
          some [⟨source, r.newSponsor.id.toNat - 1, r.predecessorPublic⟩,
            ⟨r.newSponsor.endpoint, r.newSponsor.id.toNat, r.newSponsor.publicValue⟩]
        else none
      | _ => none
  | _ => none

/-- All that a list of inputs teaches. -/
def lessons (c : Chain) (inputs : List Input) : List DirectoryEntry :=
  inputs.flatMap fun input ↦ (c.lesson? input).getD []

/-- The second state is that of a member that was told the facts in the first. -/
structure Taught (kx : KeyExchange) (facts : List DirectoryEntry) (c : Chain) (s : Seat) (d : Chain)
    (s' : Seat) : Prop where
  config : d.config = c.config
  endpoint : d.endpoint = c.endpoint
  running : d.finished = c.finished
  directory : d.directory = c.directory.recordAll facts
  seat : d.seat = some s'
  climbs : d.Climbs kx s s'
  idle : facts = [] → s' = s
  stuck : facts ≠ [] → s'.Stuck kx d.directory.publicOf? d.size

theorem Taught.nothing (seat : c.seat = some s) : Taught kx [] c s c s :=
  ⟨rfl, rfl, rfl, rfl, seat, .refl, fun _ ↦ rfl, fun told ↦ absurd rfl told⟩

theorem Taught.trans (first : Taught kx facts c s d s') (second : Taught kx facts' d s' e s'') :
    Taught kx (facts ++ facts') c s e s'' := by
  have size : e.size = d.size := congrArg MemberConfig.size second.config
  have more : ∀ id value, d.directory.publicOf? id = some value →
      e.directory.publicOf? id = some value := by
    intro id value known
    rw [second.directory]
    exact Directory.publicOf?_recordAll known facts'
  have climbed : e.Climbs kx s s' := by
    have climbs := first.climbs
    unfold Climbs at climbs ⊢
    rw [size]
    exact Relation.ReflTransGen.mono (fun _ _ gains ↦ Seat.Gains.mono more gains) _ _ climbs
  refine
    { config := second.config.trans first.config
      endpoint := second.endpoint.trans first.endpoint
      running := second.running.trans first.running
      directory := ?_
      seat := second.seat
      climbs := climbed.trans second.climbs
      idle := fun none ↦ ?_
      stuck := fun taught ↦ ?_ }
  · rw [second.directory, first.directory, Directory.recordAll, Directory.recordAll,
      ← List.foldl_append]
    rfl
  · obtain ⟨none, none'⟩ := List.append_eq_nil_iff.mp none
    exact (second.idle none').trans (first.idle none)
  · cases facts' with
    | cons fact facts' => exact second.stuck (by simp)
    | nil =>
      -- Nothing new was told, and nothing was left to apply before.
      have same : e.directory = d.directory := second.directory
      have stuck := first.stuck (by simpa using taught)
      have climbs := second.climbs
      unfold Climbs at climbs
      rw [size, same] at climbs ⊢
      rwa [← stuck.eq_of_gains climbs]

/-- After a member was told something, it applies whatever it can. -/
theorem taught_makeProgress (kx : KeyExchange) (seat : c.seat = some s)
    (other : s.sponsor = false) (new : facts ≠ []) {handOver : Option HandOver}
    {pending : List Candidate} (told : t.member =
      { c with handOver, pending, directory := c.directory.recordAll facts }) :
    ∃ s', Taught kx facts c s (makeProgress kx t).member s' := by
  have here : t.member.seat = some s := by
    rw [told]
    exact seat
  unfold makeProgress
  rw [here]
  simp only [other, Bool.false_eq_true, if_false]
  obtain ⟨s', announced, member, climbs, stuck⟩ := cascade_climbs kx here
  obtain ⟨agenda, token, tended⟩ := tendToken_frame (cascade kx t)
  refine ⟨s', ?_⟩
  unfold Climbs at climbs
  rw [told] at climbs stuck
  rw [tended, member, told]
  exact ⟨rfl, rfl, rfl, rfl, rfl, climbs, fun none ↦ absurd none new, fun _ ↦ stuck⟩

theorem learn_of_foreign {endpoint : Endpoint} (foreign : endpoint ≠ c.endpoint) (id : Nat)
    (value : PublicValue) :
    ∃ pending, c.learn endpoint id value =
      { c with pending, directory := (c.directory.record endpoint id value).2 } :=
  ⟨_, if_neg foreign⟩

theorem learnFrom_of_foreign {r : Response} {source : Endpoint} (foreign : source ≠ c.endpoint)
    (other : r.newSponsor.endpoint ≠ c.endpoint) :
    ∃ handOver pending, learnFrom r source c =
      { c with
        handOver, pending
        directory := c.directory.recordAll
          [⟨source, r.newSponsor.id.toNat - 1, r.predecessorPublic⟩,
            ⟨r.newSponsor.endpoint, r.newSponsor.id.toNat, r.newSponsor.publicValue⟩] } := by
  obtain ⟨heard, hear⟩ := hearAssigned_frame c source
  unfold learnFrom
  dsimp only
  rw [hear]
  split
  · obtain ⟨pending, first⟩ :=
      learn_of_foreign (c := ({ c with handOver := heard } : Chain).confirm) foreign
        (r.newSponsor.id.toNat - 1) r.predecessorPublic
    rw [first]
    exact ⟨_, _, if_neg other⟩
  · obtain ⟨pending, first⟩ :=
      learn_of_foreign (c := ({ c with handOver := heard } : Chain)) foreign
        (r.newSponsor.id.toNat - 1) r.predecessorPublic
    rw [first]
    exact ⟨_, _, if_neg other⟩

/-- Every lesson is heeded by a member that is not the sponsor and not finished. -/
theorem taught_of_lesson (kx : KeyExchange) (seat : c.seat = some s) (other : s.sponsor = false)
    (running : c.finished = false) (lesson : c.lesson? input = some facts) :
    ∃ s', Taught kx facts c s ((Chain.protocol kx).step input c).member s' := by
  cases input with
  | datagram bytes source =>
    unfold lesson? at lesson
    dsimp only at lesson
    split at lesson
    · next own =>
      cases lesson
      have echo : (Chain.protocol kx).step (.datagram bytes source) c = { member := c } :=
        Protocol.receive_own own
      rw [echo]
      exact ⟨s, .nothing seat⟩
    · next foreign =>
      split at lesson
      · next phase service id value decoded =>
        have answered : (Chain.protocol kx).step (.datagram bytes source) c =
            takeAnswer kx service id value source { member := c } :=
          Protocol.receive_of_ok foreign decoded
        rw [answered]
        unfold takeAnswer
        split at lesson
        · next own =>
          cases lesson
          obtain ⟨handOver, hear⟩ := hearAssigned_frame c source
          obtain ⟨pending, learnt⟩ :=
            learn_of_foreign (c := { c with handOver }) foreign id.toNat value
          rw [if_neg (by simp [isFor, own, running])]
          have told : (({ member := c } : Turn Chain).modify fun c ↦
              (c.hearAssigned source).learn source id.toNat value).member =
                { c with
                  handOver, pending
                  directory := c.directory.recordAll [⟨source, id.toNat, value⟩] } := by
            rw [Turn.member_modify, hear, learnt]
            rfl
          exact taught_makeProgress kx seat other (by simp) told
        · next strange =>
          cases lesson
          rw [if_pos (by simp [isFor, strange])]
          exact ⟨s, .nothing seat⟩
      · next r decoded =>
        have answered : (Chain.protocol kx).step (.datagram bytes source) c =
            answerResponse kx r source { member := c } :=
          Protocol.receive_of_ok foreign decoded
        rw [answered]
        unfold answerResponse
        split at lesson
        · next own =>
          obtain ⟨service, count, another⟩ := own
          cases lesson
          obtain ⟨handOver, pending, learnt⟩ := learnFrom_of_foreign foreign another
          have unnamed :
              r.newSponsor.endpoint ≠ (({ member := c } : Turn Chain).modify
                (learnFrom r source)).member.endpoint := by
            rw [Turn.member_modify, learnt]
            exact another
          rw [if_neg (by simp [isFor, service, running]), if_neg (by simp [count])]
          dsimp only
          rw [if_neg unnamed]
          exact taught_makeProgress kx seat other (by simp)
            (by rw [Turn.member_modify, learnt])
        · cases lesson
      · cases lesson
  | _ => cases lesson

theorem lesson?_congr (config : d.config = c.config) (endpoint : d.endpoint = c.endpoint) :
    d.lesson? = c.lesson? := by
  funext input
  unfold lesson?
  rw [config, endpoint]

/-- A member that was told several things, one after the other. -/
theorem taught_after (kx : KeyExchange) {inputs : List Input} (seat : c.seat = some s)
    (other : s.sponsor = false) (running : c.finished = false)
    (heeded : ∀ input ∈ inputs, (c.lesson? input).isSome) :
    ∃ s', Taught kx (c.lessons inputs) c s ((Chain.protocol kx).after c inputs) s' := by
  induction inputs generalizing c s with
  | nil => exact ⟨s, .nothing seat⟩
  | cons input inputs ih =>
    obtain ⟨facts, lesson⟩ := Option.isSome_iff_exists.mp (heeded input (by simp))
    obtain ⟨s', first⟩ := taught_of_lesson kx seat other running lesson
    obtain ⟨_, -, sponsor, -⟩ := Seat.grown_of_gains first.climbs
    have later := lesson?_congr first.config first.endpoint
    obtain ⟨s'', rest⟩ := ih first.seat (sponsor.trans other) (first.running.trans running)
      fun input here ↦ by
        rw [later]
        exact heeded input (by simp [here])
    have all : c.lessons (input :: inputs) =
        facts ++ ((Chain.protocol kx).step input c).member.lessons inputs := by
      rw [lessons, List.flatMap_cons, lesson, lessons, later]
      rfl
    rw [all]
    exact ⟨s'', first.trans rest⟩

theorem mem_lessons_congr {inputs inputs' : List Input}
    (same : ∀ input, input ∈ inputs' ↔ input ∈ inputs) (e : DirectoryEntry) :
    e ∈ c.lessons inputs' ↔ e ∈ c.lessons inputs := by
  simp only [lessons, List.mem_flatMap, same]

/-- Two members that know the same and hold the same keys. -/
structure Alike (c d : Chain) : Prop where
  ids : d.directory.idOf? = c.directory.idOf?
  values : d.directory.publicOf? = c.directory.publicOf?
  keys : d.keysComputed = c.keysComputed
  tree : d.tree? = c.tree?
  secret : d.groupSecret? = c.groupSecret?

/-- What the same things were told to, in whatever order and however often, is alike. -/
theorem Taught.alike (agrees : c.directory.Agrees facts) (same : ∀ e, e ∈ facts' ↔ e ∈ facts)
    (first : Taught kx facts c s d s') (second : Taught kx facts' c s e s'') : d.Alike e := by
  have config : e.config = d.config := second.config.trans first.config.symm
  have size : e.size = d.size := congrArg MemberConfig.size config
  obtain ⟨ids, values⟩ := agrees.lookups_congr same
  rw [← first.directory, ← second.directory] at ids values
  have both : facts' = [] ↔ facts = [] := by
    simp only [List.eq_nil_iff_forall_not_mem, same]
  have last : s'' = s' := by
    by_cases told : facts = []
    · rw [first.idle told, second.idle (both.mpr told)]
    · have climbs := second.climbs
      have stuck := second.stuck (mt both.mp told)
      unfold Climbs at climbs
      rw [size, values] at climbs stuck
      exact (Seat.eq_of_stuck first.climbs (first.stuck told) climbs stuck).symm
  have seat : e.seat = d.seat := by
    rw [first.seat, second.seat, last]
  refine ⟨ids, values, ?_, ?_, ?_⟩
  · rw [keysComputed, seat, keysComputed]
  · rw [tree?, seat, tree?]
  · rw [groupSecret?, isComplete, tree?, seat, size, groupSecret?, isComplete, tree?]

end Chain

/-! ## Order of arrival -/

/-- A member with a seat that is neither the sponsor nor finished is told, in any order and any
number of times, things that nobody contradicts.  What it then knows, and all its keys, depend only
on what it was told.  Its tree is the old one with the recorded values of the next ids on top, in
ascending order, up to the end of the group or to the first value that is unknown or rejected. -/
theorem cascade_in_order {kx : KeyExchange} {c : Chain} {s : Seat} {inputs : List Input}
    (seat : c.seat = some s) (other : s.sponsor = false) (running : c.finished = false)
    (heeded : ∀ input ∈ inputs, (c.lesson? input).isSome)
    (agrees : c.directory.Agrees (c.lessons inputs)) :
    (∀ inputs', (∀ input, input ∈ inputs' ↔ input ∈ inputs) →
      ((Chain.protocol kx).after c inputs).Alike ((Chain.protocol kx).after c inputs')) ∧
    (∀ e, e ∈ ((Chain.protocol kx).after c inputs).directory.entries ↔
      e ∈ c.directory.entries ∨ e ∈ c.lessons inputs) ∧
    (c.lessons inputs ≠ [] → ∃ s' values,
      ((Chain.protocol kx).after c inputs).seat = some s' ∧
        s.CaughtUp kx ((Chain.protocol kx).after c inputs).directory.publicOf? c.size s'
          values) := by
  obtain ⟨s', taught⟩ := Chain.taught_after kx seat other running heeded
  refine ⟨fun inputs' same ↦ ?_, fun e ↦ ?_, fun told ↦ ?_⟩
  · obtain ⟨s'', taught'⟩ := Chain.taught_after kx seat other running
      fun input here ↦ heeded input ((same input).mp here)
    exact taught.alike agrees (Chain.mem_lessons_congr same) taught'
  · rw [taught.directory]
    exact Directory.mem_recordAll agrees
  · have size : ((Chain.protocol kx).after c inputs).size = c.size :=
      congrArg MemberConfig.size taught.config
    obtain ⟨values, caughtUp⟩ := Seat.caughtUp_of_stuck taught.climbs (taught.stuck told)
    rw [size] at caughtUp
    exact ⟨s', values, taught.seat, caughtUp⟩

namespace Quintet

/-- The opener of a group of five before its start. -/
def opener : Chain :=
  let c := Trio.roster.member Trio.roster.opener
  { c with config := { c.config with memberCount := 5 } }

def publicValue (id : Nat) : PublicValue := ⟨[UInt8.ofNat (5 ^ (id + 2) % 23)]⟩

def hear (id : Nat) (m : Message) : Input :=
  .datagram m.encode ⟨⟨10, 0, 0, UInt8.ofNat (id - 1)⟩, 40000⟩

def answer (id : Nat) : Input :=
  hear id (.infoResponse .joining 7 (UInt16.ofNat id) (publicValue id))

/-- The opener after it has let in the second member. -/
def member : Chain :=
  (Chain.protocol Trio.exchange).after opener [.start, hear 2 (.request 7 (publicValue 2))]

/-- The fourth member is heard of before the third. -/
def late : List Input := [answer 4, answer 3, answer 4]

def early : List Input := [answer 3, answer 4]

end Quintet

/-- The first of five applies the third and the fourth value, in whatever order it hears them. -/
theorem cascade_in_order_quintet :
    ((Chain.protocol Trio.exchange).after Quintet.member Quintet.late).Alike
      ((Chain.protocol Trio.exchange).after Quintet.member Quintet.early) ∧
    Quintet.member.keysComputed = 2 ∧
    ((Chain.protocol Trio.exchange).after Quintet.member Quintet.late).keysComputed = 4 := by
  have seated : Quintet.member.seat.isSome = true := by decide +kernel
  obtain ⟨s, seat⟩ := Option.isSome_iff_exists.mp seated
  have other : Quintet.member.seat.all (fun s ↦ !s.sponsor) = true := by decide +kernel
  rw [seat, Option.all_some, Bool.not_eq_true'] at other
  have agrees : Quintet.member.directory.Agrees (Quintet.member.lessons Quintet.late) := by
    unfold Directory.Agrees
    decide +kernel
  obtain ⟨alike, -⟩ := @cascade_in_order Trio.exchange _ s _ seat other (by decide +kernel)
    (by decide +kernel) agrees
  refine ⟨alike Quintet.early fun input ↦ ?_, by decide +kernel, by decide +kernel⟩
  simp [Quintet.late, Quintet.early, or_comm, or_left_comm]

end GroupKey
