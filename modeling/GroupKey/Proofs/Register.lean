import GroupKey.Proofs.CascadeOrder
import GroupKey.Proofs.KeyBounds
import GroupKey.Proofs.Tables

/-!
# Who is known is not waiting

A member records whoever it hears to be let in, and keeps those who ask it in a queue.  Whatever
reaches it, its directory stays one to one, and nobody is in both.
-/

namespace GroupKey

namespace Directory

variable {d : Directory}

theorem oneToOne_recordAll (oneToOne : d.OneToOne) (facts : List DirectoryEntry) :
    (d.recordAll facts).OneToOne := by
  induction facts generalizing d with
  | nil => exact oneToOne
  | cons e facts ih => exact ih (oneToOne.record e.endpoint e.id e.publicValue)

/-- The id of an endpoint stays what it is. -/
theorem idOf?_record {endpoint : Endpoint} {id : Nat} (known : d.idOf? endpoint = some id)
    (e : DirectoryEntry) :
    (d.record e.endpoint e.id e.publicValue).2.idOf? endpoint = some id := by
  rcases d.record_cases e.endpoint e.id e.publicValue with ⟨-, kept⟩ | ⟨-, -, made⟩
  · rw [kept]
    exact known
  · obtain ⟨found, here, same⟩ := Option.map_eq_some_iff.mp known
    rw [made, idOf?, List.find?_append, here]
    exact congrArg some same

theorem idOf?_recordAll {endpoint : Endpoint} {id : Nat} (known : d.idOf? endpoint = some id)
    (facts : List DirectoryEntry) : (d.recordAll facts).idOf? endpoint = some id := by
  induction facts generalizing d with
  | nil => exact known
  | cons e facts ih => exact ih (idOf?_record known e)

theorem Mapped.recordAll {m : DirectoryMaps} (mapped : d.Mapped m)
    (facts : List DirectoryEntry) : (d.recordAll facts).Mapped (m.recordAll facts) := by
  induction facts generalizing d m with
  | nil => exact mapped
  | cons e facts ih => exact ih (mapped.record e.endpoint e.id e.publicValue)

theorem mapped_recordAll (facts : List DirectoryEntry) :
    (empty.recordAll facts).Mapped (DirectoryMaps.empty.recordAll facts) :=
  mapped_empty.recordAll facts

end Directory

namespace Chain

variable {kx : KeyExchange} {cause : Input} {own : Endpoint} {c d : Chain} {said : List Outgoing}
  {input : Input}

/-! ## The queue of a member -/

/-- Nobody waits twice, and neither the member itself nor anybody whom it knows waits at all. -/
structure Tidy (own : Endpoint) (c : Chain) : Prop where
  endpoint : c.endpoint = own
  recorded : ∃ facts, c.directory = Directory.empty.recordAll facts
  distinct : (c.pending.map Candidate.endpoint).Nodup
  foreign : ∀ p ∈ c.pending, p.endpoint ≠ own
  unknown : ∀ p ∈ c.pending, c.directory.containsEndpoint p.endpoint = false
  order : c.token.taken → c.token.passed

theorem Tidy.oneToOne (tidy : c.Tidy own) : c.directory.OneToOne := by
  obtain ⟨facts, recorded⟩ := tidy.recorded
  rw [recorded]
  exact Directory.oneToOne_recordAll Directory.oneToOne_empty facts

/-- Whoever is recorded has left the queue, or was never in it. -/
theorem Tidy.record (tidy : c.Tidy own) {endpoint : Endpoint} {id : Nat} {value : PublicValue}
    (same : d.endpoint = c.endpoint) (token : d.token = c.token)
    (directory : d.directory = (c.directory.record endpoint id value).2)
    (part : d.pending.Sublist c.pending) (gone : ∀ p ∈ d.pending, p.endpoint ≠ endpoint) :
    d.Tidy own where
  endpoint := same.trans tidy.endpoint
  recorded := by
    obtain ⟨facts, recorded⟩ := tidy.recorded
    refine ⟨facts ++ [⟨endpoint, id, value⟩], ?_⟩
    rw [directory, recorded, Directory.recordAll, Directory.recordAll, List.foldl_append]
    rfl
  distinct := tidy.distinct.sublist (part.map _)
  foreign p here := tidy.foreign p (part.subset here)
  unknown p here := by
    rw [directory]
    exact Directory.containsEndpoint_record_eq_false (tidy.unknown p (part.subset here))
      (gone p here)
  order := token ▸ tidy.order

theorem Tidy.move (tidy : c.Tidy own) (move : Move kx cause c said d)
    (outside : ∀ m source, cause = .message m source → source ≠ own) : d.Tidy own := by
  have alone : ∀ p ∈ c.pending, p.endpoint ≠ c.endpoint := by
    rw [tidy.endpoint]
    exact tidy.foreign
  cases move with
  | learn endpoint id value =>
    unfold learn
    split
    · exact tidy
    · exact tidy.record rfl rfl rfl List.filter_sublist fun p here ↦
        of_decide_eq_true (List.mem_filter.mp here).2
  | enqueue service value source asked unknown =>
    unfold enqueue
    split
    · exact tidy
    · next absent =>
      have new : source ∉ c.pending.map Candidate.endpoint := by simpa using absent
      refine { tidy with distinct := ?_, foreign := fun p here ↦ ?_, unknown := fun p here ↦ ?_ }
      · rw [List.map_append, List.map_singleton, ← List.concat_eq_append]
        exact tidy.distinct.concat new
      · rcases List.mem_append.mp here with old | last
        · exact tidy.foreign p old
        · rw [List.mem_singleton.mp last]
          exact outside _ _ asked
      · rcases List.mem_append.mp here with old | last
        · exact tidy.unknown p old
        · rw [List.mem_singleton.mp last]
          exact unknown
  | forget pending part =>
    exact
      { tidy with
        distinct := tidy.distinct.sublist (part.map _)
        foreign := fun p here ↦ tidy.foreign p (part.subset here)
        unknown := fun p here ↦ tidy.unknown p (part.subset here) }
  | openGroup => exact tidy.record rfl rfl rfl (List.Sublist.refl _) alone
  | takeSeat => exact tidy.record rfl rfl rfl (List.Sublist.refl _) alone
  | enrol s new candidate rest before seat isOpen known queue =>
    have waiting := tidy.distinct.sublist (queue.map _)
    rw [List.map_cons, List.nodup_cons] at waiting
    refine tidy.record rfl rfl rfl (List.sublist_of_cons_sublist queue) fun p here same ↦ ?_
    exact waiting.1 (same ▸ List.mem_map_of_mem here)
  | pass => exact { tidy with order := fun _ ↦ rfl }
  | seeTaken passed => exact { tidy with order := fun _ ↦ passed }
  | _ => exact { tidy with }

theorem Tidy.step (tidy : c.Tidy own) (outer : Protocol.Outer (fun _ ↦ True) input) :
    ((Chain.protocol kx).step input c).member.Tidy own := by
  have endpoint := tidy.endpoint
  by_cases echo : ∃ bytes, input = .datagram bytes own
  · obtain ⟨bytes, rfl⟩ := echo
    have silent : (Chain.protocol kx).step (.datagram bytes own) c = { member := c } :=
      Protocol.receive_own endpoint.symm
    rw [silent]
    exact tidy
  · have foreign : Protocol.Outer (· ≠ own) input := by
      cases input with
      | datagram bytes source => exact fun same ↦ echo ⟨bytes, by rw [same]⟩
      | message => exact outer
      | _ => exact trivial
    rcases step_cases kx foreign tidy.order with ⟨rfl, same⟩ | ⟨rfl, same⟩ | ⟨cause, hears, follows⟩
    · obtain ⟨⟨agenda, announced, finished, member | ⟨-, member⟩⟩, -⟩ := begin_frame c
      · rw [same, member]
        exact { tidy with }
      · rw [same, member]
        exact tidy.record rfl rfl rfl (List.Sublist.refl _) (endpoint ▸ tidy.foreign)
    · obtain ⟨⟨agenda, member, -⟩, -⟩ := repeatToken_frame kx c
      rw [same, member]
      exact { tidy with }
    · refine follows.keeps tidy fun before move ↦ before.move move ?_
      rintro m source rfl
      exact hears.1

/-- Nobody waits before the start. -/
theorem tidy_of_created {config : MemberConfig} {endpoint : Endpoint} {keys : KeyPair}
    {random : Random} {t : Turn Chain}
    (created : Chain.create config endpoint keys random = .ok t) : t.member.Tidy endpoint := by
  obtain ⟨-, member⟩ := create_member created
  rw [member]
  exact
    { endpoint := rfl
      recorded := ⟨[], rfl⟩
      distinct := List.nodup_nil
      foreign := nofun
      unknown := nofun
      order := nofun }

end Chain

/-- Whatever is recorded, the two maps of a directory are one to one.  An entry is made if neither
its endpoint nor its id is in use, and then both maps have it; otherwise nothing changes, and what
the maps hold they always will.  A directory that is one list answers every call as the two maps do,
and stays consistent itself.  However a member is talked to, and however often it is started, its
directory comes from such calls, and nobody in it waits to be let in. -/
theorem directory_one_to_one {kx : KeyExchange} {config : MemberConfig} {endpoint : Endpoint}
    {keys : KeyPair} {random : Random} {t : Turn Chain}
    (created : Chain.create config endpoint keys random = .ok t) :
    (∀ facts : List DirectoryEntry,
      let d := Directory.empty.recordAll facts
      let m := DirectoryMaps.empty.recordAll facts
      m.Consistent ∧ d.Consistent ∧ d.Mapped m ∧
      (∀ e id value,
        (d.record e id value).1 = (m.record e id value).1 ∧
        ((m.record e id value).1 = true ↔ m.idOf? e = none ∧ m.publicOf? id = none) ∧
        ((m.record e id value).1 = true →
          (m.record e id value).2.idOf? = Function.update m.idOf? e (some id) ∧
          (m.record e id value).2.publicOf? = Function.update m.publicOf? id (some value)) ∧
        ((m.record e id value).1 = false → (m.record e id value).2 = m)) ∧
      ∀ later,
        (∀ e id, m.idOf? e = some id → (m.recordAll later).idOf? e = some id) ∧
        ∀ id value, m.publicOf? id = some value → (m.recordAll later).publicOf? id = some value) ∧
    ∀ c, (Chain.protocol kx).Exposed (fun _ ↦ Protocol.Outer fun _ ↦ True) t.member c →
      (∃ facts, c.directory = Directory.empty.recordAll facts) ∧
      c.directory.Consistent ∧ ∀ p ∈ c.pending, c.directory.idOf? p.endpoint = none := by
  refine ⟨fun facts ↦ ?_, fun c exposed ↦ ?_⟩
  · have mapped := Directory.mapped_recordAll facts
    have consistent :=
      (Directory.oneToOne_recordAll Directory.oneToOne_empty facts).consistent
    refine ⟨consistent.maps mapped, consistent, mapped, fun e id value ↦ ?_, fun later ↦ ?_⟩
    · exact ⟨(mapped.record_fst e id value).symm, DirectoryMaps.record_fst_iff,
        fun made ↦ ⟨DirectoryMaps.idOf?_record_of_made made,
          DirectoryMaps.publicOf?_record_of_made made⟩,
        DirectoryMaps.record_of_refused⟩
    · have after := mapped.recordAll later
      rw [after.idOf?, after.publicOf?, mapped.idOf?, mapped.publicOf?]
      exact ⟨fun e id known ↦ Directory.idOf?_recordAll known later,
        fun id value known ↦ Directory.publicOf?_recordAll known later⟩
  · have tidy : c.Tidy endpoint :=
      exposed.keeps (Chain.tidy_of_created created) fun before outer ↦ before.step outer
    exact ⟨tidy.recorded, tidy.oneToOne.consistent, fun p here ↦
      Directory.idOf?_eq_none_iff.mpr (tidy.unknown p here)⟩

namespace Couple

/-- A third one asks to be let in after the group is complete. -/
def crowded : Chain := after complete lateRequest

end Couple

/-- The sponsor knows itself and the member it has let in, and the third one waits. -/
theorem directory_one_to_one_couple :
    Couple.crowded.directory.size = 2 ∧
    {e | (Couple.crowded.directory.idOf? e).isSome}.encard = 2 ∧
    Couple.crowded.pending = [⟨⟨⟨10, 0, 0, 3⟩, 40000⟩, Couple.third.publicValue⟩] ∧
    ∀ p ∈ Couple.crowded.pending, Couple.crowded.directory.idOf? p.endpoint = none := by
  have exposed : (Chain.protocol x25519).Exposed (fun _ ↦ Protocol.Outer fun _ ↦ True)
      Couple.sponsor Couple.crowded :=
    .next (.next (.next .rest trivial) trivial) trivial
  obtain ⟨-, consistent, apart⟩ :=
    (@directory_one_to_one x25519 _ _ _ _ _ Couple.created).2 Couple.crowded exposed
  have two : Couple.crowded.directory.size = 2 := by decide +kernel
  refine ⟨two, ?_, by decide +kernel, apart⟩
  rw [consistent.endpoints, two]
  rfl

end GroupKey
