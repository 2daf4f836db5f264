import GroupKey.Report.Archive
import Mathlib.Data.Finset.Card
import Mathlib.Order.Bounds.Basic

/-!
# No file of statistics is written over

The number of a file is found by trying one after the other, which ends since only finitely many
names can be in the way.  What is stored gets a place of its own, and what was there before, or was
stored before, is still there after any number of runs.  A link that leads nowhere is no file, so
what is stored under its name stands where it leads.
-/

namespace GroupKey.Archive

/-- The search stops at a name that is free. -/
theorem fileName_firstUnused_not_mem (names : List String) (n : Nat) :
    fileName (firstUnused names n) ∉ names := by
  fun_induction firstUnused names n with
  | case1 n taken ih => exact ih
  | case2 n free => exact free

/-- All numbers that the search went past are taken. -/
theorem mem_of_lt_firstUnused {names : List String} {n m : Nat} (from_n : n ≤ m)
    (passed : m < firstUnused names n) : fileName m ∈ names := by
  fun_induction firstUnused names n with
  | case1 n taken ih =>
    obtain rfl | later := Nat.eq_or_lt_of_le from_n
    · exact taken
    · exact ih later passed
  | case2 n free => exact absurd passed (Nat.not_lt.mpr from_n)

/-- Nothing is passed over that could have been used. -/
theorem isLeast_leastUnused (names : List String) :
    IsLeast {n | fileName n ∉ names} (leastUnused names) := by
  refine ⟨fileName_firstUnused_not_mem names 0, fun n free ↦ ?_⟩
  by_contra passed
  exact free (mem_of_lt_firstUnused n.zero_le (Nat.not_le.mp passed))

/-- Every number that was passed over has a name of its own among the names. -/
theorem leastUnused_le_card (names : List String) : leastUnused names ≤ names.toFinset.card := by
  have passed : (Finset.range (leastUnused names)).image fileName ⊆ names.toFinset := by
    intro name tried
    obtain ⟨m, below, rfl⟩ := Finset.mem_image.mp tried
    exact List.mem_toFinset.mpr
      (mem_of_lt_firstUnused m.zero_le (Finset.mem_range.mp below))
  have different : Function.Injective fileName := fun _ _ ↦ fileName_injective
  calc
    leastUnused names = ((Finset.range (leastUnused names)).image fileName).card := by
      rw [Finset.card_image_of_injective _ different, Finset.card_range]
    _ ≤ names.toFinset.card := Finset.card_le_card passed

section Entries

variable {a b : Archive}

/-- A folder has room for an entry at a path where nothing is. -/
structure Free (a : Archive) (place : ArchivePath) : Prop where
  below : place ≠ []
  inside : a.find? place.dropLast = some .folder
  empty : a.find? place = none

theorem free_append {folder : ArchivePath} {name : String} (inside : a.find? folder = some .folder)
    (missing : a.find? (folder ++ [name]) = none) : a.Free (folder ++ [name]) :=
  ⟨by simp, by rwa [List.dropLast_concat], missing⟩

/-- A new entry is found where it was put, and everything else where it was. -/
theorem Free.find?_set {place : ArchivePath} (free : a.Free place) (entry : ArchiveEntry)
    (other : ArchivePath) :
    (a.set place entry).find? other = if other = place then some entry else a.find? other := by
  have room : place ≠ [] ∧ a.find? place.dropLast = some .folder ∧
      a.find? place ≠ some .folder := ⟨free.below, free.inside, by simp [free.empty]⟩
  rw [set, dif_pos room]
  exact ArchiveEntry.lookup_cons free.below entry a.entries other

theorem directory_set (a : Archive) (place : ArchivePath) (entry : ArchiveEntry) :
    (a.set place entry).directory = a.directory := by
  unfold set
  split <;> rfl

/-- Whatever a folder lies in is a folder. -/
theorem find?_dropLast {path : ArchivePath} (folder : a.find? path = some .folder) :
    a.find? path.dropLast = some .folder := by
  obtain rfl | below := eq_or_ne path []
  · exact folder
  · apply a.rooted _ (path.getLast below)
    rw [List.dropLast_append_getLast below]
    exact Option.isSome_of_eq_some folder

/-- Whatever was in the first archive is in the second. -/
structure Kept (a b : Archive) : Prop where
  directory : b.directory = a.directory
  entries : ∀ path entry, a.find? path = some entry → b.find? path = some entry

theorem Kept.refl (a : Archive) : a.Kept a := ⟨rfl, fun _ _ there ↦ there⟩

/-- What is kept twice is kept. -/
theorem Kept.trans {c : Archive} (first : a.Kept b) (second : b.Kept c) : a.Kept c :=
  ⟨second.directory.trans first.directory,
    fun path entry there ↦ second.entries path entry (first.entries path entry there)⟩

/-- Where nothing was, nothing is lost. -/
theorem Free.kept_set {place : ArchivePath} (free : a.Free place) (entry : ArchiveEntry) :
    a.Kept (a.set place entry) where
  directory := directory_set a place entry
  entries path old there := by
    have apart : path ≠ place := by
      rintro rfl
      simp [free.empty] at there
    rw [free.find?_set, if_neg apart, there]

/-- A file that was new to the later archive was new to the earlier one. -/
theorem Kept.find?_eq_none (kept : a.Kept b) {place : ArchivePath}
    (missing : b.find? place = none) : a.find? place = none := by
  by_contra present
  obtain ⟨entry, found⟩ := Option.ne_none_iff_exists'.mp present
  cases missing.symm.trans (kept.entries _ _ found)

end Entries

section Ways

variable {a b : Archive} {links : Nat} {here : ArchivePath} {way : List ArchiveStep}

/-- A place is what the archive has there. -/
def Holds (a : Archive) : ArchivePlace → Prop
  | .there path entry => a.find? path = some entry
  | .vacant path => a.Free path
  | .nowhere _ => True

/-- The induction is on the steps that are left.  Wherever they lead, the answer is what is there.
-/
theorem follow_holds {jump : ArchivePath → List ArchiveStep → ArchivePlace}
    (jumps : ∀ here way, a.find? here = some .folder → a.Holds (jump here way))
    (folder : a.find? here = some .folder) : a.Holds (a.follow jump here way) := by
  fun_induction follow with
  | case1 here => exact folder
  | case2 here way ih => exact ih (find?_dropLast folder)
  | case3 here name missing => exact free_append folder missing
  | case4 here name way missing _ => trivial
  | case5 here name way found ih => exact ih found
  | case6 here name way fromRoot target found =>
    apply jumps
    split
    · rfl
    · exact folder
  | case7 here name entry _ _ found => exact found
  | case8 here name way entry found _ => trivial
  | case9 here way ih => exact ih folder

theorem walk_holds (folder : a.find? here = some .folder) : a.Holds (a.walk links here way) := by
  induction links generalizing here way with
  | zero => exact follow_holds (fun _ _ _ ↦ trivial) folder
  | succ links ih => exact follow_holds (fun _ _ ↦ ih) folder

/-- As an archive grows a way leads to the same entry, and to a new file where there was room. -/
def Grown (b : Archive) (after : ArchivePlace) : ArchivePlace → Prop
  | .there path entry => after = .there path entry
  | .vacant path => ∀ text, b.find? path = some (.file text) → after = .there path (.file text)
  | .nowhere _ => True

/-- A way that led somewhere leads there still, and only a way that ended in nothing can end
otherwise. -/
theorem follow_grown {before after : ArchivePath → List ArchiveStep → ArchivePlace}
    (kept : a.Kept b) (jumps : ∀ here way, b.Grown (after here way) (before here way)) :
    b.Grown (b.follow after here way) (a.follow before here way) := by
  fun_induction a.follow before here way with
  | case1 here => rfl
  | case2 here way ih => exact ih
  | case3 here name missing =>
    intro text written
    simp [follow, written]
  | case4 here name way missing _ => trivial
  | case5 here name way found ih =>
    rw [follow, kept.entries _ _ found]
    exact ih
  | case6 here name way fromRoot target found =>
    rw [follow, kept.entries _ _ found]
    exact jumps _ _
  | case7 here name entry notFolder notLink found =>
    rw [follow, kept.entries _ _ found]
    cases entry with
    | folder => exact absurd rfl notFolder
    | link => exact absurd rfl (notLink _ _)
    | file => rfl
    | other => rfl
  | case8 here name way entry found _ => trivial
  | case9 here way ih => exact ih

theorem walk_grown (kept : a.Kept b) :
    b.Grown (b.walk links here way) (a.walk links here way) := by
  induction links generalizing here way with
  | zero => exact follow_grown kept fun _ _ ↦ trivial
  | succ links ih => exact follow_grown kept fun _ _ ↦ ih

theorem locate_holds (a : Archive) (names : List String) : a.Holds (a.locate names) :=
  walk_holds a.based

/-- What was located before the archive grew is located still. -/
theorem locate_grown (kept : a.Kept b) (names : List String) :
    b.Grown (b.locate names) (a.locate names) := by
  rw [locate, kept.directory]
  exact walk_grown kept

/-- A step into a folder is taken at once. -/
theorem walk_into_folder {name : String} (found : a.find? (here ++ [name]) = some .folder) :
    a.walk links here (.into name :: way) = a.walk links (here ++ [name]) way := by
  cases links <;> simp [walk, follow, found]

/-- A step into nothing is the end of the way, and a place for something new if it was the last. -/
theorem walk_into_missing {name : String} (missing : a.find? (here ++ [name]) = none) :
    a.walk links here (.into name :: way) =
      if way = [] then .vacant (here ++ [name]) else .nowhere .notFound := by
  cases links <;> simp [walk, follow, missing]

theorem follow_append {place : ArchivePath}
    {jump : ArchivePath → List ArchiveStep → ArchivePlace}
    (walks : a.walk links = a.follow jump)
    (jumps : ∀ here way, jump here way = .there place .folder →
      ∃ left, ∀ more, jump here (way ++ more) = a.walk left place more)
    (leads : a.follow jump here way = .there place .folder) :
    ∃ left, ∀ more, a.follow jump here (way ++ more) = a.walk left place more := by
  fun_induction a.follow jump here way with
  | case1 here =>
    cases leads
    exact ⟨links, fun more ↦ by rw [walks, List.nil_append]⟩
  | case2 here way ih => exact ih leads
  | case3 here name missing => cases leads
  | case4 here name way missing _ => cases leads
  | case5 here name way found ih =>
    simp only [List.cons_append, follow, found]
    exact ih leads
  | case6 here name way fromRoot target found =>
    simp only [List.cons_append, follow, found, ← List.append_assoc]
    exact jumps _ _ leads
  | case7 here name entry notFolder =>
    cases leads
    exact absurd rfl notFolder
  | case8 here name way entry _ _ _ _ => cases leads
  | case9 here way ih => exact ih leads

/-- A way through a folder goes on there, with the links that are left. -/
theorem walk_append {place : ArchivePath}
    (leads : a.walk links here way = .there place .folder) :
    ∃ left, ∀ more, a.walk links here (way ++ more) = a.walk left place more := by
  induction links generalizing here way with
  | zero =>
    have walks : a.walk 0 = a.follow fun _ _ ↦ .nowhere .filesystemLoop := rfl
    exact follow_append walks (fun _ _ jumped ↦ nomatch jumped) leads
  | succ links ih =>
    have walks : a.walk (links + 1) = a.follow (a.walk links) := rfl
    exact follow_append walks (fun _ _ ↦ ih) leads

end Ways

/-! ## One run -/

section Filing

variable {a b : Archive} {folder : String} {run : Aggregate}

/-- Something is present if the way to it ends at an entry. -/
theorem present_iff {names : List String} :
    a.present names ↔ ∃ place entry, a.locate names = .there place entry := by
  unfold present
  split
  · next place entry leads => simp [leads]
  · next nowhere => simpa using nowhere

theorem Kept.present (kept : a.Kept b) {names : List String} (present : a.present names) :
    b.present names := by
  obtain ⟨place, entry, leads⟩ := present_iff.mp present
  have still := locate_grown kept names
  rw [leads] at still
  exact present_iff.mpr ⟨place, entry, still⟩

/-- The names in a folder are those of the entries one step below it. -/
theorem mem_namesIn_iff {names : List String} {place : ArchivePath} {name : String}
    (leads : a.locate names = .there place .folder) :
    name ∈ a.namesIn names ↔ (a.find? (place ++ [name])).isSome := by
  have last (path : ArchivePath) :
      (if path.dropLast = place then path.getLast? else none) = some name ↔
        path = place ++ [name] := by
    constructor
    · intro ends
      obtain ⟨here, ends⟩ := Option.ite_none_right_eq_some.mp ends
      rw [← here, List.dropLast_append_getLast? name ends]
    · rintro rfl
      simp
  simp [namesIn, leads, find?, ArchiveEntry.lookup, last]

/-- Under a name that is missing in a folder there is room for a file. -/
theorem locate_missing {place : ArchivePath} (leads : a.locate [folder] = .there place .folder)
    {name : String} (missing : a.find? (place ++ [name]) = none) :
    a.locate [folder, name] = .vacant (place ++ [name]) := by
  obtain ⟨left, walks⟩ := walk_append leads
  rw [locate, List.map_cons, List.map_singleton, ← List.singleton_append]
  exact (walks _).trans ((walk_into_missing missing).trans (if_pos rfl))

/-- A name is taken if following it leads somewhere.  A broken link takes none. -/
theorem mem_taken_iff {place : ArchivePath} (leads : a.locate [folder] = .there place .folder)
    {name : String} : name ∈ a.taken [folder] ↔ a.present [folder, name] := by
  rw [taken, List.mem_filter, mem_namesIn_iff leads]
  refine ⟨And.right, fun present ↦ ⟨?_, present⟩⟩
  by_contra missing
  obtain ⟨there, entry, found⟩ := present_iff.mp present
  rw [locate_missing leads (Option.not_isSome_iff_eq_none.mp missing)] at found
  cases found

/-- The number is the least under which nothing is found, and not larger than the number of names
in the folder. -/
structure Numbered (a : Archive) (folder : String) (n : Nat) : Prop where
  least : IsLeast {n | ¬ a.present [folder, fileName n]} n
  bounded : n ≤ (a.namesIn [folder]).toFinset.card

/-- The number that is searched among the names taken is the least that leads nowhere. -/
theorem numbered_leastUnused {place : ArchivePath}
    (leads : a.locate [folder] = .there place .folder) :
    a.Numbered folder (leastUnused (a.taken [folder])) := by
  constructor
  · simpa only [mem_taken_iff leads] using isLeast_leastUnused (a.taken [folder])
  · calc
      leastUnused (a.taken [folder]) ≤ (a.taken [folder]).toFinset.card := leastUnused_le_card _
      _ ≤ (a.namesIn [folder]).toFinset.card := by
        apply Finset.card_le_card
        rw [taken, List.toFinset_filter]
        exact Finset.filter_subset _ _

/-- The text is in a new file, to which the name with the number leads.  The file is in the folder
itself unless a link has that name.  Everything else is as it was, but for the folder that may be
new. -/
structure Filed (a : Archive) (folder text : String) (n : Nat) (b : Archive) : Prop where
  directory : b.directory = a.directory
  stored : ∃ home place, b.locate [folder] = .there home .folder ∧
    (place = home ++ [fileName n] ∨ fileName n ∈ a.namesIn [folder]) ∧
    a.find? place = none ∧ b.locate [folder, fileName n] = .there place (.file text) ∧
    ∀ other ≠ place, b.find? other =
      (a.find? other).or (if other = a.directory ++ [folder] then some .folder else none)

/-- What becomes of a text: it is filed, or nothing changes since a link has the name with the
number and no file can be made where that link leads. -/
def Answered (a : Archive) (folder text : String) (n : Nat)
    (answer : Except ArchiveError (List String) × Archive) : Prop :=
  (∃ b, answer = (.ok [folder, fileName n], b) ∧ a.Filed folder text n b) ∨
  ∃ e, answer = (.error e, a) ∧ a.locate [folder, fileName n] = .nowhere e ∧
    fileName n ∈ a.namesIn [folder]

theorem find?_isSome_of_locate {home : ArchivePath}
    (leads : a.locate [folder] = .there home .folder) :
    (a.find? (a.directory ++ [folder])).isSome := by
  by_contra missing
  have away : a.locate [folder] = .vacant (a.directory ++ [folder]) :=
    (walk_into_missing (Option.not_isSome_iff_eq_none.mp missing)).trans (if_pos rfl)
  cases away.symm.trans leads

/-- A text that is put where the way to it ended is found by that way. -/
theorem filed_set {text : String} {n : Nat} {home place : ArchivePath}
    (leads : a.locate [folder] = .there home .folder)
    (room : a.locate [folder, fileName n] = .vacant place) :
    a.Filed folder text n (a.set place (.file text)) := by
  have free : a.Free place := by
    have holds := locate_holds a [folder, fileName n]
    rwa [room] at holds
  have written := free.find?_set (.file text)
  have grown := locate_grown (free.kept_set (.file text))
  refine ⟨directory_set .., home, place, ?_, ?_, free.empty, ?_, fun other apart ↦ ?_⟩
  · have still := grown [folder]
    rwa [leads] at still
  · rw [mem_namesIn_iff leads, or_iff_not_imp_right, Option.not_isSome_iff_eq_none]
    intro missing
    cases room.symm.trans (locate_missing leads missing)
    rfl
  · have new := grown [folder, fileName n]
    rw [room] at new
    exact new text ((written place).trans (if_pos rfl))
  · rw [written, if_neg apart]
    by_cases same : other = a.directory ++ [folder]
    · rw [same, Option.or_of_isSome (find?_isSome_of_locate leads)]
    · rw [if_neg same, Option.or_none]

/-- Under a free number nothing stands in the way of writing but a link that leads nowhere. -/
theorem answered_writeNumbered {place : ArchivePath}
    (leads : a.locate [folder] = .there place .folder) (text : String) :
    a.Answered folder text (leastUnused (a.taken [folder])) (a.writeNumbered [folder] text) := by
  have unused := (numbered_leastUnused leads).least.1
  rw [Set.mem_ofPred_eq, present_iff] at unused
  cases found : a.locate [folder, fileName (leastUnused (a.taken [folder]))] with
  | there place entry => exact absurd ⟨place, entry, found⟩ unused
  | vacant place =>
    refine .inl ⟨a.set place (.file text), ?_, filed_set leads found⟩
    simp only [writeNumbered, write, List.singleton_append, found]
  | nowhere e =>
    refine .inr ⟨e, by simp only [writeNumbered, write, List.singleton_append, found], found, ?_⟩
    by_contra absent
    rw [mem_namesIn_iff leads, Option.not_isSome_iff_eq_none] at absent
    cases found.symm.trans (locate_missing leads absent)

/-- The folder of the run is there, or there is nothing in its place. -/
def admits (a : Archive) (run : Aggregate) : Bool :=
  (a.find? (a.directory ++ [folderName run])).isNone || a.isFolder [folderName run]

theorem isFolder_iff {names : List String} :
    a.isFolder names ↔ ∃ place, a.locate names = .there place .folder := by
  unfold isFolder
  split
  · next place leads => simp [leads]
  · next nowhere => simpa using nowhere

theorem not_present_of_missing (missing : a.find? (a.directory ++ [folder]) = none)
    (name : String) : ¬ a.present [folder, name] := by
  have leads : a.locate [folder, name] = .nowhere .notFound :=
    (walk_into_missing missing).trans (if_neg (by simp))
  simp [present, leads]

/-- In a new folder the first number is free. -/
theorem answered_new (missing : a.find? (a.directory ++ [folder]) = none) (text : String) :
    let b := a.set (a.directory ++ [folder]) .folder
    a.Numbered folder 0 ∧ a.Answered folder text 0 (b.writeNumbered [folder] text) := by
  intro b
  have free : a.Free (a.directory ++ [folder]) := free_append a.based missing
  have added := free.find?_set .folder
  have same : b.directory = a.directory := directory_set ..
  have here : b.find? (a.directory ++ [folder]) = some .folder := by
    rw [added, if_pos rfl]
  have leads : b.locate [folder] = .there (a.directory ++ [folder]) .folder := by
    rw [locate, same]
    exact (walk_into_folder here).trans rfl
  have missingIn (name : String) : b.find? (a.directory ++ [folder] ++ [name]) = none := by
    rw [added, if_neg (by simp)]
    by_contra present
    have inside := a.rooted _ name (Option.isSome_iff_ne_none.mpr present)
    cases missing.symm.trans inside
  have vacant (name : String) := locate_missing leads (missingIn name)
  have first : leastUnused (b.taken [folder]) = 0 :=
    Nat.le_zero.mp ((numbered_leastUnused leads).least.2 (by simp [present, vacant]))
  refine ⟨⟨⟨not_present_of_missing missing _, fun n _ ↦ n.zero_le⟩, Nat.zero_le _⟩, ?_⟩
  have answered := answered_writeNumbered leads text
  rw [first] at answered
  obtain ⟨c, done, filed⟩ | ⟨e, -, nowhere, -⟩ := answered
  · obtain ⟨home, place, folderLeads, own, empty, written, others⟩ := filed.stored
    refine .inl ⟨c, done, filed.directory.trans same, home, place, folderLeads, ?_,
      (free.kept_set .folder).find?_eq_none empty, written, fun other apart ↦ ?_⟩
    · refine own.imp_right fun listed ↦ ?_
      rw [mem_namesIn_iff leads, missingIn] at listed
      cases listed
    · rw [others other apart, same, added]
      by_cases new : other = a.directory ++ [folder]
      · rw [if_pos new, if_pos new, new, missing, Option.some_or, Option.none_or]
      · rw [if_neg new, if_neg new]
  · cases nowhere.symm.trans (vacant _)

/-- With its folder there or makeable, a run is written under the least free number. -/
theorem answered_store (free : a.admits run) :
    ∃ n, a.Numbered (folderName run) n ∧
      a.Answered (folderName run) run.toCsv n (a.store run) := by
  cases found : a.find? (a.directory ++ [folderName run]) with
  | none =>
    obtain ⟨numbered, answered⟩ := answered_new found run.toCsv
    refine ⟨0, numbered, ?_⟩
    simpa only [store, makeFolder, found] using answered
  | some entry =>
    have folder : a.isFolder [folderName run] := by simpa [admits, found] using free
    obtain ⟨place, leads⟩ := isFolder_iff.mp folder
    refine ⟨_, numbered_leastUnused leads, ?_⟩
    simpa only [store, makeFolder, found, folder, if_true] using
      answered_writeNumbered leads run.toCsv

/-- Whatever else stands where the folder belongs, nothing is written and nothing changed. -/
theorem store_refused (barred : a.admits run = false) :
    a.store run = (.error .alreadyExists, a) := by
  obtain ⟨there, noFolder⟩ := Bool.or_eq_false_iff.mp barred
  obtain ⟨entry, found⟩ := Option.isSome_iff_exists.mp (Option.isNone_eq_false_iff.mp there)
  simp [store, makeFolder, found, noFolder]

theorem Filed.kept {text : String} {n : Nat} (filed : a.Filed folder text n b) : a.Kept b where
  directory := filed.directory
  entries path entry there := by
    obtain ⟨-, place, -, -, empty, -, others⟩ := filed.stored
    have apart : path ≠ place := by
      rintro rfl
      cases empty.symm.trans there
    rw [others path apart, there, Option.some_or]

end Filing

/-! ## Run after run -/

/-- Stores run after run, and tells what became of each. -/
def storeAll (a : Archive) :
    List Aggregate → List (Aggregate × Except ArchiveError (List String)) × Archive
  | [] => ([], a)
  | run :: runs =>
    let (answer, b) := a.store run
    let (answers, c) := b.storeAll runs
    ((run, answer) :: answers, c)

/-- What a sequence of runs makes of an archive: a run that is stored gets a path of its own under
which nothing was found, which leads to its statistics from then on, in a file that is new, and
nothing that was there changes. -/
structure FiledAll (a : Archive) (runs : List Aggregate)
    (answers : List (Aggregate × Except ArchiveError (List String))) (b : Archive) : Prop where
  answered : answers.map Prod.fst = runs
  distinct : (answers.filterMap fun answer ↦ answer.2.toOption).Nodup
  fresh : ∀ run path, (run, .ok path) ∈ answers → ¬ a.present path
  written : ∀ run path, (run, .ok path) ∈ answers → ∃ place,
    a.find? place = none ∧ b.locate path = .there place (.file run.toCsv)
  kept : a.Kept b

section Sequences

variable {a b c : Archive} {run : Aggregate} {runs : List Aggregate}
  {answers : List (Aggregate × Except ArchiveError (List String))}

theorem FiledAll.cons_filed {folder : String} {n : Nat} (unused : ¬ a.present [folder, fileName n])
    (first : a.Filed folder run.toCsv n b) (later : b.FiledAll runs answers c) :
    a.FiledAll (run :: runs) ((run, .ok [folder, fileName n]) :: answers) c := by
  obtain ⟨-, place, -, -, empty, written, -⟩ := first.stored
  have there : b.present [folder, fileName n] := present_iff.mpr ⟨_, _, written⟩
  refine ⟨by rw [List.map_cons, later.answered], ?_, ?_, ?_, first.kept.trans later.kept⟩
  · refine List.nodup_cons.mpr ⟨fun again ↦ ?_, later.distinct⟩
    obtain ⟨⟨other, answer⟩, listed, same⟩ := List.mem_filterMap.mp again
    cases answer with
    | error e => cases same
    | ok path =>
      cases same
      exact later.fresh other _ listed there
  · rintro other path (_ | ⟨_, listed⟩)
    · exact unused
    · exact fun present ↦ later.fresh other path listed (first.kept.present present)
  · rintro other path (_ | ⟨_, listed⟩)
    · have grown := locate_grown later.kept [folder, fileName n]
      rw [written] at grown
      exact ⟨place, empty, grown⟩
    · obtain ⟨place, empty, leads⟩ := later.written other path listed
      exact ⟨place, first.kept.find?_eq_none empty, leads⟩

theorem FiledAll.cons_error {e : ArchiveError} (later : a.FiledAll runs answers c) :
    a.FiledAll (run :: runs) ((run, .error e) :: answers) c := by
  refine ⟨by rw [List.map_cons, later.answered], later.distinct, ?_, ?_, later.kept⟩
  · rintro other path (_ | ⟨_, listed⟩)
    exact later.fresh other path listed
  · rintro other path (_ | ⟨_, listed⟩)
    exact later.written other path listed

/-- The induction is on the runs.  Each is filed in what the ones before it left. -/
theorem filedAll_storeAll (a : Archive) (runs : List Aggregate) :
    a.FiledAll runs (a.storeAll runs).1 (a.storeAll runs).2 := by
  induction runs generalizing a with
  | nil => exact ⟨rfl, List.nodup_nil, by simp [storeAll], by simp [storeAll], .refl a⟩
  | cons run runs ih =>
    cases free : a.admits run with
    | true =>
      obtain ⟨n, numbered, ⟨b, done, filed⟩ | ⟨e, done, -⟩⟩ := answered_store free
      · rw [storeAll, done]
        exact (ih b).cons_filed numbered.least.1 filed
      · rw [storeAll, done]
        exact (ih a).cons_error
    | false =>
      rw [storeAll, store_refused free]
      exact (ih a).cons_error

end Sequences

/-- Whatever is in an archive and whatever runs are stored in it, nothing is written over.  The
number of a file is the least under which nothing is found, and does not exceed how many names are
in the folder.  A run is stored in a new file, unless a link that leads nowhere has the name with
the number and no file can be made there, or unless something other than a folder stands where the
folder of the run has to be; then nothing is done.  After a sequence of runs all that was there is
as it was, and each run that was stored has a file of its own. -/
theorem statistics_never_overwritten :
    (∀ names : List String, IsLeast {n | fileName n ∉ names} (leastUnused names) ∧
      leastUnused names ≤ names.toFinset.card) ∧
    (∀ (a : Archive) (run : Aggregate),
      if a.admits run then ∃ n, a.Numbered (folderName run) n ∧
        a.Answered (folderName run) run.toCsv n (a.store run)
      else a.store run = (.error .alreadyExists, a)) ∧
    ∀ (a : Archive) (runs : List Aggregate),
      a.FiledAll runs (a.storeAll runs).1 (a.storeAll runs).2 := by
  refine ⟨fun names ↦ ⟨isLeast_leastUnused names, leastUnused_le_card names⟩, fun a run ↦ ?_,
    filedAll_storeAll⟩
  split
  · next free => exact answered_store free
  · next barred => exact store_refused (Bool.eq_false_iff.mpr barred)

namespace Gap

/-- The first number is free, the second is not. -/
def archive : Archive := empty.addFile ["3", "statistic-#1.csv"] "old"

def run : Aggregate := ⟨3, 1, .empty, .empty⟩

end Gap

theorem statistics_never_overwritten_gap :
    Gap.archive.admits Gap.run ∧ ∃ b,
      Gap.archive.store Gap.run = (.ok ["3", "statistic-#0.csv"], b) ∧
      (∃ place, b.locate ["3", "statistic-#0.csv"] = .there place (.file Gap.run.toCsv)) ∧
      b.find? ["3", "statistic-#1.csv"] = some (.file "old") := by
  have free : Gap.archive.admits Gap.run := by decide
  have stored := statistics_never_overwritten.2.1 Gap.archive Gap.run
  rw [if_pos free] at stored
  obtain ⟨n, numbered, answered⟩ := stored
  have first : n = 0 := Nat.le_zero.mp (numbered.least.2 (by decide))
  subst first
  obtain ⟨b, done, filed⟩ | ⟨e, -, nowhere, -⟩ := answered
  · obtain ⟨-, place, -, -, -, written, -⟩ := filed.stored
    exact ⟨free, b, done, ⟨place, written⟩, filed.kept.entries _ _ (by decide)⟩
  · have room : Gap.archive.locate ["3", fileName 0] = .vacant ["3", fileName 0] := by decide
    cases nowhere.symm.trans room

namespace Barred

/-- A file stands where the folder of groups of four has to be. -/
def archive : Archive := empty.addFile ["4"] ""

def run : Aggregate := ⟨4, 1, .empty, .empty⟩

end Barred

namespace Broken

/-- A link to a file that is missing has the name with the first number. -/
def archive : Archive :=
  (empty.set ["3"] .folder).set ["3", "statistic-#0.csv"] (.link false [.into "missing"])

def run : Aggregate := ⟨3, 1, .empty, .empty⟩

end Broken

/-- A run does not always get a new path, as there may be no place for its folder, and its number
need not be the least whose name is missing, as a link may lead nowhere. -/
theorem not_every_run_is_stored :
    (¬ ∀ (a : Archive) (run : Aggregate), ∃ path b,
      a.store run = (.ok path, b) ∧ ¬ a.present path) ∧
    ¬ ∀ (a : Archive) (run : Aggregate) path b, a.store run = (.ok path, b) →
      ∃ n, path = [folderName run, fileName n] ∧
        IsLeast {n | fileName n ∉ a.namesIn [folderName run]} n := by
  constructor
  · intro all
    obtain ⟨path, b, done, -⟩ := all Barred.archive Barred.run
    rw [store_refused (by decide)] at done
    cases done
  · intro all
    have free : Broken.archive.admits Broken.run := by decide
    obtain ⟨n, numbered, answered⟩ := answered_store free
    have first : n = 0 := Nat.le_zero.mp (numbered.least.2 (by decide))
    subst first
    obtain ⟨b, done, -⟩ | ⟨e, -, nowhere, -⟩ := answered
    · obtain ⟨m, same, absent, -⟩ := all _ _ _ _ done
      have zero : m = 0 := by
        have names : fileName 0 = fileName m := by simpa using same
        exact (fileName_injective names).symm
      subst zero
      exact absent (by decide)
    · have room : Broken.archive.locate ["3", fileName 0] = .vacant ["3", "missing"] := by decide
      cases nowhere.symm.trans room

end GroupKey.Archive
