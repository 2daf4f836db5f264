import GroupKey.Statistics.Aggregate

/-!
# The archive of statistics

An archive is a directory with a folder for every group size, and in it numbered files with the
statistics of one run each.  A file gets the least number under which nothing is found.  Besides
folders and files the directory may hold links, which are followed, and pipes, sockets and devices.
-/

namespace GroupKey

/-- The names on the way from the root to an entry, none of which is a link. -/
abbrev ArchivePath := List String

/-- One step of a way: to the folder above, to what has a name in the folder, or nowhere else, as a
dot says. -/
inductive ArchiveStep
  | up
  | into (name : String)
  | stay
  deriving DecidableEq, Repr

inductive ArchiveEntry
  | folder
  | file (content : String)
  /-- A link, whose way begins at the root or in the folder the link is in. -/
  | link (fromRoot : Bool) (way : List ArchiveStep)
  /-- A pipe, a socket or a device. -/
  | other
  deriving DecidableEq, Repr

inductive ArchiveError
  /-- Something else stands where a folder is needed. -/
  | alreadyExists
  | notFound
  | notADirectory
  | isADirectory
  /-- There are too many links on the way. -/
  | filesystemLoop
  deriving DecidableEq, Repr

def ArchiveError.name : ArchiveError → String
  | .alreadyExists => "AlreadyExists"
  | .notFound => "NotFound"
  | .notADirectory => "NotADirectory"
  | .isADirectory => "IsADirectory"
  | .filesystemLoop => "FilesystemLoop"

/-- The entry at a path.  The root is a folder, and of two entries for one path the first counts. -/
def ArchiveEntry.lookup (entries : List (ArchivePath × ArchiveEntry)) (path : ArchivePath) :
    Option ArchiveEntry :=
  if path = [] then some .folder else (entries.find? fun entry ↦ entry.1 = path).map Prod.snd

theorem ArchiveEntry.lookup_cons {path : ArchivePath} (below : path ≠ []) (entry : ArchiveEntry)
    (entries : List (ArchivePath × ArchiveEntry)) (other : ArchivePath) :
    lookup ((path, entry) :: entries) other =
      if other = path then some entry else lookup entries other := by
  by_cases same : other = path
  · subst same
    simp [lookup, below]
  · simp [lookup, same, Ne.symm same]

/-- A new entry leaves the folders as they are, unless it takes the place of one. -/
theorem ArchiveEntry.lookup_cons_folder {path : ArchivePath} (below : path ≠ [])
    {entries : List (ArchivePath × ArchiveEntry)} (covers : lookup entries path ≠ some .folder)
    (entry : ArchiveEntry) {other : ArchivePath} (there : lookup entries other = some .folder) :
    lookup ((path, entry) :: entries) other = some .folder := by
  have apart : other ≠ path := by
    rintro rfl
    exact covers there
  rw [lookup_cons below, if_neg apart, there]

/-- What there is at every path, and where among it the directory of the statistics is. -/
structure Archive where
  directory : ArchivePath
  entries : List (ArchivePath × ArchiveEntry)
  /-- Every entry is in a folder. -/
  rooted : ∀ path name, (ArchiveEntry.lookup entries (path ++ [name])).isSome →
    ArchiveEntry.lookup entries path = some .folder
  based : ArchiveEntry.lookup entries directory = some .folder

/-- Where a way leads. -/
inductive ArchivePlace
  | there (path : ArchivePath) (entry : ArchiveEntry)
  /-- Only the last name is missing, in a folder that is there. -/
  | vacant (path : ArchivePath)
  | nowhere (error : ArchiveError)
  deriving DecidableEq, Repr

namespace Archive

/-- An archive in which nothing is. -/
def empty : Archive where
  directory := []
  entries := []
  rooted := by simp [ArchiveEntry.lookup]
  based := rfl

def find? (a : Archive) (path : ArchivePath) : Option ArchiveEntry :=
  ArchiveEntry.lookup a.entries path

/-- Puts an entry into a folder, where it replaces anything but a folder. -/
def set (a : Archive) (path : ArchivePath) (entry : ArchiveEntry) : Archive :=
  if room : path ≠ [] ∧ a.find? path.dropLast = some .folder ∧ a.find? path ≠ some .folder then
    { a with
      entries := (path, entry) :: a.entries
      rooted := by
        obtain ⟨below, inside, covers⟩ := room
        intro folder name present
        apply ArchiveEntry.lookup_cons_folder below covers
        rw [ArchiveEntry.lookup_cons below] at present
        by_cases new : folder ++ [name] = path
        · rw [← new, List.dropLast_concat] at inside
          exact inside
        · rw [if_neg new] at present
          exact a.rooted folder name present
      based := ArchiveEntry.lookup_cons_folder room.1 room.2.2 entry a.based }
  else a

/-- Puts a file at a path from the directory, and folders on the way to it where nothing is. -/
def addFile (a : Archive) (path : ArchivePath) (content : String) : Archive :=
  let folders := (List.range (path.length - 1)).map fun n ↦ a.directory ++ path.take (n + 1)
  let withFolder (a : Archive) (folder : ArchivePath) : Archive :=
    if (a.find? folder).isSome then a else a.set folder .folder
  (folders.foldl withFolder a).set (a.directory ++ path) (.file content)

/-! ## Following links -/

/-- Goes the steps of a way from a folder on.  At a link the way goes on as `jump` says. -/
def follow (a : Archive) (jump : ArchivePath → List ArchiveStep → ArchivePlace) :
    ArchivePath → List ArchiveStep → ArchivePlace
  | here, [] => .there here .folder
  | here, .up :: way => a.follow jump here.dropLast way
  | here, .into name :: way =>
    match a.find? (here ++ [name]) with
    | none => if way = [] then .vacant (here ++ [name]) else .nowhere .notFound
    | some .folder => a.follow jump (here ++ [name]) way
    | some (.link fromRoot target) => jump (if fromRoot then [] else here) (target ++ way)
    | some entry => if way = [] then .there (here ++ [name]) entry else .nowhere .notADirectory
  | here, .stay :: way => a.follow jump here way

/-- Goes the steps of a way, through so many links at most. -/
def walk (a : Archive) : Nat → ArchivePath → List ArchiveStep → ArchivePlace
  | 0 => a.follow fun _ _ ↦ .nowhere .filesystemLoop
  | links + 1 => a.follow (a.walk links)

/-- How many links may be on one way. -/
def maxLinks : Nat := 40

/-- Where the names lead from the directory. -/
def locate (a : Archive) (names : List String) : ArchivePlace :=
  a.walk maxLinks a.directory (names.map .into)

/-- Whether anything is found: a link that leads nowhere does not count. -/
def present (a : Archive) (names : List String) : Bool :=
  match a.locate names with
  | .there _ _ => true
  | _ => false

def isFolder (a : Archive) (names : List String) : Bool :=
  match a.locate names with
  | .there _ .folder => true
  | _ => false

/-- The names in a folder, those of links among them. -/
def namesIn (a : Archive) (folder : List String) : List String :=
  match a.locate folder with
  | .there place .folder =>
    a.entries.filterMap fun (path, _) ↦ if path.dropLast = place then path.getLast? else none
  | _ => []

/-- Makes a folder in the directory, unless there is one. -/
def makeFolder (a : Archive) (name : String) : Except ArchiveError Archive :=
  match a.find? (a.directory ++ [name]) with
  | none => .ok (a.set (a.directory ++ [name]) .folder)
  | some _ => if a.isFolder [name] then .ok a else .error .alreadyExists

/-- Writes a text where the names lead, also over a file.  What is written to a pipe or a device is
not kept. -/
def write (a : Archive) (names : List String) (text : String) : Except ArchiveError Archive :=
  match a.locate names with
  | .there place (.file _) => .ok (a.set place (.file text))
  | .there _ .folder => .error .isADirectory
  | .there _ _ => .ok a
  | .vacant place => .ok (a.set place (.file text))
  | .nowhere error => .error error

/-! ## Numbered files -/

def fileName (n : Nat) : String := "statistic-#" ++ toString n ++ ".csv"

/-- Different numbers have different names. -/
theorem fileName_injective {m n : Nat} (same : fileName m = fileName n) : m = n := by
  have digits : Nat.toDigits 10 m = Nat.toDigits 10 n := by
    simpa [fileName, Nat.toString_eq_repr] using congrArg String.toList same
  have numbers := congrArg (fun digits ↦ Nat.ofDigitChars 10 digits 0) digits
  simpa using numbers

/-- The names that are not those of the numbers below `n`. -/
def untried (names : List String) (n : Nat) : List String :=
  names.filter fun name ↦ name ∉ (List.range n).map fileName

theorem length_untried_succ_lt {names : List String} {n : Nat} (taken : fileName n ∈ names) :
    (untried names (n + 1)).length < (untried names n).length := by
  have fewer : untried names (n + 1) = (untried names n).filter (· ≠ fileName n) := by
    rw [untried, untried, List.filter_filter]
    apply List.filter_congr
    intro name _
    simp [List.range_succ, and_comm, eq_comm]
  have fresh : fileName n ∉ (List.range n).map fileName := by
    intro tried
    obtain ⟨m, below, same⟩ := List.mem_map.mp tried
    exact Nat.ne_of_lt (List.mem_range.mp below) (fileName_injective same)
  rw [fewer, List.length_filter_lt_length_iff_exists]
  exact ⟨fileName n, List.mem_filter.mpr ⟨taken, by simpa using fresh⟩, by simp⟩

/-- Tries the numbers from `n` on until a file name is free.  Every number that is not leaves fewer
names in the way. -/
def firstUnused (names : List String) (n : Nat) : Nat :=
  if fileName n ∈ names then firstUnused names (n + 1) else n
termination_by (untried names n).length
decreasing_by exact length_untried_succ_lt ‹_›

/-- The least number whose file name is not among the names. -/
def leastUnused (names : List String) : Nat := firstUnused names 0

/-- The names of a folder under which something is found. -/
def taken (a : Archive) (folder : List String) : List String :=
  (a.namesIn folder).filter fun name ↦ a.present (folder ++ [name])

/-- Writes a text into a folder under the first number that is free, and tells where. -/
def writeNumbered (a : Archive) (folder : List String) (text : String) :
    Except ArchiveError (List String) × Archive :=
  let names := folder ++ [fileName (leastUnused (a.taken folder))]
  match a.write names text with
  | .error e => (.error e, a)
  | .ok b => (.ok names, b)

/-- The name of the folder for the statistics of a run. -/
def folderName (run : Aggregate) : String := toString run.memberCount.toNat

/-- Stores the statistics of a run in the folder of its group size, and tells where. -/
def store (a : Archive) (run : Aggregate) : Except ArchiveError (List String) × Archive :=
  match a.makeFolder (folderName run) with
  | .error e => (.error e, a)
  | .ok b => b.writeNumbered [folderName run] run.toCsv

end Archive

end GroupKey
