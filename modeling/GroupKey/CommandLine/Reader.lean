import GroupKey.CommandLine.Settings

/-!
# Reading a command line

Words fill the positional slots in their order, and options fill theirs wherever they stand.  The
value of a slot is looked at when the next slot is named, so that an unknown word right behind a
bad value is what is reported.
-/

namespace GroupKey.CommandLine

/-! ## Words -/

inductive Word
  /-- Behind this word all words are plain. -/
  | terminator
  | long (name : String) (value : Option String)
  | short (letter : Char)
  | plain
  deriving DecidableEq, Repr

def Word.ofText (text : String) : Word :=
  match text.toList with
  | ['-', '-'] => .terminator
  | '-' :: '-' :: option =>
    let name := String.ofList (option.takeWhile (· ≠ '='))
    match option.dropWhile (· ≠ '=') with
    | _ :: value => .long name (some (String.ofList value))
    | [] => .long name none
  | '-' :: letter :: _ => .short letter
  | _ => .plain

/-- The slots that words fill by their position. -/
def positionalSlots : List Slot :=
  [.sponsor, .service, .memberCount, .shortestDelay, .longestDelay, .listenInterface, .groupAddress,
    .groupPort]

/-- The slots that are filled by name. -/
def slotNamed? : String → Option Slot
  | "variant" => some .variant
  | "finish-timeout-ms" => some .finishTimeout
  | "output-dir" => some .outputDirectory
  | _ => none

/-! ## Reading word by word -/

structure Reader where
  draft : Draft := {}
  /-- The slot that was named last, and its value unless that is still to come. -/
  named : Option (Slot × Option String) := none
  free : List Slot := positionalSlots
  onlyPlain : Bool := false
  deriving DecidableEq, Repr

namespace Reader

/-- Fills the slot that was named last. -/
def settle (r : Reader) : Except Refusal Reader :=
  match r.named with
  | none => .ok r
  | some (slot, none) => .error (.missingValue slot)
  | some (slot, some word) =>
    (r.draft.fill slot word).map fun draft ↦ { r with draft, named := none }

/-- Gives information instead of settings, unless what came before is wrong. -/
def inform (r : Reader) (request : Refusal) : Except Refusal Reader := do
  let _ ← r.settle
  .error request

/-- A word by its position. -/
def place (r : Reader) (text : String) : Except Refusal Reader :=
  match r.free with
  | [] => .error (.unknown text)
  | slot :: free => r.settle.map fun r ↦ { r with named := some (slot, some text), free }

/-- An option whose value is attached is filled at once. -/
def option (r : Reader) (slot : Slot) (value : Option String) : Except Refusal Reader := do
  let r ← r.settle
  match value with
  | some word => return { r with draft := ← r.draft.fill slot word }
  | none => return { r with named := some (slot, none) }

def long (r : Reader) (text name : String) (value : Option String) : Except Refusal Reader :=
  match slotNamed? name with
  | some slot => r.option slot value
  | none =>
    if name ≠ "help" && name ≠ "version" then .error (.unknown text)
    else if value.isSome then .error (.unexpectedValue text)
    else r.inform (if name = "help" then .helpRequested else .versionRequested)

/-- A plain word is the value of the option before it, if there is one without a value. -/
def plain (r : Reader) (text : String) : Except Refusal Reader :=
  match r.named with
  | some (slot, none) => .ok { r with named := some (slot, some text) }
  | _ => r.place text

def read (r : Reader) (text : String) : Except Refusal Reader :=
  if r.onlyPlain then r.place text
  else
    match Word.ofText text with
    | .terminator => .ok { r with onlyPlain := true }
    | .long name value => r.long text name value
    | .short 'h' => r.inform .helpRequested
    | .short 'V' => r.inform .versionRequested
    | .short _ => .error (.unknown text)
    | .plain => r.plain text

end Reader

/-- The settings of a command line. -/
def parse (words : List String) : Except Refusal Settings := do
  let r ← words.foldlM Reader.read {}
  (← r.settle).draft.settings

end GroupKey.CommandLine
