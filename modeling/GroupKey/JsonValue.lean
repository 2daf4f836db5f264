import GroupKey.Digits

/-!
# JSON text

A reader and the pieces of a writer.  The reader accepts exactly the grammar of the format, keeps
the spelling of numbers, and keeps a string whose escapes form no text as such: it is acceptable
wherever its value is not looked at.
-/

namespace GroupKey

inductive JsonValue
  | null
  | bool (b : Bool)
  | number (spelling : List Char)
  | string (text : Option (List Char))
  | array (items : List JsonValue)
  | object (members : List (Option (List Char) × JsonValue))

namespace JsonValue

def isBlank (c : Char) : Bool := c == ' ' || c == '\n' || c == '\t' || c == '\r'

def skipBlank (input : List Char) : List Char := input.dropWhile isBlank

/-- A piece of a string: a character, or a sixteen bit unit written as an escape. -/
inductive Piece
  | char (c : Char)
  | unit (n : Nat)

def escaped? : Char → Option Char
  | '"' => some '"'
  | '\\' => some '\\'
  | '/' => some '/'
  | 'b' => some '\x08'
  | 'f' => some '\x0c'
  | 'n' => some '\n'
  | 'r' => some '\r'
  | 't' => some '\t'
  | _ => none

/-- The pieces up to the closing quote. -/
def readPieces : List Char → Option (List Piece × List Char)
  | [] => none
  | '"' :: rest => some ([], rest)
  | '\\' :: 'u' :: a :: b :: c :: d :: rest => do
    let high := 16 * (← Digits.hexValue? a) + (← Digits.hexValue? b)
    let low := 16 * (← Digits.hexValue? c) + (← Digits.hexValue? d)
    let (pieces, rest) ← readPieces rest
    return (.unit (256 * high + low) :: pieces, rest)
  | '\\' :: c :: rest => do
    let c ← escaped? c
    let (pieces, rest) ← readPieces rest
    return (.char c :: pieces, rest)
  | c :: rest =>
    if c.toNat < 32 || c = '\\' then none
    else do
      let (pieces, rest) ← readPieces rest
      return (.char c :: pieces, rest)

/-- The text of the pieces.  A unit that is half of a pair must be followed by the other half. -/
def assemble : List Piece → Option (List Char)
  | [] => some []
  | .char c :: rest => (assemble rest).map (c :: ·)
  | .unit n :: rest =>
    if n < 0xd800 || 0xe000 ≤ n then (assemble rest).map (Char.ofNat n :: ·)
    else if 0xdc00 ≤ n then none
    else match rest with
      | .unit low :: rest =>
        if 0xdc00 ≤ low && low < 0xe000 then
          let code := 0x10000 + 1024 * (n - 0xd800) + (low - 0xdc00)
          (assemble rest).map (Char.ofNat code :: ·)
        else none
      | _ => none

def readString (input : List Char) : Option (Option (List Char) × List Char) :=
  (readPieces input).map fun (pieces, rest) ↦ (assemble pieces, rest)

/-- At least one digit. -/
def readDigits (input : List Char) : Option (List Char × List Char) :=
  let digits := input.takeWhile Char.isDigit
  if digits.isEmpty then none else some (digits, input.dropWhile Char.isDigit)

/-- Digits without a leading zero. -/
def readInteger : List Char → Option (List Char × List Char)
  | '0' :: rest =>
    match rest with
    | c :: _ => if c.isDigit then none else some (['0'], rest)
    | [] => some (['0'], [])
  | input => readDigits input

def readFraction : List Char → Option (List Char × List Char)
  | '.' :: rest => (readDigits rest).map fun (digits, rest) ↦ ('.' :: digits, rest)
  | input => some ([], input)

def readExponent : List Char → Option (List Char × List Char)
  | c :: rest =>
    if c = 'e' || c = 'E' then
      let (sign, rest) := match rest with
        | '+' :: rest => (['+'], rest)
        | '-' :: rest => (['-'], rest)
        | rest => ([], rest)
      (readDigits rest).map fun (digits, rest) ↦ (c :: sign ++ digits, rest)
    else some ([], c :: rest)
  | [] => some ([], [])

def readUnsigned (input : List Char) : Option (List Char × List Char) := do
  let (whole, rest) ← readInteger input
  let (fraction, rest) ← readFraction rest
  let (exponent, rest) ← readExponent rest
  return (whole ++ fraction ++ exponent, rest)

def readNumber : List Char → Option (List Char × List Char)
  | '-' :: rest => (readUnsigned rest).map fun (spelling, rest) ↦ ('-' :: spelling, rest)
  | input => readUnsigned input

/-! ## Values -/

/-- Items separated by commas up to a closing character; at least one. -/
def readItems {α : Type} (item : List Char → Option (α × List Char)) (close : Char) :
    (fuel : Nat) → List Char → Option (List α × List Char)
  | 0, _ => none
  | fuel + 1, input => do
    let (first, rest) ← item (skipBlank input)
    match skipBlank rest with
    | c :: rest =>
      if c = ',' then
        let (items, rest) ← readItems item close fuel rest
        return (first :: items, rest)
      else if c = close then return ([first], rest)
      else none
    | [] => none

def readMember {α : Type} (value : List Char → Option (α × List Char)) :
    List Char → Option ((Option (List Char) × α) × List Char)
  | '"' :: rest => do
    let (key, rest) ← readString rest
    match skipBlank rest with
    | ':' :: rest =>
      let (v, rest) ← value (skipBlank rest)
      return ((key, v), rest)
    | _ => none
  | _ => none

/-- Reads a value that starts at the first character.  The fuel bounds nesting and length. -/
def readValue : (fuel : Nat) → List Char → Option (JsonValue × List Char)
  | 0, _ => none
  | fuel + 1, input =>
    match input with
    | 'n' :: 'u' :: 'l' :: 'l' :: rest => some (null, rest)
    | 't' :: 'r' :: 'u' :: 'e' :: rest => some (bool true, rest)
    | 'f' :: 'a' :: 'l' :: 's' :: 'e' :: rest => some (bool false, rest)
    | '"' :: rest => (readString rest).map fun (text, rest) ↦ (string text, rest)
    | '[' :: rest =>
      match skipBlank rest with
      | ']' :: rest => some (array [], rest)
      | rest =>
        (readItems (readValue fuel) ']' fuel rest).map fun (items, rest) ↦ (array items, rest)
    | '\x7b' :: rest =>
      match skipBlank rest with
      | '\x7d' :: rest => some (object [], rest)
      | rest =>
        (readItems (readMember (readValue fuel)) '\x7d' fuel rest).map fun (members, rest) ↦
          (object members, rest)
    | _ => (readNumber input).map fun (spelling, rest) ↦ (number spelling, rest)

/-- The value of a text that holds one value and blanks around it. -/
def parse? (text : List Char) : Option JsonValue := do
  let (value, rest) ← readValue (text.length + 1) (skipBlank text)
  if (skipBlank rest).isEmpty then some value else none

/-- A nonnegative integer below `bound`, written without fraction, exponent or sign. -/
def nat? (bound : Nat) : JsonValue → Option Nat
  | number spelling =>
    if spelling.all Char.isDigit then
      let n := Digits.decimalValue spelling
      if n < bound then some n else none
    else none
  | _ => none

/-- The members of an object whose keys are all texts. -/
def members? : JsonValue → Option (List (List Char × JsonValue))
  | object members => members.mapM fun (key, value) ↦ key.map fun k ↦ (k, value)
  | _ => none

/-- The fields of a record in order.  A record is an array of exactly its fields, or an object in
which every field occurs once among members that may be unknown. -/
def record? (names : List String) : JsonValue → Option (List JsonValue)
  | array items => if items.length = names.length then some items else none
  | object members => do
    let members ← members? (object members)
    names.mapM fun name ↦
      match members.filter fun member ↦ member.1 = name.toList with
      | [(_, value)] => some value
      | _ => none
  | _ => none

/-! ## Writing -/

def escape (c : Char) : List Char :=
  if c = '"' then ['\\', '"']
  else if c = '\\' then ['\\', '\\']
  else if c = '\n' then ['\\', 'n']
  else if c = '\r' then ['\\', 'r']
  else if c = '\t' then ['\\', 't']
  else if c = '\x08' then ['\\', 'b']
  else if c = '\x0c' then ['\\', 'f']
  else if c.toNat < 32 then
    ['\\', 'u', '0', '0', Digits.hexDigit (c.toNat / 16), Digits.hexDigit (c.toNat % 16)]
  else [c]

/-- A text in quotes. -/
def quote (text : String) : String :=
  "\"" ++ String.ofList (text.toList.flatMap escape) ++ "\""

/-- An object of members that are already written. -/
def writeObject (members : List (String × String)) : String :=
  "\x7b" ++ ",".intercalate (members.map fun (key, value) ↦ quote key ++ ":" ++ value) ++ "\x7d"

end JsonValue

end GroupKey
