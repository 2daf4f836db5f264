import GroupKey.Bytes

/-!
# MessagePack values

A value tree and its reader.  The reader consumes one value and returns the bytes behind it.  It
accepts every form of the format, bounds the nesting of arrays, maps and extensions, and never
looks at more elements than the input has bytes for.  Numbers keep the form they were written in,
unsigned or signed, since map keys distinguish the two.
-/

namespace GroupKey.MessagePack

inductive Value
  | nil
  | bool (b : Bool)
  | uint (n : Nat)
  | int (n : Int)
  | float (bits : Bytes)
  | str (bytes : Bytes)
  | bin (bytes : Bytes)
  | array (items : List Value)
  | map (entries : List (Value × Value))
  | ext (tag : UInt8) (bytes : Bytes)

def readBytes (length : Nat) (input : Bytes) : Option (Bytes × Bytes) :=
  let part := input.take length
  if part.length = length then some (part, input.drop length) else none

def readNat (width : Nat) (input : Bytes) : Option (Nat × Bytes) :=
  (readBytes width input).map fun (part, rest) ↦ (Bytes.toNatBE part, rest)

/-- The number whose two's complement over `width` bytes is `n`. -/
def ofTwosComplement (width n : Nat) : Int :=
  if n < Nat.pow 2 (8 * width - 1) then n else (n : Int) - Nat.pow 2 (8 * width)

/-- What the first bytes of a value announce: the value itself, or a kind and a length. -/
inductive Head
  | done (value : Value)
  | float (length : Nat)
  | str (length : Nat)
  | bin (length : Nat)
  | ext (length : Nat)
  | array (length : Nat)
  | map (length : Nat)

def sized (head : Nat → Head) (width : Nat) (input : Bytes) : Option (Head × Bytes) :=
  (readNat width input).map fun (n, rest) ↦ (head n, rest)

def readHead : Bytes → Option (Head × Bytes)
  | [] => none
  | marker :: rest =>
    let m := marker.toNat
    if m < 0x80 then some (.done (.uint m), rest)
    else if m < 0x90 then some (.map (m - 0x80), rest)
    else if m < 0xa0 then some (.array (m - 0x90), rest)
    else if m < 0xc0 then some (.str (m - 0xa0), rest)
    else if 0xe0 ≤ m then some (.done (.int ((m : Int) - 256)), rest)
    else match m with
      | 0xc0 => some (.done .nil, rest)
      | 0xc2 => some (.done (.bool false), rest)
      | 0xc3 => some (.done (.bool true), rest)
      | 0xc4 => sized .bin 1 rest
      | 0xc5 => sized .bin 2 rest
      | 0xc6 => sized .bin 4 rest
      | 0xc7 => sized .ext 1 rest
      | 0xc8 => sized .ext 2 rest
      | 0xc9 => sized .ext 4 rest
      | 0xca => some (.float 4, rest)
      | 0xcb => some (.float 8, rest)
      | 0xcc => sized (fun n ↦ .done (.uint n)) 1 rest
      | 0xcd => sized (fun n ↦ .done (.uint n)) 2 rest
      | 0xce => sized (fun n ↦ .done (.uint n)) 4 rest
      | 0xcf => sized (fun n ↦ .done (.uint n)) 8 rest
      | 0xd0 => sized (fun n ↦ .done (.int (ofTwosComplement 1 n))) 1 rest
      | 0xd1 => sized (fun n ↦ .done (.int (ofTwosComplement 2 n))) 2 rest
      | 0xd2 => sized (fun n ↦ .done (.int (ofTwosComplement 4 n))) 4 rest
      | 0xd3 => sized (fun n ↦ .done (.int (ofTwosComplement 8 n))) 8 rest
      | 0xd4 => some (.ext 1, rest)
      | 0xd5 => some (.ext 2, rest)
      | 0xd6 => some (.ext 4, rest)
      | 0xd7 => some (.ext 8, rest)
      | 0xd8 => some (.ext 16, rest)
      | 0xd9 => sized .str 1 rest
      | 0xda => sized .str 2 rest
      | 0xdb => sized .str 4 rest
      | 0xdc => sized .array 2 rest
      | 0xdd => sized .array 4 rest
      | 0xde => sized .map 2 rest
      | 0xdf => sized .map 4 rest
      | _ => none

/-! ## Reading values -/

/-- Reads `count` elements one after the other and stops at the first that fails. -/
def readMany {α : Type} (read : Bytes → Option (α × Bytes)) :
    (count : Nat) → Bytes → Option (List α × Bytes)
  | 0, input => some ([], input)
  | count + 1, input => do
    let (item, rest) ← read input
    let (items, rest) ← readMany read count rest
    return (item :: items, rest)

def readPair {α : Type} (read : Bytes → Option (α × Bytes)) (input : Bytes) :
    Option ((α × α) × Bytes) := do
  let (first, rest) ← read input
  let (second, rest) ← read rest
  return ((first, second), rest)

/-- Reads one value in which arrays, maps and extensions are nested at most `depth` deep. -/
def read : (depth : Nat) → Bytes → Option (Value × Bytes)
  | 0, input => do
    match ← readHead input with
    | (.done value, rest) => return (value, rest)
    | (.float n, rest) => return (← readBytes n rest).map .float id
    | (.str n, rest) => return (← readBytes n rest).map .str id
    | (.bin n, rest) => return (← readBytes n rest).map .bin id
    | _ => none
  | depth + 1, input => do
    match ← readHead input with
    | (.done value, rest) => return (value, rest)
    | (.float n, rest) => return (← readBytes n rest).map .float id
    | (.str n, rest) => return (← readBytes n rest).map .str id
    | (.bin n, rest) => return (← readBytes n rest).map .bin id
    | (.ext n, tag :: rest) => return (← readBytes n rest).map (.ext tag) id
    | (.ext _, []) => none
    | (.array n, rest) => return (← readMany (read depth) n rest).map .array id
    | (.map n, rest) => return (← readMany (readPair (read depth)) n rest).map .map id

/-- The nesting a datagram may have, its body included. -/
def maxDepth : Nat := 1023

/-! ## Reading fields -/

namespace Value

/-- An integer below `bound`, in whichever form it was written. -/
def nat? (bound : Nat) : Value → Option Nat
  | uint n => if n < bound then some n else none
  | int n => if 0 ≤ n ∧ n < bound then some n.toNat else none
  | _ => none

/-- A byte string: binary, text, or an array of bytes. -/
def bytes? : Value → Option Bytes
  | bin bytes => some bytes
  | str bytes => some bytes
  | array items => items.mapM fun item ↦ (item.nat? 256).map UInt8.ofNat
  | _ => none

/-- A list of integers below `bound`: an array, or the bytes of a binary value. -/
def nats? (bound : Nat) : Value → Option (List Nat)
  | array items => items.mapM (nat? bound)
  | bin bytes => bytes.mapM fun b ↦ if b.toNat < bound then some b.toNat else none
  | _ => none

/-- Which field a map key names.  The outer failure is a key of a kind that no field has, the
inner absence a name or index that is unknown. -/
def fieldIndex? (names : List String) : Value → Option (Option Nat)
  | str bytes => some (names.findIdx? fun name ↦ name.toUTF8.toList = bytes)
  | bin bytes => some (names.findIdx? fun name ↦ name.toUTF8.toList = bytes)
  | uint n => some (if n < names.length then some n else none)
  | _ => none

/-- The fields of a record in order.  A record is an array of exactly its fields, a map in which
every field occurs once among entries that may be unknown, or a binary value whose leading bytes
are the fields. -/
def record? (names : List String) : Value → Option (List Value)
  | array items => if items.length = names.length then some items else none
  | bin bytes =>
    if names.length ≤ bytes.length then
      some ((bytes.take names.length).map fun b ↦ uint b.toNat)
    else none
  | map entries => do
    let keyed ← entries.mapM fun (key, value) ↦ (key.fieldIndex? names).map fun i ↦ (i, value)
    (List.range names.length).mapM fun i ↦
      match keyed.filter fun entry ↦ entry.1 = some i with
      | [(_, value)] => some value
      | _ => none
  | _ => none

end Value

end GroupKey.MessagePack
