import GroupKey.Digits

/-!
# Byte strings

Keys, nonces and datagrams are lists of bytes.  This module fixes their hexadecimal text and the
two positional readings of a byte string as a number: least significant byte first, as the field
and stream arithmetic wants it, and most significant byte first, as length headers are written.
-/

namespace GroupKey

abbrev Bytes := List UInt8

namespace Bytes

def hexChars : Bytes → List Char
  | [] => []
  | b :: rest => Digits.hexDigit (b.toNat / 16) :: Digits.hexDigit (b.toNat % 16) :: hexChars rest

def toHex (bytes : Bytes) : String := String.ofList (hexChars bytes)

def ofHexChars? : List Char → Option Bytes
  | [] => some []
  | [_] => none
  | high :: low :: rest => do
    let h ← Digits.hexValue? high
    let l ← Digits.hexValue? low
    let bytes ← ofHexChars? rest
    return UInt8.ofNat (16 * h + l) :: bytes

def ofHex? (text : String) : Option Bytes := ofHexChars? text.toList

/-! ## Positional readings -/

/-- The number whose least significant byte comes first. -/
def toNatLE : Bytes → Nat
  | [] => 0
  | b :: rest => b.toNat + 256 * toNatLE rest

/-- The lowest `length` bytes of a number, least significant first. -/
def ofNatLE : (length n : Nat) → Bytes
  | 0, _ => []
  | length + 1, n => UInt8.ofNat (n % 256) :: ofNatLE length (n / 256)

/-- The number whose most significant byte comes first. -/
def toNatBE (bytes : Bytes) : Nat := toNatLE bytes.reverse

/-- The lowest `length` bytes of a number, most significant first. -/
def ofNatBE (length n : Nat) : Bytes := (ofNatLE length n).reverse

@[simp] theorem length_ofNatLE (length n : Nat) : (ofNatLE length n).length = length := by
  induction length generalizing n with
  | zero => rfl
  | succ length ih => simp [ofNatLE, ih]

@[simp] theorem length_ofNatBE (length n : Nat) : (ofNatBE length n).length = length := by
  simp [ofNatBE]

/-- A number that fits is read back, least significant byte first. -/
theorem toNatLE_ofNatLE (length n : Nat) (bound : n < Nat.pow 256 length) :
    toNatLE (ofNatLE length n) = n := by
  induction length generalizing n with
  | zero => simp at bound; simp [ofNatLE, toNatLE, bound]
  | succ length ih =>
    have smaller : n / 256 < Nat.pow 256 length := by
      apply Nat.div_lt_of_lt_mul
      rw [Nat.mul_comm]
      exact bound
    simp only [ofNatLE, toNatLE, ih _ smaller, UInt8.toNat_ofNat']
    omega

/-- A number that fits is read back, most significant byte first. -/
theorem toNatBE_ofNatBE (length n : Nat) (bound : n < Nat.pow 256 length) :
    toNatBE (ofNatBE length n) = n := by
  simp [toNatBE, ofNatBE, toNatLE_ofNatLE length n bound]

theorem toNatLE_lt (bytes : Bytes) : toNatLE bytes < Nat.pow 256 bytes.length := by
  induction bytes with
  | nil => simp [toNatLE]
  | cons b rest ih =>
    have := b.toNat_lt
    have next : Nat.pow 256 (b :: rest).length = 256 * Nat.pow 256 rest.length := Nat.mul_comm _ _
    rw [toNatLE, next]
    omega

/-- Splits a byte string into little-endian words; bytes that fill no whole word are dropped. -/
def toWordsLE : Bytes → List UInt32
  | a :: b :: c :: d :: rest => UInt32.ofNat (toNatLE [a, b, c, d]) :: toWordsLE rest
  | _ => []

/-- Splits a byte string into big-endian words; bytes that fill no whole word are dropped. -/
def toWordsBE : Bytes → List UInt32
  | a :: b :: c :: d :: rest => UInt32.ofNat (toNatLE [d, c, b, a]) :: toWordsBE rest
  | _ => []

def ofWordsLE (words : List UInt32) : Bytes := words.flatMap fun w ↦ ofNatLE 4 w.toNat

@[simp] theorem length_ofWordsLE (words : List UInt32) :
    (ofWordsLE words).length = 4 * words.length := by
  induction words with
  | nil => rfl
  | cons w rest ih =>
    have step : ofWordsLE (w :: rest) = ofNatLE 4 w.toNat ++ ofWordsLE rest := rfl
    rw [step, List.length_append, ih, length_ofNatLE, List.length_cons]
    omega

def ofWordsBE (words : List UInt32) : Bytes := words.flatMap fun w ↦ ofNatBE 4 w.toNat

/-- Cuts a byte string into blocks of `size` bytes; the last one may be shorter. -/
def blocks (size : Nat) (bytes : Bytes) : List Bytes :=
  if _ : size = 0 ∨ bytes = [] then []
  else bytes.take size :: blocks size (bytes.drop size)
termination_by bytes.length
decreasing_by
  have : bytes.length ≠ 0 := by simp_all
  simp only [List.length_drop]
  omega

theorem blocks_nil (size : Nat) : blocks size [] = [] := by simp [blocks]

/-- Bytes are cut into blocks from the front, the last of which may be short. -/
theorem blocks_of_ne_nil {size : Nat} {bytes : Bytes} (positive : size ≠ 0) (some : bytes ≠ []) :
    blocks size bytes = bytes.take size :: blocks size (bytes.drop size) := by
  rw [blocks]; simp [positive, some]

/-- Byte-wise exclusive or, as long as the shorter argument. -/
def xor (left right : Bytes) : Bytes := List.zipWith (· ^^^ ·) left right

theorem length_xor (left right : Bytes) :
    (xor left right).length = min left.length right.length := by
  simp [xor]

/-- What was masked by a stream is unmasked by the same stream. -/
theorem xor_xor_cancel (text stream : Bytes) (long : text.length ≤ stream.length) :
    xor (xor text stream) stream = text := by
  induction text generalizing stream with
  | nil => simp [xor]
  | cons b rest ih =>
    cases stream with
    | nil => simp at long
    | cons k stream =>
      have tail := ih stream (by simpa using long)
      simp only [xor, List.zipWith_cons_cons] at tail ⊢
      rw [tail, UInt8.xor_assoc, UInt8.xor_self, UInt8.xor_zero]

end Bytes

end GroupKey
