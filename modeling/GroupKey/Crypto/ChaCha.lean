import GroupKey.Bytes

/-!
# The ChaCha block function

A block is sixteen words mixed by a number of double rounds and added to the words it started
from.  The random stream runs six double rounds, the cipher runs ten; `hchacha` is the unfinished
block that turns a key and a sixteen byte nonce into a fresh key.
-/

namespace GroupKey.ChaCha

abbrev Block := Vector UInt32 16

def rotateLeft (word : UInt32) (amount : UInt32) : UInt32 :=
  (word <<< amount) ||| (word >>> (32 - amount))

def quarterRound (s : Block) (a b c d : Fin 16) : Block :=
  let s := s.set a (s[a] + s[b])
  let s := s.set d (rotateLeft (s[d] ^^^ s[a]) 16)
  let s := s.set c (s[c] + s[d])
  let s := s.set b (rotateLeft (s[b] ^^^ s[c]) 12)
  let s := s.set a (s[a] + s[b])
  let s := s.set d (rotateLeft (s[d] ^^^ s[a]) 8)
  let s := s.set c (s[c] + s[d])
  s.set b (rotateLeft (s[b] ^^^ s[c]) 7)

/-- Four column rounds, then four diagonal rounds. -/
def doubleRound (s : Block) : Block :=
  let s := quarterRound s 0 4 8 12
  let s := quarterRound s 1 5 9 13
  let s := quarterRound s 2 6 10 14
  let s := quarterRound s 3 7 11 15
  let s := quarterRound s 0 5 10 15
  let s := quarterRound s 1 6 11 12
  let s := quarterRound s 2 7 8 13
  quarterRound s 3 4 9 14

def mix : (doubleRounds : Nat) → Block → Block
  | 0, s => s
  | n + 1, s => mix n (doubleRound s)

/-- The words of "expand 32-byte k". -/
def constants : List UInt32 := [0x61707865, 0x3320646e, 0x79622d32, 0x6b206574]

/-- Lays out constants, key and the last four words; missing words are zero. -/
def layout (key : Bytes) (last : List UInt32) : Block :=
  let words := constants ++ (Bytes.toWordsLE key).take 8 ++ last
  Vector.ofFn fun i ↦ words.getD i.val 0

def block (doubleRounds : Nat) (start : Block) : List UInt32 :=
  (Vector.zipWith (· + ·) (mix doubleRounds start) start).toList

/-! ## The cipher with a twelve byte nonce -/

def cipherBlock (key nonce : Bytes) (counter : Nat) : Bytes :=
  Bytes.ofWordsLE (block 10 (layout key (UInt32.ofNat counter :: Bytes.toWordsLE nonce)))

/-- Exclusive or with the key stream that starts at block `counter`. -/
def applyStream (key nonce : Bytes) : (counter : Nat) → List Bytes → Bytes
  | _, [] => []
  | counter, chunk :: rest =>
    Bytes.xor chunk (cipherBlock key nonce counter) ++ applyStream key nonce (counter + 1) rest

def encipher (key nonce : Bytes) (counter : Nat) (text : Bytes) : Bytes :=
  applyStream key nonce counter (Bytes.blocks 64 text)

@[simp] theorem length_block (doubleRounds : Nat) (start : Block) :
    (block doubleRounds start).length = 16 := by
  simp [block]

@[simp] theorem length_cipherBlock (key nonce : Bytes) (counter : Nat) :
    (cipherBlock key nonce counter).length = 64 := by
  simp [cipherBlock]

theorem encipher_nil (key nonce : Bytes) (counter : Nat) : encipher key nonce counter [] = [] := by
  simp [encipher, Bytes.blocks_nil, applyStream]

theorem encipher_of_ne_nil (key nonce : Bytes) (counter : Nat) {text : Bytes} (some : text ≠ []) :
    encipher key nonce counter text =
      Bytes.xor (text.take 64) (cipherBlock key nonce counter) ++
        encipher key nonce (counter + 1) (text.drop 64) := by
  simp [encipher, Bytes.blocks_of_ne_nil (by decide : 64 ≠ 0) some, applyStream]

@[simp] theorem length_encipher (key nonce : Bytes) (counter : Nat) (text : Bytes) :
    (encipher key nonce counter text).length = text.length := by
  by_cases empty : text = []
  · simp [empty, encipher_nil]
  · have positive : text.length ≠ 0 := by simpa using empty
    rw [encipher_of_ne_nil key nonce counter empty, List.length_append, Bytes.length_xor,
      length_encipher key nonce (counter + 1) (text.drop 64)]
    simp only [List.length_take, List.length_drop, length_cipherBlock]
    omega
termination_by text.length
decreasing_by simp only [List.length_drop]; omega

/-- Enciphering twice with the same key stream gives the text back. -/
theorem encipher_encipher (key nonce : Bytes) (counter : Nat) (text : Bytes) :
    encipher key nonce counter (encipher key nonce counter text) = text := by
  by_cases empty : text = []
  · simp [empty, encipher_nil]
  · have positive : text.length ≠ 0 := by simpa using empty
    have image : encipher key nonce counter text ≠ [] := by
      intro none
      have := length_encipher key nonce counter text
      simp only [none, List.length_nil] at this
      omega
    rw [encipher_of_ne_nil key nonce counter image]
    have again := encipher_encipher key nonce (counter + 1) (text.drop 64)
    rw [encipher_of_ne_nil key nonce counter empty]
    by_cases short : text.length ≤ 64
    · have rest : text.drop 64 = [] := List.drop_of_length_le short
      have whole : text.take 64 = text := List.take_of_length_le short
      have back := Bytes.xor_xor_cancel text (cipherBlock key nonce counter) (by simpa using short)
      have small : (Bytes.xor text (cipherBlock key nonce counter)).length ≤ 64 := by
        rw [Bytes.length_xor]; omega
      simp only [rest, whole, encipher_nil, List.append_nil]
      rw [List.take_of_length_le small, List.drop_of_length_le small, back, encipher_nil,
        List.append_nil]
    · have head : (Bytes.xor (text.take 64) (cipherBlock key nonce counter)).length = 64 := by
        rw [Bytes.length_xor, List.length_take, length_cipherBlock]; omega
      have back := Bytes.xor_xor_cancel (text.take 64) (cipherBlock key nonce counter)
        (by rw [List.length_take, length_cipherBlock]; omega)
      rw [List.take_left' head, List.drop_left' head, back, again, List.take_append_drop]
termination_by text.length
decreasing_by simp only [List.length_drop]; omega

/-! ## Key derivation with a sixteen byte nonce -/

/-- The first and the last four words of the mixed block, without the final addition. -/
def hchacha (key nonce : Bytes) : Bytes :=
  let words := (mix 10 (layout key (Bytes.toWordsLE nonce))).toList
  Bytes.ofWordsLE (words.take 4 ++ words.drop 12)

end GroupKey.ChaCha
