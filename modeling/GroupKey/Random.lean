import GroupKey.Crypto.ChaCha

/-!
# The seeded random stream

A stream is a key and a position in the words it generates; drawing moves the position.  A
sixty-four bit seed is expanded into the key by a linear congruential generator whose state is
permuted on output.
-/

namespace GroupKey

structure Random where
  key : Bytes
  position : Nat
  deriving DecidableEq, Repr

namespace Random

def nextSeedState (state : UInt64) : UInt64 := state * 6364136223846793005 + 11634580027462260723

/-- Folds a state to thirty-two bits and rotates it by its highest five. -/
def seedWord (state : UInt64) : UInt32 :=
  let folded := (((state >>> 18) ^^^ state) >>> 27).toUInt32
  let amount := (state >>> 59).toUInt32
  (folded >>> amount) ||| (folded <<< ((32 - amount) % 32))

def seedWords : (count : Nat) → UInt64 → List UInt32
  | 0, _ => []
  | count + 1, state =>
    let state := nextSeedState state
    seedWord state :: seedWords count state

def ofSeed (seed : UInt64) : Random := ⟨Bytes.ofWordsLE (seedWords 8 seed), 0⟩

/-! ## Drawing -/

def word (key : Bytes) (position : Nat) : UInt32 :=
  let counter := position / 16
  let start := ChaCha.layout key [UInt32.ofNat counter, UInt32.ofNat (counter / UInt32.size)]
  (ChaCha.block 6 start).getD (position % 16) 0

def nextWord (r : Random) : UInt32 × Random :=
  (word r.key r.position, { r with position := r.position + 1 })

/-- Two consecutive words, the low half first. -/
def nextUInt64 (r : Random) : Nat × Random :=
  let (low, r) := r.nextWord
  let (high, r) := r.nextWord
  (low.toNat + UInt32.size * high.toNat, r)

theorem nextUInt64_lt (r : Random) : r.nextUInt64.1 < UInt64.size := by
  have low := (word r.key r.position).toNat_lt
  have high := (word r.key (r.position + 1)).toNat_lt
  simp only [nextUInt64, nextWord, UInt32.size, UInt64.size]
  omega

/-- The next `count` words as bytes. -/
def nextWords : (count : Nat) → Random → Bytes × Random
  | 0, r => ([], r)
  | count + 1, r =>
    let (w, r) := r.nextWord
    let (rest, r) := nextWords count r
    (Bytes.ofNatLE 4 w.toNat ++ rest, r)

/-- Fresh bytes; a length that is no multiple of four still consumes whole words. -/
def nextBytes (length : Nat) (r : Random) : Bytes × Random :=
  let (bytes, r) := r.nextWords ((length + 3) / 4)
  (bytes.take length, r)

theorem length_nextWords (count : Nat) (r : Random) :
    (r.nextWords count).1.length = 4 * count := by
  induction count generalizing r with
  | zero => rfl
  | succ count ih => simp [nextWords, ih]; omega

@[simp] theorem length_nextBytes (length : Nat) (r : Random) :
    (r.nextBytes length).1.length = length := by
  simp only [nextBytes, List.length_take, length_nextWords]
  omega

/-! ## Uniform numbers -/

/-- A number from `0` to `span`, for `span < 2 ^ 64`.  One draw is scaled to the range; its low
half decides whether a second draw is looked at, which can only carry one into the result. -/
def nextUpTo (span : Nat) (r : Random) : Nat × Random :=
  if span + 1 = UInt64.size then r.nextUInt64
  else
    let range := span + 1
    let (draw, r) := r.nextUInt64
    let high := draw * range / UInt64.size
    let low := draw * range % UInt64.size
    if UInt64.size - range < low then
      let (second, r) := r.nextUInt64
      let carry := (low + second * range / UInt64.size) / UInt64.size
      (high + carry, r)
    else (high, r)

end Random

end GroupKey
