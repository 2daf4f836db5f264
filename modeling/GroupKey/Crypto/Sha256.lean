import GroupKey.Bytes

/-!
# SHA-256 and the key derivation built on it

`digest` is the hash, `hmac` the keyed hash, and `deriveKey` one extract step without salt
followed by one expand step, which is enough for keys of up to thirty-two bytes.
-/

namespace GroupKey.Sha256

abbrev State := Vector UInt32 8

def initial : State := Vector.ofFn fun i ↦
  [0x6a09e667, 0xbb67ae85, 0x3c6ef372, 0xa54ff53a,
    0x510e527f, 0x9b05688c, 0x1f83d9ab, 0x5be0cd19].getD i.val 0

def roundConstants : List UInt32 :=
  [0x428a2f98, 0x71374491, 0xb5c0fbcf, 0xe9b5dba5, 0x3956c25b, 0x59f111f1, 0x923f82a4, 0xab1c5ed5,
    0xd807aa98, 0x12835b01, 0x243185be, 0x550c7dc3, 0x72be5d74, 0x80deb1fe, 0x9bdc06a7, 0xc19bf174,
    0xe49b69c1, 0xefbe4786, 0x0fc19dc6, 0x240ca1cc, 0x2de92c6f, 0x4a7484aa, 0x5cb0a9dc, 0x76f988da,
    0x983e5152, 0xa831c66d, 0xb00327c8, 0xbf597fc7, 0xc6e00bf3, 0xd5a79147, 0x06ca6351, 0x14292967,
    0x27b70a85, 0x2e1b2138, 0x4d2c6dfc, 0x53380d13, 0x650a7354, 0x766a0abb, 0x81c2c92e, 0x92722c85,
    0xa2bfe8a1, 0xa81a664b, 0xc24b8b70, 0xc76c51a3, 0xd192e819, 0xd6990624, 0xf40e3585, 0x106aa070,
    0x19a4c116, 0x1e376c08, 0x2748774c, 0x34b0bcb5, 0x391c0cb3, 0x4ed8aa4a, 0x5b9cca4f, 0x682e6ff3,
    0x748f82ee, 0x78a5636f, 0x84c87814, 0x8cc70208, 0x90befffa, 0xa4506ceb, 0xbef9a3f7, 0xc67178f2]

def rotateRight (word amount : UInt32) : UInt32 := (word >>> amount) ||| (word <<< (32 - amount))

/-! ## Compression -/

def smallSigma0 (x : UInt32) : UInt32 := rotateRight x 7 ^^^ rotateRight x 18 ^^^ (x >>> 3)

def smallSigma1 (x : UInt32) : UInt32 := rotateRight x 17 ^^^ rotateRight x 19 ^^^ (x >>> 10)

def bigSigma0 (x : UInt32) : UInt32 := rotateRight x 2 ^^^ rotateRight x 13 ^^^ rotateRight x 22

def bigSigma1 (x : UInt32) : UInt32 := rotateRight x 6 ^^^ rotateRight x 11 ^^^ rotateRight x 25

def choose (x y z : UInt32) : UInt32 := (x &&& y) ^^^ (~~~x &&& z)

def majority (x y z : UInt32) : UInt32 := (x &&& y) ^^^ (x &&& z) ^^^ (y &&& z)

/-- One round for each word of the schedule.  The window holds the next sixteen words; each round
takes its first word and appends the word the recurrence gives. -/
def rounds : (window : List UInt32) → (constants : List UInt32) → State → State
  | w :: window, k :: constants, s =>
    let t1 := s[7] + bigSigma1 s[4] + choose s[4] s[5] s[6] + k + w
    let t2 := bigSigma0 s[0] + majority s[0] s[1] s[2]
    let new := smallSigma1 (window.getD 13 0) + window.getD 8 0 + smallSigma0 (window.getD 0 0) + w
    let next : State := #v[t1 + t2, s[0], s[1], s[2], s[3] + t1, s[4], s[5], s[6]]
    rounds (window ++ [new]) constants next
  | _, _, s => s

def compress (state : State) (block : Bytes) : State :=
  Vector.zipWith (· + ·) state (rounds (Bytes.toWordsBE block) roundConstants state)

/-- One bit, zero bits, and the length in bits as eight bytes, up to a multiple of a block. -/
def pad (message : Bytes) : Bytes :=
  let zeros := (119 - message.length % 64) % 64
  message ++ 0x80 :: List.replicate zeros 0 ++ Bytes.ofNatBE 8 (8 * message.length)

def digest (message : Bytes) : Bytes :=
  Bytes.ofWordsBE ((Bytes.blocks 64 (pad message)).foldl compress initial).toList

/-! ## Keyed hash and key derivation -/

def blockKey (key : Bytes) : Bytes :=
  let short := if key.length > 64 then digest key else key
  short ++ List.replicate (64 - short.length) 0

def hmac (key message : Bytes) : Bytes :=
  let inner := (blockKey key).map (· ^^^ 0x36)
  let outer := (blockKey key).map (· ^^^ 0x5c)
  digest (outer ++ digest (inner ++ message))

/-- Thirty-two bytes of key material from a shared secret, bound to a purpose. -/
def deriveKey (material purpose : Bytes) : Bytes :=
  hmac (hmac (List.replicate 32 0) material) (purpose ++ [1])

end GroupKey.Sha256
