import GroupKey.Bytes

/-!
# The Poly1305 one-time authenticator

The message, cut into blocks of sixteen bytes with a final one bit each, is evaluated as a
polynomial modulo `2 ^ 130 - 5` at the clamped first half of the key; the second half is added
modulo `2 ^ 128`.
-/

namespace GroupKey.Poly1305

def prime : Nat := Nat.pow 2 130 - 5

def clamp (r : Nat) : Nat := r &&& 0x0ffffffc0ffffffc0ffffffc0fffffff

/-- A block as a number, with a one bit just above its last byte. -/
def blockValue (block : Bytes) : Nat := Bytes.toNatLE block + Nat.pow 256 block.length

def accumulate (r : Nat) (blocks : List Bytes) : Nat :=
  blocks.foldl (fun sum block ↦ (sum + blockValue block) * r % prime) 0

def tag (key message : Bytes) : Bytes :=
  let r := clamp (Bytes.toNatLE (key.take 16))
  let s := Bytes.toNatLE (key.drop 16)
  Bytes.ofNatLE 16 (accumulate r (Bytes.blocks 16 message) + s)

end GroupKey.Poly1305
