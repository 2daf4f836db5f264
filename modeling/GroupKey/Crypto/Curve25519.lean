import GroupKey.Bytes

/-!
# Scalar multiplication on Curve25519

Points are represented by their first coordinate modulo `2 ^ 255 - 19`.  A secret is thirty-two
bytes, clamped when it is used and never when it is stored.
-/

namespace GroupKey.Curve25519

def keyLength : Nat := 32

def prime : Nat := Nat.pow 2 255 - 19

/-! ## Field arithmetic -/

def add (x y : Nat) : Nat := (x + y) % prime

def sub (x y : Nat) : Nat := (x + prime - y % prime) % prime

def mul (x y : Nat) : Nat := x * y % prime

def square (x : Nat) : Nat := mul x x

/-- Square and multiply over the lowest `bits` bits of the exponent. -/
def power (base exponent : Nat) : (bits : Nat) → Nat
  | 0 => 1
  | bits + 1 =>
    let half := square (power base (exponent / 2) bits)
    if exponent % 2 = 1 then mul half base else half

def inverse (x : Nat) : Nat := power x (prime - 2) 255

/-! ## The ladder -/

/-- Projective coordinates of two points whose difference is the ladder's start. -/
structure Rungs where
  x2 : Nat
  z2 : Nat
  x3 : Nat
  z3 : Nat

def Rungs.swap (r : Rungs) : Rungs := ⟨r.x3, r.z3, r.x2, r.z2⟩

/-- Doubles the first point and adds the second to it. -/
def Rungs.climb (u : Nat) (r : Rungs) : Rungs :=
  let a := add r.x2 r.z2
  let b := sub r.x2 r.z2
  let aa := square a
  let bb := square b
  let e := sub aa bb
  let da := mul (sub r.x3 r.z3) a
  let cb := mul (add r.x3 r.z3) b
  { x2 := mul aa bb
    z2 := mul e (add aa (mul 121665 e))
    x3 := square (add da cb)
    z3 := mul u (square (sub da cb)) }

def ladder (scalar u : Nat) : (bits : Nat) → Rungs → Rungs
  | 0, r => r
  | bit + 1, r =>
    let r := if scalar.testBit bit then (r.swap.climb u).swap else r.climb u
    ladder scalar u bit r

/-- Clears the three lowest bits and the highest one, and sets the one below that. -/
def clamp (scalar : Nat) : Nat := scalar % Nat.pow 2 254 / 8 * 8 + Nat.pow 2 254

/-- The product of a clamped scalar and a point; the highest bit of the point is ignored. -/
def multiply (secret point : Bytes) : Bytes :=
  let u := Bytes.toNatLE point % Nat.pow 2 255 % prime
  let r := ladder (clamp (Bytes.toNatLE secret)) u 255 ⟨1, 0, u, 1⟩
  Bytes.ofNatLE keyLength (mul r.x2 (inverse r.z2))

def basePoint : Bytes := Bytes.ofNatLE keyLength 9

@[simp] theorem length_multiply (secret point : Bytes) :
    (multiply secret point).length = keyLength := by
  simp [multiply]

end GroupKey.Curve25519
