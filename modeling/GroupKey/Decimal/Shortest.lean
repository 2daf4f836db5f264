/-!
# Shortest decimals

Every binary floating point number stands for the reals that round to it.  Of the decimals among
those, the one on the coarsest decimal grid identifies the number with the fewest digits.  The
search for it compares natural numbers only.
-/

namespace GroupKey

/-- The number `digits * 10 ^ exponent`. -/
structure Decimal where
  digits : Nat
  exponent : Int
  deriving DecidableEq, Repr

namespace Decimal

/-! ## Rounding intervals -/

/-- A positive number between the ends of the reals that round to it.  All three are counted in one
unit, of which `unitsPerOne` make up one. -/
structure Interval where
  lower : Nat
  value : Nat
  upper : Nat
  unitsPerOne : Nat
  /-- Whether the ends themselves round to the number. -/
  closed : Bool
  deriving DecidableEq, Repr

namespace Interval

/-- The interval of `mantissa * 2 ^ exponent`.  Below a power of two the neighbour is only half as
far away as above it. -/
def ofBinary (mantissa : Nat) (exponent : Int) (narrowBelow : Bool) : Interval :=
  let scale := Nat.pow 2 (exponent - 2).toNat
  { lower := (4 * mantissa - if narrowBelow then 1 else 2) * scale
    value := 4 * mantissa * scale
    upper := (4 * mantissa + 2) * scale
    unitsPerOne := Nat.pow 2 (2 - exponent).toNat
    closed := mantissa % 2 == 0 }

/-- The interval of a finite number other than zero, whose sign is left out. -/
def ofBits (bits : UInt64) : Interval :=
  let fraction := bits.toNat % Nat.pow 2 52
  let biased := bits.toNat / Nat.pow 2 52 % Nat.pow 2 11
  if biased = 0 then ofBinary fraction (-1074) false
  else ofBinary (Nat.pow 2 52 + fraction) (Int.ofNat biased - 1075) (fraction == 0 && biased > 1)

def holds (i : Interval) (n : Nat) : Bool :=
  if i.closed then i.lower ≤ n && n ≤ i.upper else i.lower < n && n < i.upper

/-- The same interval counted in units that divide every point of the grid `10 ^ exponent`. -/
def refine (i : Interval) (exponent : Int) : Interval :=
  let finer := Nat.pow 10 (-exponent).toNat
  { i with
    lower := i.lower * finer
    value := i.value * finer
    upper := i.upper * finer
    unitsPerOne := i.unitsPerOne * finer }

/-- The point of a grid that rounds to the number and is closest to it.  Of two equally close
points the even one is taken. -/
def onGrid? (i : Interval) (exponent : Int) : Option Decimal :=
  let r := i.refine exponent
  let step := i.unitsPerOne * Nat.pow 10 exponent.toNat
  let below := r.value / step
  let first := r.holds (below * step)
  let second := r.holds ((below + 1) * step)
  let twice := 2 * r.value
  let middle := (2 * below + 1) * step
  let takeBelow := twice < middle || (twice == middle && below % 2 == 0)
  if first && (takeBelow || !second) then some ⟨below, exponent⟩
  else if second then some ⟨below + 1, exponent⟩
  else none

/-! ## The search -/

/-- A power of ten that exceeds the number, as an exponent, and by three digits at most. -/
def scale (i : Interval) : Int :=
  (Int.ofNat i.value.log2 - Int.ofNat i.unitsPerOne.log2) * 30103 / 100000 + 2

/-- The grids from the coarsest one of interest down to twenty digits. -/
def grids (i : Interval) : List Int := (List.range 21).map fun n ↦ i.scale - Int.ofNat n

/-- The decimal on the coarsest grid that has one.  Its last digit is not zero, since it would be
on a coarser grid.  Seventeen digits identify every number of 64 bits; should none do, the number is
cut off behind twenty. -/
def shortest (i : Interval) : Decimal :=
  let finest := i.scale - 20
  (i.grids.findSome? i.onGrid?).getD
    ⟨(i.refine finest).value / (i.unitsPerOne * Nat.pow 10 finest.toNat), finest⟩

end Interval

end Decimal

end GroupKey
