import GroupKey.Decimal.Shortest

/-!
# Layouts of decimals

A layout says between which powers of ten a number is written with all its places.  Outside them
one digit stands before the point and an exponent with a sign follows.
-/

namespace GroupKey.Decimal

/-- A number from `10 ^ least` on and below `10 ^ bound` is written with all its places. -/
structure Layout where
  least : Int
  bound : Int
  deriving DecidableEq, Repr

namespace Layout

def zeros (n : Nat) : List Char := List.replicate n '0'

/-- Digits with a point behind the first `places` of them, and a zero behind a point at the end. -/
def pointed (digits : List Char) (places : Nat) : List Char :=
  let fraction := digits.drop places
  digits.take places ++ zeros (places - digits.length) ++ '.' ::
    if fraction.isEmpty then ['0'] else fraction

/-- Also an exponent that is not negative has its sign. -/
def signed : Int → List Char
  | .ofNat n => '+' :: (toString n).toList
  | .negSucc n => '-' :: (toString (n + 1)).toList

/-- The text of a decimal whose last digit is not zero. -/
def write (layout : Layout) (d : Decimal) : String :=
  let digits := (toString d.digits).toList
  let magnitude := d.exponent + digits.length
  String.ofList <|
    if layout.least < magnitude && magnitude ≤ layout.bound then
      if 0 < magnitude then pointed digits magnitude.toNat
      else '0' :: '.' :: zeros (-magnitude).toNat ++ digits
    else
      (if digits.length = 1 then digits else pointed digits 1) ++
        'e' :: signed (magnitude - 1)

/-- The shortest text of a floating point number, if it is finite. -/
def writeFloat? (layout : Layout) (x : Float) : Option String :=
  let sign := if x.toBits ≥ 0x8000000000000000 then "-" else ""
  if !x.isFinite then none
  else if x == 0 then some (sign ++ "0.0")
  else some (sign ++ layout.write (Interval.ofBits x.toBits).shortest)

end Layout

end GroupKey.Decimal
