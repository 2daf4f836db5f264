import GroupKey.Digits

/-!
# Endpoints

An address of four octets and a port.  The text forms are strict: no leading zeros in an octet,
no spaces, and nothing after the last digit.
-/

namespace GroupKey

structure Address where
  a : UInt8
  b : UInt8
  c : UInt8
  d : UInt8
  deriving DecidableEq, Hashable, Repr

structure Endpoint where
  address : Address
  port : UInt16
  deriving DecidableEq, Hashable, Repr

namespace Address

def octets (x : Address) : List UInt8 := [x.a, x.b, x.c, x.d]

def ofOctets? : List UInt8 → Option Address
  | [a, b, c, d] => some ⟨a, b, c, d⟩
  | _ => none

@[simp] theorem ofOctets?_octets (x : Address) : ofOctets? x.octets = some x := rfl

def isMulticast (x : Address) : Bool := 224 ≤ x.a && x.a ≤ 239

def toText (x : Address) : String :=
  ".".intercalate (x.octets.map fun octet ↦ toString octet.toNat)

def octet? (digits : List Char) : Option UInt8 := do
  if digits.length > 3 || (digits.length > 1 && digits.head? == some '0') then none
  let n ← Digits.decimal? digits
  if n < 256 then some (UInt8.ofNat n) else none

def parse? (text : String) : Option Address := do
  ofOctets? (← (text.toList.splitOn '.').mapM octet?)

end Address

namespace Endpoint

def toText (x : Endpoint) : String := x.address.toText ++ ":" ++ toString x.port.toNat

def parse? (text : String) : Option Endpoint := do
  let [address, port] := text.toList.splitOn ':' | none
  let address ← Address.parse? (String.ofList address)
  let port ← Digits.decimal? port
  if port < 65536 then some ⟨address, UInt16.ofNat port⟩ else none

end Endpoint

end GroupKey
