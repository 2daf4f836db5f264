import GroupKey.Bytes

/-!
# Writing MessagePack

Integers take the shortest unsigned form, byte strings the shortest binary form, and arrays the
shortest header.
-/

namespace GroupKey.MessagePack

def writeNat (n : Nat) : Bytes :=
  if n < 0x80 then [UInt8.ofNat n]
  else if n < UInt8.size then 0xcc :: Bytes.ofNatBE 1 n
  else if n < UInt16.size then 0xcd :: Bytes.ofNatBE 2 n
  else if n < UInt32.size then 0xce :: Bytes.ofNatBE 4 n
  else 0xcf :: Bytes.ofNatBE 8 n

def binHeader (length : Nat) : Bytes :=
  if length < UInt8.size then 0xc4 :: Bytes.ofNatBE 1 length
  else if length < UInt16.size then 0xc5 :: Bytes.ofNatBE 2 length
  else 0xc6 :: Bytes.ofNatBE 4 length

def writeBin (bytes : Bytes) : Bytes := binHeader bytes.length ++ bytes

def arrayHeader (length : Nat) : Bytes :=
  if length < 16 then [UInt8.ofNat (0x90 + length)]
  else if length < UInt16.size then 0xdc :: Bytes.ofNatBE 2 length
  else 0xdd :: Bytes.ofNatBE 4 length

/-- An array of items that are already written. -/
def writeArray (items : List Bytes) : Bytes := arrayHeader items.length ++ items.flatten

end GroupKey.MessagePack
