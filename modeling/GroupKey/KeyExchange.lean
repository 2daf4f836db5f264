import GroupKey.Crypto.Curve25519
import GroupKey.Crypto.SealedBox
import GroupKey.Crypto.Sha256
import GroupKey.Random

/-!
# Secrets, public values and key exchange

The protocol sees a key exchange through two operations: the public value of a secret, and the
secret that a secret and a foreign public value agree on.  `KeyExchange` is that interface,
`KeyExchange.Commutes` the law members rely on, and `x25519` the exchange in use.  A group secret
that is handed over whole travels sealed under a key derived from an agreed secret.
-/

namespace GroupKey

structure Secret where
  bytes : Bytes
  deriving DecidableEq, Repr

structure PublicValue where
  bytes : Bytes
  deriving DecidableEq, Repr

/-- Short text in full, long text by its first and last three characters. -/
def abbreviate (text : String) : String :=
  if text.length ≤ 6 then text
  else
    let letters := text.toList
    String.ofList (letters.take 3) ++ "..." ++ String.ofList (letters.drop (letters.length - 3))

namespace Secret

/-- The only form in which a secret is shown. -/
def fingerprint (s : Secret) : String := abbreviate (Bytes.toHex s.bytes)

def describe (s : Secret) : String := "Secret(" ++ s.fingerprint ++ ")"

end Secret

def PublicValue.describe (p : PublicValue) : String :=
  "PublicValue(" ++ String.ofList ((Bytes.hexChars p.bytes).take 12) ++ "...)"

structure KeyPair where
  secret : Secret
  publicValue : PublicValue
  deriving DecidableEq, Repr

inductive CryptoError
  | secretLength (length : Nat)
  | publicLength (length : Nat)
  | lowOrder
  | nonceLength (length : Nat)
  | authentication
  deriving DecidableEq, Repr

def CryptoError.message : CryptoError → String
  | secretLength n => "secret must be 32 bytes, got " ++ toString n
  | publicLength n => "public value must be 32 bytes, got " ++ toString n
  | lowOrder => "low-order public value"
  | nonceLength n => "nonce must be 24 bytes, got " ++ toString n
  | authentication => "decryption failed: authentication error"

structure KeyExchange where
  agree : Secret → PublicValue → Except CryptoError Secret
  publicOf : Secret → Except CryptoError PublicValue

/-- Both sides of an exchange arrive at the same secret, or both fail. -/
def KeyExchange.Commutes (kx : KeyExchange) : Prop :=
  ∀ a b A B, kx.publicOf a = .ok A → kx.publicOf b = .ok B → kx.agree a B = kx.agree b A

/-! ## The exchange on Curve25519 -/

namespace X25519

def checkSecret (s : Secret) : Except CryptoError Unit :=
  if s.bytes.length = Curve25519.keyLength then .ok () else .error (.secretLength s.bytes.length)

def checkPublic (p : PublicValue) : Except CryptoError Unit :=
  if p.bytes.length = Curve25519.keyLength then .ok () else .error (.publicLength p.bytes.length)

def agree (s : Secret) (p : PublicValue) : Except CryptoError Secret := do
  checkSecret s
  checkPublic p
  let shared := Curve25519.multiply s.bytes p.bytes
  if shared.all (· == 0) then throw .lowOrder
  return ⟨shared⟩

def publicOf (s : Secret) : Except CryptoError PublicValue := do
  checkSecret s
  return ⟨Curve25519.multiply s.bytes Curve25519.basePoint⟩

end X25519

def x25519 : KeyExchange := ⟨X25519.agree, X25519.publicOf⟩

/-- A pair whose secret is the given bytes as they are. -/
def KeyPair.ofBytes (bytes : Bytes) : KeyPair :=
  ⟨⟨bytes⟩, ⟨Curve25519.multiply bytes Curve25519.basePoint⟩⟩

def KeyPair.draw (r : Random) : KeyPair × Random :=
  let (bytes, r) := r.nextBytes Curve25519.keyLength
  (KeyPair.ofBytes bytes, r)

/-! ## Handing over a group secret -/

def nonceLength : Nat := 24

/-- The purpose that separates these keys from any other use of an agreed secret. -/
def sealPurpose : Bytes := "gka-distributed-xchacha20poly1305-v1".toUTF8.toList

def sealingKey (shared : Secret) : Bytes := Sha256.deriveKey shared.bytes sealPurpose

namespace Secret

def sealFor (group shared : Secret) (nonce : Bytes) : Bytes :=
  SealedBox.box (sealingKey shared) nonce group.bytes

def openWith (shared : Secret) (sealedSecret nonce : Bytes) : Except CryptoError Secret :=
  if nonce.length ≠ nonceLength then .error (.nonceLength nonce.length)
  else match SealedBox.unbox (sealingKey shared) nonce sealedSecret with
    | some bytes => .ok ⟨bytes⟩
    | none => .error .authentication

theorem openWith_sealFor (group shared : Secret) (nonce : Bytes)
    (whole : nonce.length = nonceLength) :
    shared.openWith (group.sealFor shared nonce) nonce = .ok group := by
  simp [openWith, sealFor, whole, SealedBox.unbox_box]

end Secret

end GroupKey
