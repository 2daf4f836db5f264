import GroupKey.Crypto.ChaCha
import GroupKey.Crypto.Poly1305

/-!
# Authenticated encryption with a twenty-four byte nonce

The first sixteen bytes of the nonce derive a fresh key, the last eight select the key stream.
Block zero of that stream keys the authenticator, the text is enciphered from block one on, and
the tag of the padded ciphertext is appended.  `unbox_box`: a box opens to the text it was made
from, for every key and nonce.
-/

namespace GroupKey.SealedBox

def tagLength : Nat := 16

def subkey (key nonce : Bytes) : Bytes := ChaCha.hchacha key (nonce.take 16)

def streamNonce (nonce : Bytes) : Bytes := [0, 0, 0, 0] ++ nonce.drop 16

def authenticatorKey (key nonce : Bytes) : Bytes :=
  (ChaCha.cipherBlock (subkey key nonce) (streamNonce nonce) 0).take 32

/-- The ciphertext padded to whole blocks, then the lengths of the empty header and of the
ciphertext. -/
def authenticatedText (ciphertext : Bytes) : Bytes :=
  ciphertext ++ List.replicate ((16 - ciphertext.length % 16) % 16) 0 ++
    Bytes.ofNatLE 8 0 ++ Bytes.ofNatLE 8 ciphertext.length

def tag (key nonce ciphertext : Bytes) : Bytes :=
  Poly1305.tag (authenticatorKey key nonce) (authenticatedText ciphertext)

def encipher (key nonce text : Bytes) : Bytes :=
  ChaCha.encipher (subkey key nonce) (streamNonce nonce) 1 text

def box (key nonce text : Bytes) : Bytes :=
  let ciphertext := encipher key nonce text
  ciphertext ++ tag key nonce ciphertext

/-- The text, unless the box is shorter than a tag or its tag is wrong. -/
def unbox (key nonce sealedText : Bytes) : Option Bytes :=
  let ciphertext := sealedText.take (sealedText.length - tagLength)
  let given := sealedText.drop (sealedText.length - tagLength)
  if tagLength ≤ sealedText.length ∧ given = tag key nonce ciphertext then
    some (encipher key nonce ciphertext)
  else none

@[simp] theorem length_tag (key nonce ciphertext : Bytes) :
    (tag key nonce ciphertext).length = tagLength := by
  simp [tag, Poly1305.tag, tagLength]

@[simp] theorem length_box (key nonce text : Bytes) :
    (box key nonce text).length = text.length + tagLength := by
  simp [box, encipher]

theorem unbox_box (key nonce text : Bytes) : unbox key nonce (box key nonce text) = some text := by
  have cut : (box key nonce text).length - tagLength = (encipher key nonce text).length := by
    simp [encipher]
  have enough : tagLength ≤ (box key nonce text).length := by simp
  have body : (box key nonce text).take (encipher key nonce text).length =
      encipher key nonce text := List.take_left
  have rest : (box key nonce text).drop (encipher key nonce text).length =
      tag key nonce (encipher key nonce text) := List.drop_left
  have back : encipher key nonce (encipher key nonce text) = text :=
    ChaCha.encipher_encipher _ _ _ _
  simp only [unbox, cut, body, rest, enough, back, and_self, if_true]

end GroupKey.SealedBox
