import SecureGroup.Crypto.ChaCha20
import SecureGroup.Crypto.Poly1305

/-!
# ChaCha20-Poly1305

Authenticated encryption of RFC 8439 without associated data.  Main statement: what was encrypted
decrypts to the text under the same key and nonce (`decrypt_encrypt`).
-/

namespace SecureGroup.Aead

/-! ## Algorithm -/

/-- The tag of a ciphertext, under the one-time key of the nonce. -/
def tag (key : Octets 32) (nonce : Octets 12) (ciphertext : Bytes) : Octets 16 :=
  let oneTime := (ChaCha20.block key nonce 0).take 32
  let fill := List.replicate ((16 - ciphertext.length % 16) % 16) 0
  Poly1305.tag oneTime
    (ciphertext ++ fill ++ Bytes.ofNatLE 8 0 ++ Bytes.ofNatLE 8 ciphertext.length)

/-- The text under the key stream that starts with block 1. -/
def crypt (key : Octets 32) (nonce : Octets 12) (text : Bytes) : Bytes :=
  ChaCha20.mask (ChaCha20.stream key nonce 1 text.length) text

/-- The ciphertext followed by its tag. -/
def encrypt (key : Octets 32) (nonce : Octets 12) (plaintext : Bytes) : Bytes :=
  let ciphertext := crypt key nonce plaintext
  ciphertext ++ (tag key nonce ciphertext).toList

/-- The plaintext, if the last 16 octets are the tag of what stands before them. -/
def decrypt (key : Octets 32) (nonce : Octets 12) (sealed : Bytes) : Option Bytes :=
  if sealed.length < 16 then none
  else
    let ciphertext := sealed.take (sealed.length - 16)
    let given := sealed.drop (sealed.length - 16)
    if (tag key nonce ciphertext).toList = given then some (crypt key nonce ciphertext) else none

/-! ## Lemmas -/

@[simp]
theorem length_crypt (key : Octets 32) (nonce : Octets 12) (text : Bytes) :
    (crypt key nonce text).length = text.length :=
  ChaCha20.length_mask (ChaCha20.length_stream key nonce 1 text.length)

theorem crypt_crypt (key : Octets 32) (nonce : Octets 12) (text : Bytes) :
    crypt key nonce (crypt key nonce text) = text := by
  show ChaCha20.mask (ChaCha20.stream key nonce 1 (crypt key nonce text).length) _ = text
  rw [length_crypt]
  exact ChaCha20.mask_mask (ChaCha20.length_stream key nonce 1 text.length)

theorem decrypt_encrypt (key : Octets 32) (nonce : Octets 12) (plaintext : Bytes) :
    decrypt key nonce (encrypt key nonce plaintext) = some plaintext := by
  simp [decrypt, encrypt, crypt_crypt]

end SecureGroup.Aead
