import SecureGroup.Suite
import SecureGroup.Crypto.Aead
import SecureGroup.Crypto.Blake3
import SecureGroup.Crypto.Ed25519
import SecureGroup.Crypto.Hkdf

/-!
# The standard suite

Ed25519 signatures, X25519 agreement, ChaCha20-Poly1305, HKDF over SHA-256, and BLAKE3.  Main
statements: it obeys the law of encryption (`standard_encryptionLaw`), its signatures have 64 octets
(`standard_signatureLength`), what it decrypts ends with a tag (`standard_tagLength`), and a tag is
all that it adds to a plaintext (`standard_ciphertextLength`).
-/

namespace SecureGroup.Suite

/-- The suite that replicas use. -/
@[reducible]
def standard : Suite where
  publicKey := Ed25519.publicKey
  isPublicKey := Ed25519.isPoint
  sign := Ed25519.sign
  isSignature signature := signature.length == 64
  verify := Ed25519.verify
  agreementSecret := Ed25519.agreementSecret
  agreementPublic := Ed25519.agreementPublic
  agreementOf := Ed25519.agreementOf
  agree := Ed25519.agree
  derive := Hkdf.derive
  encrypt := Aead.encrypt
  decrypt := Aead.decrypt
  digest := Blake3.digest

/-- The standard suite decrypts what it encrypted. -/
theorem standard_encryptionLaw : @EncryptionLaw standard := Aead.decrypt_encrypt

theorem standard_signatureLength : @SignatureLength standard := fun _ h => of_decide_eq_true h

theorem standard_tagLength : @TagLength standard := by
  intro key nonce ciphertext plaintext h
  have h : Aead.decrypt key nonce ciphertext = some plaintext := h
  unfold Aead.decrypt at h
  split at h
  · cases h
  · next hlong => omega

theorem standard_ciphertextLength : @CiphertextLength standard := by
  intro key nonce plaintext
  show (Aead.encrypt key nonce plaintext).length ≤ plaintext.length + 64
  rw [Aead.encrypt, List.length_append, Aead.length_crypt, Octets.length_toList]
  omega

end SecureGroup.Suite
