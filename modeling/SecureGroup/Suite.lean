import SecureGroup.Bytes

/-!
# The cryptographic suite

Everything else in the library reaches cryptography through `Suite`: signatures, key agreement,
authenticated encryption, key derivation and the content hash.  The laws that results rest on are
`Suite.SignatureLaw`, `Suite.SignatureExact`, `Suite.SignatureLength`, `Suite.AgreementLaw`,
`Suite.EncryptionLaw`, `Suite.TagLength` and `Suite.CiphertextLength`; a suite may be as small as a
concatenation of its arguments and still obey all of them but `Suite.SignatureLength`.
-/

namespace SecureGroup

/-- The primitives of one suite.  Secret keys are their seeds. -/
class Suite where
  /-- The public key of a seed. -/
  publicKey : Octets 32 → Octets 32
  /-- Whether some octets are a public key. -/
  isPublicKey : Octets 32 → Bool
  /-- The signature of a message under a seed. -/
  sign : Octets 32 → Bytes → Bytes
  /-- Whether a byte string has the form of a signature. -/
  isSignature : Bytes → Bool
  /-- Whether a signature fits a public key and a message. -/
  verify : Octets 32 → Bytes → Bytes → Bool
  /-- The agreement secret of a seed. -/
  agreementSecret : Octets 32 → Octets 32
  /-- The agreement key of a public key. -/
  agreementPublic : Octets 32 → Octets 32
  /-- The agreement key of an agreement secret. -/
  agreementOf : Octets 32 → Octets 32
  /-- The secret that an agreement secret shares with the holder of an agreement key. -/
  agree : Octets 32 → Octets 32 → Octets 32
  /-- A key derived from key material under a label. -/
  derive : Bytes → Bytes → Octets 32
  /-- A plaintext encrypted under a key and a nonce. -/
  encrypt : Octets 32 → Octets 12 → Bytes → Bytes
  /-- The plaintext of a ciphertext, if it was made under this key and nonce. -/
  decrypt : Octets 32 → Octets 12 → Bytes → Option Bytes
  /-- The content hash. -/
  digest : Bytes → Octets 32

namespace Suite

/-- A seed's public key is one, and accepts what the seed signs. -/
structure SignatureLaw [Suite] : Prop where
  isPublicKey_publicKey : ∀ seed, isPublicKey (publicKey seed) = true
  isSignature_sign : ∀ seed m, isSignature (sign seed m) = true
  verify_sign : ∀ seed m, verify (publicKey seed) m (sign seed m) = true

/-- What a seed signs fits no other public key and no other message.  Signatures of one length
cannot all be told apart, so no suite obeys both this law and `SignatureLength`. -/
def SignatureExact [Suite] : Prop :=
  ∀ seed m key m', isPublicKey key = true → verify key m' (sign seed m) = true →
    key = publicKey seed ∧ m' = m

/-- A signature has 64 octets. -/
def SignatureLength [Suite] : Prop :=
  ∀ signature, isSignature signature = true → signature.length = 64

/-- Both holders of an agreement find the same secret. -/
def AgreementLaw [Suite] : Prop :=
  ∀ secret seed, agree secret (agreementPublic (publicKey seed)) =
    agree (agreementSecret seed) (agreementOf secret)

/-- Decrypting undoes encrypting. -/
def EncryptionLaw [Suite] : Prop :=
  ∀ key nonce plaintext, decrypt key nonce (encrypt key nonce plaintext) = some plaintext

/-- What decrypts has at least the 16 octets of a tag. -/
def TagLength [Suite] : Prop :=
  ∀ key nonce ciphertext plaintext, decrypt key nonce ciphertext = some plaintext →
    16 ≤ ciphertext.length

/-- What encryption adds to a plaintext has at most 64 octets. -/
def CiphertextLength [Suite] : Prop :=
  ∀ key nonce plaintext, (encrypt key nonce plaintext).length ≤ plaintext.length + 64

end Suite

end SecureGroup
