import SecureGroup.Signing

/-!
# Boxes and sealed secrets

A box is a ciphertext with its nonce in front.  A sealed secret is a box that only one member can
open: its key comes from an agreement between a one-time key and the member's.  Main statement:
under the laws of the suite a sealed secret opens for its member (`SealedSecret.reveal_sealWith`).
-/

namespace SecureGroup

variable [Suite]

/-! ## Algorithm -/

namespace SecretBox

/-- The plaintext of a ciphertext whose nonce is known. -/
def openWith (key : Octets 32) (nonce : Octets 12) (ciphertext : Bytes) : Except Error Bytes :=
  match Suite.decrypt key nonce ciphertext with
  | some plaintext => .ok plaintext
  | none => .error .notDecrypted

/-- The box of a plaintext under a nonce. -/
def sealWith (key : Octets 32) (nonce : Octets 12) (plaintext : Bytes) : Bytes :=
  nonce.toList ++ Suite.encrypt key nonce plaintext

/-- The box of a plaintext under a fresh nonce. -/
def close (key : Octets 32) (plaintext : Bytes) : Draw Bytes := do
  return sealWith key (← Draw.octets 12) plaintext

def reveal (key : Octets 32) (box : Bytes) : Except Error Bytes :=
  if h : 12 ≤ box.length then
    openWith key ⟨box.take 12, List.length_take_of_le h⟩ (box.drop 12)
  else .error .boxTooShort

end SecretBox

/-- A secret sealed for one member: the one-time agreement key, and a box. -/
structure SealedSecret where
  ephemeral : Octets 32
  box : Bytes
deriving DecidableEq

namespace SealedSecret

/-- The label under which the keys of sealed secrets are derived. -/
def label : Bytes := Bytes.ofString "groupsync-sealed-secret-v1"

/-- The key of a box, from the shared secret and both public parts. -/
def boxKey (shared ephemeral : Octets 32) (recipient : PublicKey) : Octets 32 :=
  Suite.derive shared.toList (label ++ ephemeral.toList ++ recipient.bytes.toList)

/-- The secret sealed with a given one-time secret and nonce. -/
def sealWith (oneTime : Octets 32) (nonce : Octets 12) (secret : Bytes) (recipient : PublicKey) :
    SealedSecret :=
  let ephemeral := Suite.agreementOf oneTime
  let shared := Suite.agree oneTime (Suite.agreementPublic recipient.bytes)
  ⟨ephemeral, SecretBox.sealWith (boxKey shared ephemeral recipient) nonce secret⟩

def close (secret : Bytes) (recipient : PublicKey) : Draw SealedSecret := do
  let oneTime ← Draw.octets 32
  let nonce ← Draw.octets 12
  return sealWith oneTime nonce secret recipient

/-- The secret, read with the member's private key. -/
def reveal (s : SealedSecret) (recipient : PrivateKey) : Except Error Bytes :=
  let shared := Suite.agree (Suite.agreementSecret recipient.seed) s.ephemeral
  SecretBox.reveal (boxKey shared s.ephemeral recipient.pub) s.box

def codec : Codec SealedSecret :=
  (Codec.pair (Codec.octets 32) Codec.bytes).convert (fun s => (s.ephemeral, s.box))
    fun (e, b) => some ⟨e, b⟩

end SealedSecret

/-! ## Lemmas -/

theorem SecretBox.reveal_sealWith (h : Suite.EncryptionLaw) (key : Octets 32) (nonce : Octets 12)
    (plaintext : Bytes) : reveal key (sealWith key nonce plaintext) = .ok plaintext := by
  have e : (⟨nonce.toList, nonce.length_eq⟩ : Octets 12) = nonce := rfl
  simp [reveal, sealWith, openWith, e, h key nonce plaintext]

theorem SealedSecret.reveal_sealWith (ha : Suite.AgreementLaw) (he : Suite.EncryptionLaw)
    (oneTime : Octets 32) (nonce : Octets 12) (secret : Bytes) (recipient : PrivateKey) :
    (sealWith oneTime nonce secret recipient.pub).reveal recipient = .ok secret := by
  simp only [reveal, sealWith]
  rw [show Suite.agree oneTime (Suite.agreementPublic recipient.pub.bytes) =
    Suite.agree (Suite.agreementSecret recipient.seed) (Suite.agreementOf oneTime) from
    ha oneTime recipient.seed]
  exact SecretBox.reveal_sealWith he _ _ _

omit [Suite] in
theorem SealedSecret.faithful_codec :
    Codec.Faithful codec fun s => s.box.length < UInt64.size where
  decode_encode s hs rest :=
    (Codec.faithful_convert (Codec.faithful_pair (Codec.faithful_octets 32) Codec.faithful_bytes)
      _ _).decode_encode s ⟨⟨trivial, hs⟩, rfl⟩ rest
  decode_take s hs n hn :=
    (Codec.faithful_convert (Codec.faithful_pair (Codec.faithful_octets 32) Codec.faithful_bytes)
      _ _).decode_take s ⟨⟨trivial, hs⟩, rfl⟩ n hn

end SecureGroup
