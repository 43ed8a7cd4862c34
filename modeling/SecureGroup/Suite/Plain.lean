import SecureGroup.Suite

/-!
# The plain suite

A suite that hides nothing: a signature is the seed and the message, a ciphertext is the key, the
nonce and the plaintext.  Runs of small groups can be computed with it.  Main statement: it obeys
the laws of signatures, agreement and encryption.  With the digest of the message in place of the
message, its signatures have the usual length as well (`brief_signatureLaw`,
`brief_signatureLength`).
-/

namespace SecureGroup.Suite

/-! ## Algorithm -/

/-- The sum of two keys, octet by octet. -/
def plainAgree (a b : Octets 32) : Octets 32 := .fit 32 (List.zipWith (· + ·) a.toList b.toList)

/-- The octets as a number in base 257, cut to 32 octets. -/
def plainDigest (bs : Bytes) : Octets 32 :=
  .ofNatLE 32 (bs.foldl (fun n b => 257 * n + b.toNat + 1) 0)

/-- What comes after a beginning of some octets. -/
def dropStart? : Bytes → Bytes → Option Bytes
  | [], bs => some bs
  | a :: as, b :: bs => if a = b then dropStart? as bs else none
  | _ :: _, [] => none

/-- The suite that hides nothing. -/
@[reducible]
def plain : Suite where
  publicKey seed := seed
  isPublicKey _ := true
  sign seed message := seed.toList ++ message
  isSignature _ := true
  verify key message signature := signature == key.toList ++ message
  agreementSecret seed := seed
  agreementPublic key := key
  agreementOf secret := secret
  agree := plainAgree
  derive material label := .fit 32 (material ++ label)
  encrypt key nonce plaintext := key.toList ++ nonce.toList ++ plaintext
  decrypt key nonce := dropStart? (key.toList ++ nonce.toList)
  digest := plainDigest

/-- The plain suite with shorter signatures: the seed and the digest of the message. -/
@[reducible]
def brief : Suite :=
  { plain with
    sign := fun seed message => seed.toList ++ (plainDigest message).toList
    isSignature := fun signature => signature.length == 64
    verify := fun key message signature => signature == key.toList ++ (plainDigest message).toList }

/-! ## Lemmas -/

theorem dropStart?_append (as bs : Bytes) : dropStart? as (as ++ bs) = some bs := by
  induction as with
  | nil => rfl
  | cons a as ih => rw [List.cons_append, dropStart?, if_pos rfl, ih]

theorem eq_append_of_dropStart? {as bs cs : Bytes} (h : dropStart? as bs = some cs) :
    bs = as ++ cs := by
  fun_induction dropStart? as bs with
  | case1 bs => exact Option.some.inj h
  | case2 as b bs ih => rw [ih h, List.cons_append]
  | case3 a as b bs hne => cases h
  | case4 a as => cases h

theorem plainAgree_comm (a b : Octets 32) : plainAgree a b = plainAgree b a := by
  rw [plainAgree, plainAgree, List.zipWith_comm]
  simp only [UInt8.add_comm]

theorem plain_signatureLaw : @SignatureLaw plain :=
  letI := plain
  { isPublicKey_publicKey := fun _ => rfl
    isSignature_sign := fun _ _ => rfl
    verify_sign := fun _ _ => beq_self_eq_true _ }

theorem plain_signatureExact : @SignatureExact plain := by
  intro seed m key m' _ h
  obtain ⟨hkey, hmessage⟩ := List.append_inj (eq_of_beq h) (by simp)
  exact ⟨Octets.ext hkey.symm, hmessage.symm⟩

theorem plain_agreementLaw : @AgreementLaw plain := fun secret seed => plainAgree_comm secret seed

theorem plain_encryptionLaw : @EncryptionLaw plain :=
  fun key nonce plaintext => dropStart?_append (key.toList ++ nonce.toList) plaintext

theorem plain_tagLength : @TagLength plain := by
  intro key nonce ciphertext plaintext h
  have hparts := congrArg List.length (eq_append_of_dropStart? h)
  simp only [List.length_append, Octets.length_toList] at hparts
  omega

theorem brief_signatureLaw : @SignatureLaw brief :=
  letI := brief
  { isPublicKey_publicKey := fun _ => rfl
    isSignature_sign := fun seed m => by
      show ((seed.toList ++ (plainDigest m).toList).length == 64) = true
      rw [List.length_append, Octets.length_toList, Octets.length_toList]
      rfl
    verify_sign := fun _ _ => beq_self_eq_true _ }

theorem brief_signatureLength : @SignatureLength brief := fun _ h => of_decide_eq_true h

theorem brief_encryptionLaw : @EncryptionLaw brief := plain_encryptionLaw

theorem brief_ciphertextLength : @CiphertextLength brief := by
  intro key nonce plaintext
  show (key.toList ++ nonce.toList ++ plaintext).length ≤ plaintext.length + 64
  simp only [List.length_append, Octets.length_toList]
  omega

end SecureGroup.Suite
