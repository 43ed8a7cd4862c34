import SecureGroup.Proofs.Invitations
import SecureGroup.Proofs.Reached
import SecureGroup.Proofs.Separation
import SecureGroup.Suite.Plain

/-!
# A proof of joining fits one group, one member and one device

Redeeming an invitation makes two signatures, and each of them names one key in one group.  The
invitation key names the member, the member names the device, and a statement determines what it
names (`PrivateKey.accepts_signed_iff`).  So the proof verifies for whoever redeemed the invitation
with the device that was given, and for nobody else and nowhere else
(`Invitation.redeemed_check_iff`).
-/

namespace SecureGroup

variable [Suite]

/-! ## What a key has signed -/

namespace PrivateKey

variable {k : PrivateKey} {p : PublicKey}

/-- What a key signs is accepted under its public key for the octets that were signed. -/
theorem accepts_sign_iff (sig : Suite.SignatureLaw) (strict : Suite.SignatureExact)
    (valid : p.Valid) {message other : Bytes} :
    p.accepts other (k.sign message) = true ↔ p = k.pub ∧ other = message := by
  constructor
  · intro h
    obtain ⟨hkey, hother⟩ := strict k.seed message p.bytes other valid (Bool.and_eq_true_iff.1 h).2
    exact ⟨PublicKey.ext hkey, hother⟩
  · rintro ⟨rfl, rfl⟩
    exact k.accepts_sign sig _

/-- What a key signs to name another in a group is accepted under its public key for that purpose,
that group and that name only. -/
theorem accepts_signed_iff (sig : Suite.SignatureLaw) (strict : Suite.SignatureExact)
    {purpose : Purpose} {group group' : GroupId} {name name' : PublicKey} :
    k.pub.accepts (purpose.statement group' name') (k.sign (purpose.statement group name)) = true ↔
      group' = group ∧ name' = name := by
  rw [accepts_sign_iff sig strict (k.valid_pub sig)]
  constructor
  · rintro ⟨-, hstatement⟩
    exact (Purpose.statement_injective hstatement).2
  · rintro ⟨rfl, rfl⟩
    exact ⟨rfl, rfl⟩

end PrivateKey

/-! ## Redeemed invitations -/

namespace Invitation

variable {i : Invitation} {member : PrivateKey} {device : PublicKey} {proof : JoinProof}

theorem redeem_eq_ok_iff : i.redeem member device = .ok proof ↔ i.validate = .ok () ∧
    proof = {
      inviter := i.inviter
      invitationKey := i.key.pub
      inviterSignature := i.signature
      invitationSignature := i.key.sign (Purpose.redemption.statement i.group.id member.pub)
      memberSignature := member.sign (Purpose.device.statement i.group.id device) } := by
  rw [redeem, bind_eq_ok_iff]
  constructor
  · rintro ⟨_, hvalid, h⟩
    exact ⟨hvalid, (Except.ok.inj h).symm⟩
  · rintro ⟨hvalid, rfl⟩
    exact ⟨(), hvalid, rfl⟩

/-- The signature of the invitation key fixes the group and the member, and that of the member fixes
the device. -/
theorem verifies_redeemed_iff (sig : Suite.SignatureLaw) (strict : Suite.SignatureExact)
    (h : i.redeem member device = .ok proof) {group : GroupId} {m d : PublicKey} :
    proof.Verifies group m d ↔ group = i.group.id ∧ m = member.pub ∧ d = device := by
  obtain ⟨hvalid, rfl⟩ := redeem_eq_ok_iff.1 h
  constructor
  · rintro ⟨-, hinvitation, hmember⟩
    obtain ⟨rfl, rfl⟩ := (PrivateKey.accepts_signed_iff sig strict).1 hinvitation
    exact ⟨rfl, rfl, ((PrivateKey.accepts_signed_iff sig strict).1 hmember).2⟩
  · rintro ⟨rfl, rfl, rfl⟩
    exact ⟨(validate_eq_ok_iff.1 hvalid).2, i.key.accepts_sign sig _, member.accepts_sign sig _⟩

/-- Invitations that are issued are valid and lead to their group.  Every valid one, whoever made
it, can be redeemed by any member with any device, and the proof verifies for that group, that
member and that device and for no others. -/
theorem redeemed_check_iff (sig : Suite.SignatureLaw) (strict : Suite.SignatureExact) :
    (∀ (inviter : PrivateKey) (group : Group) (n : Entropy),
      let i := (issue inviter group n).1
      i.validate = .ok () ∧ i.group.id = group.id ∧ i.inviter = inviter.pub) ∧
    ∀ i : Invitation, i.validate = .ok () → ∀ (member : PrivateKey) (device : PublicKey),
      ∃ proof, i.redeem member device = .ok proof ∧
        ∀ (group : GroupId) (m d : PublicKey),
          proof.check group m d = .ok () ↔ group = i.group.id ∧ m = member.pub ∧ d = device := by
  constructor
  · intro inviter group n i
    exact ⟨validate_issueWith sig, rfl, rfl⟩
  · intro i hvalid member device
    obtain ⟨proof, hredeem⟩ : ∃ proof, i.redeem member device = .ok proof :=
      ⟨_, redeem_eq_ok_iff.2 ⟨hvalid, rfl⟩⟩
    refine ⟨proof, hredeem, fun group m d => ?_⟩
    rw [JoinProof.check_eq_ok_iff]
    exact verifies_redeemed_iff sig strict hredeem

end Invitation

end SecureGroup

namespace SecureGroup.Invitation

attribute [local instance] Suite.plain

/-- A member joins with a device; the proof verifies, and for another device it does not. -/
theorem redeemed_check_newcomer :
    let i := issueWith (.fit 32 [9]) (Plain.key 1) Plain.group
    ∃ proof, i.redeem (Plain.key 3) (Plain.key 4).pub = .ok proof ∧
      proof.check Plain.group.id (Plain.key 3).pub (Plain.key 4).pub = .ok () ∧
      proof.check Plain.group.id (Plain.key 3).pub (Plain.key 5).pub ≠ .ok () := by
  intro i
  have hvalid : i.validate = .ok () := by decide +kernel
  have hdevice : (Plain.key 5).pub ≠ (Plain.key 4).pub := by decide +kernel
  obtain ⟨-, hredeem⟩ := redeemed_check_iff Suite.plain_signatureLaw Suite.plain_signatureExact
  obtain ⟨proof, hproof, hcheck⟩ := hredeem i hvalid (Plain.key 3) (Plain.key 4).pub
  exact ⟨proof, hproof, (hcheck _ _ _).2 ⟨rfl, rfl, rfl⟩, fun h => hdevice ((hcheck _ _ _).1 h).2.2⟩

end SecureGroup.Invitation
