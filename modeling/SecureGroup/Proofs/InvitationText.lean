import SecureGroup.Proofs.Redemption

/-!
# What a text of an invitation can do

A text writes an invitation if it is the prologue and octets in base 58 that are read as the
invitation (`Invitation.Writes`).  The reader of texts is a gate: what it gives back is written in
the text and valid, and all else is refused as an invalid invitation; so an invitation comes back
from its own text exactly if it is valid (`Invitation.ofText_gate`).

The gate stops an invitation that was changed on its way.  The inviter signs the group and the
invitation key, and the signature fits one inviter, so a valid invitation with this signature agrees
with the one that was issued in all that (`Invitation.Agrees`), and one that does not agree is
neither read from a text nor redeemed (`Invitation.validate_iff_agrees_issued`).  The shared key of
the group is not signed, and can be changed (`Invitation.shared_key_unsigned`).
-/

namespace SecureGroup.Invitation

variable [Suite] {i : Invitation} {s rest : String} {cause : Error}

/-! ## Texts -/

/-- The text is the prologue and the octets of the invitation in base 58, with anything behind
them. -/
def Writes (s : String) (i : Invitation) : Prop :=
  ∃ rest bs, s = Error.invitationPrologue ++ rest ∧ Base58.decode rest = .ok bs ∧
    codec.read bs = .ok i

omit [Suite] in
theorem dropPrologue?_eq_some_iff :
    dropPrologue? s = some rest ↔ s = Error.invitationPrologue ++ rest := by
  constructor
  · intro h
    unfold dropPrologue? at h
    dsimp only at h
    split at h
    · next hstart =>
      obtain ⟨behind, hbehind⟩ := List.isPrefixOf_iff_prefix.1 hstart
      cases h
      rw [← hbehind, List.drop_left]
      refine String.toList_inj.1 ?_
      rw [String.toList_append, String.toList_ofList, hbehind]
    · cases h
  · rintro rfl
    exact dropPrologue?_append rest

theorem writes_toText (h : i.Sound) : Writes i.toText i :=
  ⟨_, _, rfl, Base58.decode_encode _, faithful_codec.read_encode h⟩

theorem ofText_of_writes (h : Writes s i) : ofText s = i.validate.map fun _ => i := by
  obtain ⟨rest, bs, hs, hbs, hi⟩ := h
  rw [ofText, dropPrologue?_eq_some_iff.2 hs]
  dsimp only
  rw [hbs]
  dsimp only
  rw [hi]

theorem ofText_of_error (h : Writes s i) (refused : i.validate = .error cause) :
    ofText s = .error cause := by
  rw [ofText_of_writes h, refused]
  rfl

theorem writes_or_refused (s : String) :
    (∃ i, Writes s i) ∨ ∃ cause, ofText s = .error cause ∧ cause.kind = .invalidInvitation := by
  unfold ofText
  split
  · exact Or.inr ⟨_, rfl, rfl⟩
  · next rest hrest =>
    split
    · exact Or.inr ⟨_, rfl, rfl⟩
    · next bs hbs =>
      split
      · exact Or.inr ⟨_, rfl, rfl⟩
      · next i hi => exact Or.inl ⟨i, rest, bs, dropPrologue?_eq_some_iff.1 hrest, hbs, hi⟩

/-! ## The gate -/

theorem kind_of_validate (h : i.validate = .error cause) : cause.kind = .invalidInvitation := by
  unfold validate at h
  split at h
  · cases h
    rfl
  · split at h
    · cases h
      rfl
    · cases h

theorem kind_of_ofText (h : ofText s = .error cause) : cause.kind = .invalidInvitation := by
  rcases writes_or_refused s with ⟨i, hi⟩ | ⟨other, hother, hkind⟩
  · cases hvalid : i.validate with
    | ok _ =>
      rw [ofText_of_writes hi, hvalid] at h
      cases h
    | error other =>
      rw [ofText_of_error hi hvalid] at h
      cases h
      exact kind_of_validate hvalid
  · rw [h] at hother
    cases hother
    exact hkind

theorem ofText_eq_ok_iff : ofText s = .ok i ↔ Writes s i ∧ i.validate = .ok () := by
  constructor
  · intro h
    rcases writes_or_refused s with ⟨j, hj⟩ | ⟨cause, hcause, -⟩
    · cases hvalid : j.validate with
      | ok _ =>
        rw [ofText_of_writes hj, hvalid] at h
        cases h
        exact ⟨hj, hvalid⟩
      | error cause =>
        rw [ofText_of_error hj hvalid] at h
        cases h
    · rw [h] at hcause
      cases hcause
  · rintro ⟨hwrites, hvalid⟩
    rw [ofText_of_writes hwrites, hvalid]
    rfl

/-- An invitation is read back from its text if it is valid, and otherwise refused for what makes it
invalid.  Every text gives an invitation that it writes and that is valid, or is refused. -/
theorem ofText_gate :
    (∀ i : Invitation, i.Sound →
      (i.validate = .ok () → ofText i.toText = .ok i) ∧
      (i.validate ≠ .ok () → ∃ cause, i.validate = .error cause ∧
        ofText i.toText = .error cause ∧ cause.kind = .invalidInvitation)) ∧
    ∀ s : String,
      (∃ i, ofText s = .ok i ∧ Writes s i ∧ i.validate = .ok ()) ∨
        ∃ cause, ofText s = .error cause ∧ cause.kind = .invalidInvitation := by
  constructor
  · intro i hi
    refine ⟨ofText_toText hi, fun hinvalid => ?_⟩
    cases hvalid : i.validate with
    | ok _ => exact absurd hvalid hinvalid
    | error cause =>
      exact ⟨cause, rfl, ofText_of_error (writes_toText hi) hvalid, kind_of_validate hvalid⟩
  · intro s
    cases hread : ofText s with
    | ok i => exact Or.inl ⟨i, rfl, ofText_eq_ok_iff.1 hread⟩
    | error cause => exact Or.inr ⟨cause, rfl, kind_of_ofText hread⟩

end SecureGroup.Invitation

namespace SecureGroup.Invitation

attribute [local instance] Suite.plain

/-- Of two invitations the one that says another version is refused by its reader. -/
theorem ofText_gate_later_version :
    let i := (issue (Plain.key 1) Plain.group (.ofSeed 0)).1
    let later := { i with version := 2 }
    ofText i.toText = .ok i ∧
      ∃ cause, ofText later.toText = .error cause ∧ cause.kind = .invalidInvitation := by
  intro i later
  have hsound : i.Sound ∧ later.Sound := by
    have hlength : i.signature.length < UInt64.size := by decide +kernel
    exact ⟨⟨rfl, rfl, hlength⟩, ⟨rfl, rfl, hlength⟩⟩
  have hvalid : i.validate = .ok () := by decide +kernel
  have hinvalid : later.validate ≠ .ok () := by decide +kernel
  obtain ⟨cause, -, hrefused⟩ := (ofText_gate.1 later hsound.2).2 hinvalid
  exact ⟨(ofText_gate.1 i hsound.1).1 hvalid, cause, hrefused⟩

end SecureGroup.Invitation

/-! ## Invitations that were changed -/

namespace SecureGroup.Invitation

variable [Suite] {i : Invitation}

/-- Two invitations agree in all that makes an invitation valid: the version, the inviter, the
public key of the group and the public half of the invitation key. -/
structure Agrees (i original : Invitation) : Prop where
  version : i.version = original.version
  inviter : i.inviter = original.inviter
  groupKey : i.groupKey = original.groupKey
  key : i.key.pub = original.key.pub

/-- The signature of an issued invitation fits those that agree with it, and no others. -/
theorem validate_iff_agrees (sig : Suite.SignatureLaw) (strict : Suite.SignatureExact)
    {seed : Octets 32} {inviter : PrivateKey} {group : Group} (valid : i.inviter.Valid)
    (signature : i.signature = (issueWith seed inviter group).signature) :
    i.validate = .ok () ↔ i.Agrees (issueWith seed inviter group) := by
  have hsigned : i.signature = inviter.sign
      (Purpose.invitation.statement group.id (PrivateKey.mk seed).pub) := signature
  rw [validate_eq_ok_iff, hsigned, PrivateKey.accepts_sign_iff sig strict valid]
  constructor
  · rintro ⟨hversion, hinviter, hstatement⟩
    obtain ⟨-, hgroup, hkey⟩ := Purpose.statement_injective hstatement
    exact ⟨hversion, hinviter, PublicKey.ext (congrArg GroupId.bytes hgroup), hkey⟩
  · rintro ⟨hversion, hinviter, hgroup, hkey⟩
    have hid : i.group.id = group.id := congrArg GroupId.ofKey hgroup
    exact ⟨hversion, hinviter, congrArg₂ Purpose.invitation.statement hid hkey⟩

theorem redeem_of_error {cause : Error} (refused : i.validate = .error cause) (member : PrivateKey)
    (device : PublicKey) : i.redeem member device = .error cause := by
  rw [redeem, refused]
  rfl

/-- Take an invitation with the signature of one that was issued.  It is valid exactly if it agrees
with that one; if it does not, every text that writes it is refused, and nobody can redeem it. -/
theorem validate_iff_agrees_issued (sig : Suite.SignatureLaw) (strict : Suite.SignatureExact)
    (inviter : PrivateKey) (group : Group) (n : Entropy) :
    let original := (issue inviter group n).1
    ∀ i : Invitation, i.inviter.Valid → i.signature = original.signature →
      (i.validate = .ok () ↔ i.Agrees original) ∧
      (¬ i.Agrees original →
        (∀ s, Writes s i → ∃ cause, ofText s = .error cause ∧ cause.kind = .invalidInvitation) ∧
        ∀ member device, ∃ cause,
          i.redeem member device = .error cause ∧ cause.kind = .invalidInvitation) := by
  intro original i valid signature
  have hiff : i.validate = .ok () ↔ i.Agrees original :=
    validate_iff_agrees sig strict valid signature
  refine ⟨hiff, fun hchanged => ?_⟩
  cases hvalid : i.validate with
  | ok _ => exact absurd (hiff.1 hvalid) hchanged
  | error cause =>
    have hkind := kind_of_validate hvalid
    exact ⟨fun s hs => ⟨cause, ofText_of_error hs hvalid, hkind⟩,
      fun member device => ⟨cause, redeem_of_error hvalid member device, hkind⟩⟩

end SecureGroup.Invitation

namespace SecureGroup.Invitation

attribute [local instance] Suite.plain

/-- Whoever puts another inviter into an invitation makes it useless. -/
theorem validate_iff_agrees_issued_renamed :
    let original := (issue (Plain.key 1) Plain.group (.ofSeed 0)).1
    let renamed := { original with inviter := (Plain.key 5).pub }
    original.validate = .ok () ∧
      (∃ cause, ofText renamed.toText = .error cause ∧ cause.kind = .invalidInvitation) ∧
      ∃ cause, renamed.redeem (Plain.key 3) (Plain.key 4).pub = .error cause ∧
        cause.kind = .invalidInvitation := by
  intro original renamed
  have hagrees := validate_iff_agrees_issued Suite.plain_signatureLaw Suite.plain_signatureExact
    (Plain.key 1) Plain.group (.ofSeed 0)
  have hother : (Plain.key 5).pub ≠ (Plain.key 1).pub := by decide +kernel
  have hchanged : ¬ renamed.Agrees original := fun h => hother h.inviter
  have hlength : renamed.signature.length < UInt64.size := by decide +kernel
  have hwrites : Writes renamed.toText renamed := writes_toText ⟨rfl, rfl, hlength⟩
  obtain ⟨htext, hredeem⟩ := (hagrees renamed rfl rfl).2 hchanged
  exact ⟨(hagrees original rfl rfl).1.2 ⟨rfl, rfl, rfl, rfl⟩, htext _ hwrites, hredeem _ _⟩

/-- The shared key of the group is not signed.  An invitation that was issued can be given another
one: it is still valid, is read from its text and redeemed, and leads to a group with the wrong
key. -/
theorem shared_key_unsigned :
    Suite.SignatureLaw ∧ Suite.SignatureExact ∧
      let original := (issue (Plain.key 1) Plain.group (.ofSeed 0)).1
      let changed := { original with shared := .fit 32 [99] }
      changed.signature = original.signature ∧ changed.validate = .ok () ∧
        ofText changed.toText = .ok changed ∧
        (∃ proof, changed.redeem (Plain.key 3) (Plain.key 4).pub = .ok proof) ∧
        changed.shared ≠ original.shared ∧ changed.group ≠ original.group := by
  refine ⟨Suite.plain_signatureLaw, Suite.plain_signatureExact, ?_⟩
  intro original changed
  have hvalid : changed.validate = .ok () := by decide +kernel
  have hlength : changed.signature.length < UInt64.size := by decide +kernel
  have hsound : changed.Sound := ⟨rfl, rfl, hlength⟩
  have hshared : changed.shared ≠ original.shared := by decide +kernel
  refine ⟨rfl, hvalid, ofText_toText hsound hvalid, ⟨_, redeem_eq_ok_iff.2 ⟨hvalid, rfl⟩⟩, hshared,
    fun h => hshared ?_⟩
  exact congrArg Group.shared h

end SecureGroup.Invitation
