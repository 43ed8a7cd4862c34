import SecureGroup.Authorization
import SecureGroup.Envelope
import SecureGroup.Proofs.Commitment

/-!
# What is signed for one purpose is signed for no other

Keys sign statements that name a key, envelopes, and entries of custody chains.  `Signable` is any
of these, and its octets are those that the signature covers.  Their first octets tell the kinds
apart, except for an envelope and the start of a chain: an envelope of this version is the longer
one (`Signable.length_lt_of_start`).  Main statement: the octets determine the kind and every field
but the signature (`Signable.separated`).
-/

namespace SecureGroup

/-! ## What is signed -/

/-- An entry as it stands in a chain that passes the check. -/
structure Custody.Entry.Regular (e : Custody.Entry) : Prop where
  signer : e.signer.length = 32
  start : e.action = .start → e.parent = none ∧ e.subject = e.signer
  created : e.created.Fits
  expires : e.expires.Fits

/-- An envelope of the version that is understood, with room for a tag. -/
structure Envelope.Regular (e : Envelope) : Prop where
  version : e.version = currentVersion
  tagged : 16 ≤ e.ciphertext.length

/-- What a key may sign. -/
inductive Signable where
  /-- A statement that names a key in a group. -/
  | naming (purpose : Purpose) (group : GroupId) (key : PublicKey)
  /-- An envelope in a log of a group. -/
  | envelope (group : GroupId) (e : Envelope)
  /-- An entry of a custody chain. -/
  | custody (e : Custody.Entry)

namespace Signable

/-- The octets that the signature covers. -/
def octets : Signable → Bytes
  | naming purpose group key => purpose.statement group key
  | envelope group e => e.signedData group
  | custody e => e.signedData

/-- The same without the signature that it carries. -/
def unsigned : Signable → Signable
  | naming purpose group key => naming purpose group key
  | envelope group e => envelope group { e with signature := [] }
  | custody e => custody { e with signature := [] }

/-- Whether it has the form of what is accepted. -/
def Proper : Signable → Prop
  | naming _ _ _ => True
  | envelope _ e => e.Regular
  | custody e => e.Regular

end Signable

/-! ## Two of one kind -/

/-- The labels of two purposes have different lengths. -/
theorem Purpose.eq_of_length_label {p p' : Purpose} (h : p.label.length = p'.label.length) :
    p = p' := by
  revert h
  cases p <;> cases p' <;> decide +kernel

theorem Purpose.statement_injective {p p' : Purpose} {group group' : GroupId}
    {key key' : PublicKey} (h : p.statement group key = p'.statement group' key') :
    p = p' ∧ group = group' ∧ key = key' := by
  unfold Purpose.statement at h
  obtain ⟨hstart, hkey⟩ := List.append_inj' h (by simp)
  obtain ⟨hlabel, hgroup⟩ := List.append_inj' hstart (by simp)
  refine ⟨Purpose.eq_of_length_label (congrArg List.length hlabel), ?_, ?_⟩
  · exact congrArg GroupId.mk (Octets.ext hgroup)
  · exact PublicKey.ext (Octets.ext hkey)

/-- The octets of an envelope determine the group and all but the signature: the fields before the
ciphertext have one length each, so the length that is written for it is not needed. -/
theorem Envelope.eq_of_signedData_eq {e e' : Envelope} {group group' : GroupId}
    (h : e.signedData group = e'.signedData group') :
    group = group' ∧ { e with signature := [] } = { e' with signature := [] } := by
  unfold Envelope.signedData at h
  simp only [List.cons_append, List.append_assoc] at h
  obtain ⟨hversion, h⟩ := List.cons.inj h
  obtain ⟨hgroup, h⟩ := List.append_inj h (by simp)
  obtain ⟨hsender, h⟩ := List.append_inj h (by simp)
  obtain ⟨hclock, h⟩ := List.append_inj h rfl
  obtain ⟨hnonce, h⟩ := List.append_inj h (by simp)
  obtain ⟨-, hciphertext⟩ := List.append_inj h (by simp)
  refine ⟨congrArg GroupId.mk (Octets.ext hgroup), ?_⟩
  ext1
  · exact hversion
  · exact PublicKey.ext (Octets.ext hsender)
  · exact Bytes.ofUInt64LE_injective hclock
  · exact Octets.ext hnonce
  · exact hciphertext
  · rfl

theorem Custody.Entry.eq_of_signedData_eq {e e' : Entry} (he : e.Regular) (he' : e'.Regular)
    (h : e.signedData = e'.signedData) :
    { e with signature := [] } = { e' with signature := [] } := by
  -- with one signature under both, they are hashed from the same octets
  let signature : Bytes := List.replicate 64 0
  have hsized : ∀ x : Entry, x.Regular → ({ x with signature := signature } : Entry).Sized :=
    fun x hx => ⟨hx.signer, List.length_replicate, hx.created, hx.expires⟩
  have hhashed : ({ e with signature := signature } : Entry).hashed =
      ({ e' with signature := signature } : Entry).hashed := congrArg (· ++ signature) h
  have hsame := eq_of_hashed_eq (hsized e he) (hsized e' he') hhashed
  exact congrArg (fun x : Entry => { x with signature := [] }) hsame

/-! ## Two of different kinds -/

namespace Signable

/-- A statement that names a key starts with a letter. -/
theorem head?_statement (p : Purpose) (group : GroupId) (key : PublicKey) :
    (p.statement group key).head? = some 103 := by
  have hlabel : p.label.head? = some 103 := by
    cases p <;> decide +kernel
  rw [Purpose.statement, List.append_assoc, List.head?_append, hlabel, Option.some_or]

theorem head?_envelope (e : Envelope) (group : GroupId) :
    (e.signedData group).head? = some e.version := rfl

theorem head?_custody (e : Custody.Entry) : e.signedData.head? = some e.action.code := rfl

/-- The start of a chain is shorter than an envelope. -/
theorem length_lt_of_start {e : Custody.Entry} {x : Envelope} (group : GroupId) (he : e.Regular)
    (hstart : e.action = .start) (hx : x.Regular) :
    e.signedData.length < (x.signedData group).length := by
  obtain ⟨hparent, hsubject⟩ := he.start hstart
  have htime : ∀ t : Timestamp, t.octets.length = 8 := fun t => Bytes.length_ofNatLE _ _
  have hclock : ∀ w : UInt64, (Bytes.ofUInt64LE w).length = 8 := fun w => rfl
  have hentry : e.signedData.length = 90 := by
    simp [Custody.Entry.signedData, hparent, hsubject, he.signer, htime]
  have henvelope : (x.signedData group).length = 89 + x.ciphertext.length := by
    simp [Envelope.signedData, hclock]
    omega
  have htagged := hx.tagged
  omega

/-! The three pairs of kinds. -/

theorem naming_ne_envelope (p : Purpose) (group group' : GroupId) (key : PublicKey) {e : Envelope}
    (he : e.Regular) : p.statement group key ≠ e.signedData group' := by
  intro h
  have hhead := congrArg List.head? h
  rw [head?_statement, head?_envelope, he.version] at hhead
  cases hhead

theorem naming_ne_custody (p : Purpose) (group : GroupId) (key : PublicKey) (e : Custody.Entry) :
    p.statement group key ≠ e.signedData := by
  intro h
  have hhead := congrArg List.head? h
  rw [head?_statement, head?_custody] at hhead
  cases haction : e.action <;> rw [haction] at hhead <;> cases hhead

theorem envelope_ne_custody (group : GroupId) {x : Envelope} {e : Custody.Entry} (hx : x.Regular)
    (he : e.Regular) : x.signedData group ≠ e.signedData := by
  intro h
  have hhead := congrArg List.head? h
  rw [head?_envelope, head?_custody, hx.version] at hhead
  cases haction : e.action with
  | start =>
    have hlonger := length_lt_of_start group he haction hx
    rw [h] at hlonger
    exact Nat.lt_irrefl _ hlonger
  | add =>
    rw [haction] at hhead
    cases hhead
  | remove =>
    rw [haction] at hhead
    cases hhead

/-! ## Main statement -/

/-- The octets determine the kind, and all fields but the signature. -/
theorem unsigned_eq_of_octets_eq {a b : Signable} (ha : a.Proper) (hb : b.Proper)
    (h : a.octets = b.octets) : a.unsigned = b.unsigned := by
  cases a with
  | naming p group key =>
    cases b with
    | naming p' group' key' =>
      obtain ⟨rfl, rfl, rfl⟩ := Purpose.statement_injective h
      rfl
    | envelope group' e' => exact absurd h (naming_ne_envelope p group group' key hb)
    | custody e' => exact absurd h (naming_ne_custody p group key e')
  | envelope group e =>
    cases b with
    | naming p' group' key' => exact absurd h.symm (naming_ne_envelope p' group' group key' ha)
    | envelope group' e' =>
      obtain ⟨hgroup, hfields⟩ := Envelope.eq_of_signedData_eq h
      exact congrArg₂ envelope hgroup hfields
    | custody e' => exact absurd h (envelope_ne_custody group ha hb)
  | custody e =>
    cases b with
    | naming p' group' key' => exact absurd h.symm (naming_ne_custody p' group' key' e)
    | envelope group' e' => exact absurd h.symm (envelope_ne_custody group' hb ha)
    | custody e' => exact congrArg custody (Custody.Entry.eq_of_signedData_eq ha hb h)

theorem octets_unsigned (a : Signable) : a.unsigned.octets = a.octets := by
  cases a <;> rfl

variable [Suite]

theorem regular_of_sound {es : List Custody.Entry} (h : Custody.Sound es) {e : Custody.Entry}
    (he : e ∈ es) (created : e.created.Fits) (expires : e.expires.Fits) : e.Regular := by
  induction h with
  | nil => cases he
  | @snoc es last before follows ih =>
    rcases List.mem_append.1 he with he | he
    · exact ih he
    · obtain rfl := List.mem_singleton.1 he
      obtain ⟨hparent, key, hkey, -, hrole⟩ := Custody.follows_iff.1 follows
      refine ⟨?_, fun hstart => ?_, created, expires⟩
      · rw [← (PublicKey.of_ofBytes hkey).1, Octets.length_toList]
      · rw [if_pos hstart] at hrole
        obtain ⟨rfl, hsubject⟩ := hrole
        exact ⟨hparent, hsubject⟩

theorem regular_of_reveal (tag : Suite.TagLength) {e : Envelope} {group : GroupId}
    {key : Octets 32} {payload : Bytes} (h : e.reveal group key = .ok payload) : e.Regular := by
  unfold Envelope.reveal at h
  obtain ⟨_, hcheck, hopen⟩ := bind_eq_ok_iff.1 h
  constructor
  · by_contra hversion
    rw [Envelope.check, if_pos hversion] at hcheck
    cases hcheck
  · unfold SecretBox.openWith at hopen
    split at hopen
    · next hdecrypt => exact tag _ _ _ _ hdecrypt
    · cases hopen

/-- What is signed is proper if it is an entry of a chain that passes the check, dated by
milliseconds that a word of 64 bits counts, or an envelope that opens.  Of proper ones, two have the
same octets exactly if they are of one kind and have the same fields, up to the signature. -/
theorem separated :
    (∀ c : Custody, c.check = .ok () → ∀ e ∈ c.entries, e.created.Fits → e.expires.Fits →
      (custody e).Proper) ∧
    (Suite.TagLength → ∀ (group : GroupId) (e : Envelope) (key : Octets 32) (payload : Bytes),
      e.reveal group key = .ok payload → (envelope group e).Proper) ∧
    ∀ a b : Signable, a.Proper → b.Proper → (a.octets = b.octets ↔ a.unsigned = b.unsigned) := by
  refine ⟨?_, ?_, ?_⟩
  · intro c hcheck e he hcreated hexpires
    exact regular_of_sound (Custody.check_eq_ok_iff.1 hcheck).2 he hcreated hexpires
  · intro tag group e key payload hopens
    exact regular_of_reveal tag hopens
  · intro a b ha hb
    refine ⟨unsigned_eq_of_octets_eq ha hb, fun h => ?_⟩
    rw [← octets_unsigned a, ← octets_unsigned b, h]

end Signable

end SecureGroup

namespace SecureGroup.Signable

attribute [local instance] Suite.plain

/-- The start of a chain and an envelope begin with the same octet, and are signed apart. -/
theorem separated_start_and_envelope :
    let start := (Custody.empty.afterAll (Plain.custodyCalls.take 1)).entries
    let sealedNow :=
      Envelope.signedBy (Plain.key 2) [7] Plain.group.id 0 Plain.reader.key (.fit 12 [])
    ∃ e ∈ start, e.signedData.head? = (sealedNow.signedData Plain.group.id).head? ∧
      (custody e).octets ≠ (envelope Plain.group.id sealedNow).octets := by
  intro start sealedNow
  obtain ⟨ofChain, ofEnvelope, apart⟩ := separated
  have hchain : (Custody.mk start).check = .ok () := by decide +kernel
  have hopens : sealedNow.reveal Plain.group.id Plain.reader.key = .ok [7] := by decide +kernel
  have hfits : ∀ e ∈ start, e.created.Fits ∧ e.expires.Fits := by
    unfold Timestamp.Fits
    decide +kernel
  have hfirst : ∃ e ∈ start,
      e.signedData.head? = (sealedNow.signedData Plain.group.id).head? := by decide +kernel
  obtain ⟨e, he, hhead⟩ := hfirst
  have hproper := ofChain ⟨start⟩ hchain e he (hfits e he).1 (hfits e he).2
  refine ⟨e, he, hhead, fun h => ?_⟩
  have hsame := (apart _ _ hproper (ofEnvelope Suite.plain_tagLength _ _ _ _ hopens)).1 h
  cases hsame

end SecureGroup.Signable
