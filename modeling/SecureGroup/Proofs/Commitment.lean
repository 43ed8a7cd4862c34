import SecureGroup.Proofs.Custody

/-!
# What the last hash of a custody chain commits to

The hash of an entry covers its signed octets and its signature.  Of entries that the check accepts,
these octets determine every field, however long the subject is: its length is written modulo 2^32
only, but everything else has one of two lengths that do not differ by a multiple of 2^32
(`Custody.Entry.eq_of_hashed_eq`).  Since every entry carries the hash of the one before it, two
chains with the same last hash are the same from the first entry on, or the hash of two different
byte strings among them is the same (`Custody.eq_or_collides_of_last_hash`).
-/

namespace SecureGroup

/-! ## Numbers and points in time -/

/-- Octets give back what of a number fits them. -/
theorem Bytes.toNatLE_ofNatLE_mod (w n : Nat) :
    toNatLE (ofNatLE w n) = n % (1 <<< (8 * w)) := by
  induction w generalizing n with
  | zero => simp [ofNatLE, toNatLE, Nat.mod_one]
  | succ w ih =>
    have hsize : 1 <<< (8 * (w + 1)) = 256 * (1 <<< (8 * w)) := by
      simp only [Nat.mul_succ, Nat.shiftLeft_succ]
      omega
    rw [ofNatLE, toNatLE, ih, hsize, Nat.mod_mul, UInt8.toNat_ofNat']
    omega

/-- A point in time that a signed word of 64 bits can count. -/
def Timestamp.Fits (t : Timestamp) : Prop :=
  -0x8000000000000000 ≤ t.ms ∧ t.ms < 0x8000000000000000

theorem Timestamp.eq_of_octets_eq {t u : Timestamp} (ht : t.Fits) (hu : u.Fits)
    (h : t.octets = u.octets) : t = u := by
  have hsame := congrArg Bytes.toNatLE h
  unfold octets at hsame
  have hbound : ∀ v : Timestamp,
      (v.ms % 0x10000000000000000).toNat < 1 <<< (8 * 8) := by
    intro v
    show _ < 0x10000000000000000
    omega
  rw [Bytes.toNatLE_ofNatLE _ _ (hbound t), Bytes.toNatLE_ofNatLE _ _ (hbound u)] at hsame
  unfold Fits at ht hu
  have hms : t.ms = u.ms := by omega
  exact congrArg Timestamp.mk hms

namespace Custody

variable {es es' : List Entry} {e e' : Entry}

/-! ## One entry -/

/-- The octets that the hash of an entry covers. -/
def Entry.hashed (e : Entry) : Bytes := e.signedData ++ e.signature

/-- The parts of an entry whose size is not written have the size that they always have. -/
structure Entry.Sized (e : Entry) : Prop where
  signer : e.signer.length = 32
  signature : e.signature.length = 64
  created : e.created.Fits
  expires : e.expires.Fits

/-- The octets that stand for the hash of the entry before. -/
def Entry.parentOctets (e : Entry) : Bytes :=
  match e.parent with
  | some hash => 1 :: hash.toList
  | none => [0]

theorem Action.code_injective {a b : Action} (h : a.code = b.code) : a = b := by
  cases a <;> cases b <;> first | rfl | cases h

theorem parent_eq_of_octets_eq (h : e.parentOctets = e'.parentOctets) : e.parent = e'.parent := by
  unfold Entry.parentOctets at h
  cases hp : e.parent with
  | none =>
    cases hp' : e'.parent with
    | none => rfl
    | some hash' =>
      rw [hp, hp'] at h
      cases h
  | some hash =>
    cases hp' : e'.parent with
    | none =>
      rw [hp, hp'] at h
      cases h
    | some hash' =>
      rw [hp, hp'] at h
      exact congrArg some (Octets.ext (List.cons.inj h).2)

theorem length_parentOctets (e : Entry) :
    e.parentOctets.length = 1 ∨ e.parentOctets.length = 33 := by
  unfold Entry.parentOctets
  split
  · right
    simp
  · left
    rfl

theorem hashed_eq (e : Entry) : e.hashed = e.action.code ::
    (Bytes.ofNatLE 4 e.subject.length ++ (e.subject ++ (Bytes.ofNatLE 4 e.signer.length ++
      (e.signer ++ (e.parentOctets ++
        (e.created.octets ++ (e.expires.octets ++ e.signature))))))) := by
  have hdata : e.signedData = e.action.code :: (Bytes.ofNatLE 4 e.subject.length ++ e.subject ++
      Bytes.ofNatLE 4 e.signer.length ++ e.signer ++ e.parentOctets ++ e.created.octets ++
        e.expires.octets) := rfl
  rw [Entry.hashed, hdata]
  simp only [List.cons_append, List.append_assoc]

theorem Entry.eq_of_hashed_eq (he : e.Sized) (he' : e'.Sized) (h : e.hashed = e'.hashed) :
    e = e' := by
  have htime : ∀ t : Timestamp, t.octets.length = 8 := fun t => Bytes.length_ofNatLE _ _
  have htotal := congrArg List.length h
  rw [hashed_eq, hashed_eq] at h htotal
  obtain ⟨hcode, h⟩ := List.cons.inj h
  obtain ⟨hcount, h⟩ := List.append_inj h (by simp)
  -- the lengths of the subjects are the same modulo 2^32, and so they are the same
  have hmod := congrArg Bytes.toNatLE hcount
  rw [Bytes.toNatLE_ofNatLE_mod, Bytes.toNatLE_ofNatLE_mod] at hmod
  have hmod : e.subject.length % 0x100000000 = e'.subject.length % 0x100000000 := hmod
  simp only [List.length_cons, List.length_append, Bytes.length_ofNatLE, htime, he.signer,
    he'.signer, he.signature, he'.signature] at htotal
  have hlength : e.subject.length = e'.subject.length := by
    rcases length_parentOctets e with hp | hp <;> rcases length_parentOctets e' with hp' | hp' <;>
      omega
  obtain ⟨hsubject, h⟩ := List.append_inj h hlength
  obtain ⟨-, h⟩ := List.append_inj h (by simp)
  obtain ⟨hsigner, h⟩ := List.append_inj h (he.signer.trans he'.signer.symm)
  obtain ⟨hlink, h⟩ := List.append_inj h (by omega)
  obtain ⟨hbirth, h⟩ := List.append_inj h ((htime _).trans (htime _).symm)
  obtain ⟨hend, hsignature⟩ := List.append_inj h ((htime _).trans (htime _).symm)
  have hparent : e.parent = e'.parent := parent_eq_of_octets_eq hlink
  have hcreated : e.created = e'.created := Timestamp.eq_of_octets_eq he.created he'.created hbirth
  have hexpires : e.expires = e'.expires := Timestamp.eq_of_octets_eq he.expires he'.expires hend
  have haction : e.action = e'.action := Action.code_injective hcode
  cases e
  cases e'
  simp only at hsubject hsigner hsignature hparent hcreated hexpires haction
  rw [hsubject, hsigner, hsignature, hparent, hcreated, hexpires, haction]

/-! ## Whole chains -/

variable [Suite]

/-- Two entries, one of each list, are hashed from different octets to the same hash. -/
def Collides (es es' : List Entry) : Prop :=
  ∃ e ∈ es, ∃ e' ∈ es', e.hashed ≠ e'.hashed ∧ Suite.digest e.hashed = Suite.digest e'.hashed

theorem Collides.mono {ls ls' : List Entry} (h : Collides es es') (hs : es ⊆ ls) (hs' : es' ⊆ ls') :
    Collides ls ls' := by
  obtain ⟨e, he, e', he', hne⟩ := h
  exact ⟨e, hs he, e', hs' he', hne⟩

/-- An entry that follows others has a signer and a signature of the usual size. -/
theorem Entry.Follows.sized (len : Suite.SignatureLength) (h : e.Follows es)
    (fits : e.created.Fits ∧ e.expires.Fits) : e.Sized := by
  obtain ⟨-, key, hkey, haccepts, -⟩ := follows_iff.1 h
  refine ⟨?_, len _ (Bool.and_eq_true_iff.1 haccepts).1, fits.1, fits.2⟩
  rw [← (PublicKey.of_ofBytes hkey).1, Octets.length_toList]

/-- Sound chains with the same last hash are the same, or they collide. -/
theorem Sound.eq_or_collides (len : Suite.SignatureLength) (hs : Sound es) (hs' : Sound es')
    (fits : ∀ e ∈ es ++ es', e.created.Fits ∧ e.expires.Fits)
    (last : es.getLast?.map Entry.hash = es'.getLast?.map Entry.hash) :
    es = es' ∨ Collides es es' := by
  induction hs generalizing es' with
  | nil =>
    cases hs' with
    | nil => exact Or.inl rfl
    | snoc before' last' => simp at last
  | @snoc es e before follows ih =>
    cases hs' with
    | nil => simp at last
    | @snoc es' e' before' follows' =>
      have hhash : e.hash = e'.hash := by simpa using last
      by_cases hhashed : e.hashed = e'.hashed
      · -- the same entry stands last in both, so the hashes before it are the same
        have hsized := follows.sized len (fits e (by simp))
        have hsized' := follows'.sized len (fits e' (by simp))
        obtain rfl := Entry.eq_of_hashed_eq hsized hsized' hhashed
        have hparent := (follows_iff.1 follows).1.symm.trans (follows_iff.1 follows').1
        have hfits : ∀ x ∈ es ++ es', x.created.Fits ∧ x.expires.Fits := by
          intro x hx
          refine fits x ?_
          rcases List.mem_append.1 hx with hx | hx <;> simp [hx]
        rcases ih before' hfits hparent with rfl | hcollides
        · exact Or.inl rfl
        · exact Or.inr (hcollides.mono (List.subset_append_left _ _) (List.subset_append_left _ _))
      · exact Or.inr ⟨e, by simp, e', by simp, hhashed, hhash⟩

/-- Two lists of entries that are both accepted as chains and have the same last hash have the same
entries, one for one and in every field, or two different byte strings that are hashed for entries
of theirs have the same hash.  The entries are dated by milliseconds that a word of 64 bits counts.
-/
theorem eq_or_collides_of_last_hash (len : Suite.SignatureLength) {c c' : Custody}
    (h : ofEntries es = .ok c) (h' : ofEntries es' = .ok c')
    (fits : ∀ e ∈ es ++ es', e.created.Fits ∧ e.expires.Fits)
    (last : es.getLast?.map Entry.hash = es'.getLast?.map Entry.hash) :
    es = es' ∨ ∃ e ∈ es, ∃ e' ∈ es',
      e.signedData ++ e.signature ≠ e'.signedData ++ e'.signature ∧
        Suite.digest (e.signedData ++ e.signature) =
          Suite.digest (e'.signedData ++ e'.signature) := by
  obtain ⟨-, -, hsound⟩ := ofEntries_eq_ok_iff.1 h
  obtain ⟨-, -, hsound'⟩ := ofEntries_eq_ok_iff.1 h'
  exact hsound.eq_or_collides len hsound' fits last

end Custody

end SecureGroup

namespace SecureGroup.Custody

attribute [local instance] Suite.brief

/-- A chain, and one that goes on from its first entry with the same calls. -/
theorem eq_or_collides_of_last_hash_reread :
    let calls := Plain.custodyCalls.take 2
    let es := (empty.afterAll calls).entries
    let es' := ((Custody.mk (es.take 1)).afterAll (calls.drop 1)).entries
    es.length = 2 ∧ es.getLast?.map Entry.hash = es'.getLast?.map Entry.hash ∧ es = es' := by
  intro calls es es'
  have h : ofEntries es = .ok ⟨es⟩ := by decide +kernel
  have h' : ofEntries es' = .ok ⟨es'⟩ := by decide +kernel
  have hfits : ∀ e ∈ es ++ es', e.created.Fits ∧ e.expires.Fits := by
    unfold Timestamp.Fits
    decide +kernel
  have hlast : es.getLast?.map Entry.hash = es'.getLast?.map Entry.hash := by decide +kernel
  refine ⟨by decide +kernel, hlast, ?_⟩
  refine (eq_or_collides_of_last_hash Suite.brief_signatureLength h h' hfits hlast).resolve_right ?_
  decide +kernel

end SecureGroup.Custody
