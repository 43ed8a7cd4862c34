import SecureGroup.Group
import SecureGroup.Proofs.Base58

/-!
# The text of a group identifier

A text is read as a group identifier exactly if it is the text of the identifier
(`GroupId.ofBase58_eq_ok_iff`), so identifiers and the texts that are read correspond one to one
(`GroupId.text_bijective`).  What is refused is refused for one of two causes: a character that is
no digit, or a number of octets other than 32.
-/

namespace SecureGroup.GroupId

variable {s : String} {id : GroupId} {bs : Bytes}

theorem ofBase58_of_decode (h : Base58.decode s = .ok bs) (hlength : bs.length = 32) :
    ∃ id : GroupId, ofBase58 s = .ok id ∧ id.bytes.toList = bs := by
  refine ⟨⟨⟨bs, hlength⟩⟩, ?_, rfl⟩
  rw [ofBase58, h]
  simp [Octets.ofList?, hlength]

theorem ofBase58_of_length_ne (h : Base58.decode s = .ok bs) (hlength : bs.length ≠ 32) :
    ofBase58 s = .error (.groupIdLength bs.length) := by
  rw [ofBase58, h]
  simp [Octets.ofList?, hlength]

theorem ofBase58_of_not_mem {c : Char} (hc : c ∈ s.toList) (hnot : c ∉ Base58.alphabet) :
    ∃ fault, ofBase58 s = .error (.groupIdText fault) := by
  obtain ⟨fault, hfault⟩ := Base58.values_of_not_mem hc hnot 0
  refine ⟨fault, ?_⟩
  rw [ofBase58, Base58.decode, hfault]
  rfl

theorem ofBase58_eq_ok_iff : ofBase58 s = .ok id ↔ s = id.toBase58 := by
  constructor
  · intro h
    cases hdecode : Base58.decode s with
    | error fault =>
      rw [ofBase58, hdecode] at h
      cases h
    | ok bs =>
      by_cases hlength : bs.length = 32
      · obtain ⟨found, hfound, hbytes⟩ := ofBase58_of_decode hdecode hlength
        obtain rfl : found = id := Except.ok.inj (hfound.symm.trans h)
        rw [toBase58, hbytes, Base58.encode_of_decode hdecode]
      · rw [ofBase58_of_length_ne hdecode hlength] at h
        cases h
  · rintro rfl
    obtain ⟨found, hfound, hbytes⟩ :=
      ofBase58_of_decode (Base58.decode_encode id.bytes.toList) id.bytes.length_toList
    rw [toBase58, hfound]
    obtain ⟨bytes⟩ := found
    obtain ⟨bytes'⟩ := id
    exact congrArg (fun o => Except.ok (⟨o⟩ : GroupId)) (Octets.ext hbytes)

/-- Identifiers and the texts that are read correspond one to one.  Every identifier is read back
from its text, whatever zeros it starts with, and every text that is read is the text of what it is
read as; so no two texts name one group.  Refused are a text with more digits for zero in front than
the identifier has zeros, a text with a character that is no digit, and the text of any other number
of octets. -/
theorem text_bijective :
    (∀ id : GroupId, ofBase58 id.toBase58 = .ok id) ∧
    (∀ (s : String) (id : GroupId), ofBase58 s = .ok id → id.toBase58 = s) ∧
    (∀ (s t : String) (id : GroupId), ofBase58 s = .ok id → ofBase58 t = .ok id → s = t) ∧
    (∀ (id : GroupId) (n : Nat), 0 < n →
      ofBase58 (String.ofList (List.replicate n '1') ++ id.toBase58) =
        .error (.groupIdLength (n + 32))) ∧
    (∀ (s : String) (c : Char), c ∈ s.toList → c ∉ Base58.alphabet →
      ∃ fault, ofBase58 s = .error (.groupIdText fault)) ∧
    (∀ (s : String) (bs : Bytes), Base58.decode s = .ok bs → bs.length ≠ 32 →
      ofBase58 s = .error (.groupIdLength bs.length)) := by
  refine ⟨fun id => ofBase58_eq_ok_iff.2 rfl, fun s id h => (ofBase58_eq_ok_iff.1 h).symm,
    fun s t id hs ht => ?_, fun id n hn => ?_, fun s c => ofBase58_of_not_mem,
    fun s bs => ofBase58_of_length_ne⟩
  · exact (ofBase58_eq_ok_iff.1 hs).trans (ofBase58_eq_ok_iff.1 ht).symm
  · have hdecode := Base58.decode_encode (List.replicate n 0 ++ id.bytes.toList)
    have hlength : (List.replicate n 0 ++ id.bytes.toList).length = n + 32 := by
      rw [List.length_append, List.length_replicate, Octets.length_toList]
    rw [Base58.encode_replicate_append] at hdecode
    rw [toBase58, ofBase58_of_length_ne hdecode (by omega), hlength]

/-- The identifier of octets that are all zero has a text of 32 digits for zero, and with one more
of them the text is refused. -/
theorem text_bijective_zeros :
    let id : GroupId := ⟨.fit 32 []⟩
    let ones (n : Nat) := String.ofList (List.replicate n '1')
    id.toBase58 = ones 32 ∧ ofBase58 (ones 32) = .ok id ∧
      ofBase58 (ones 33) = .error (.groupIdLength 33) ∧
      ∃ fault, ofBase58 "0" = .error (.groupIdText fault) := by
  intro id ones
  obtain ⟨hread, hwritten, -, hlonger, hforeign, -⟩ := text_bijective
  have htext : id.toBase58 = ones 32 := by
    have h := Base58.encode_replicate_append 32 []
    have hempty : Base58.encode [] = "" := by
      rw [Base58.encode, Base58.toDigits, if_pos (by decide)]
      decide
    rw [hempty, String.append_empty] at h
    exact h
  refine ⟨htext, htext ▸ hread id, ?_, hforeign "0" '0' (by decide) (by decide)⟩
  have h := hlonger id 1 (by decide)
  rw [htext, ← String.ofList_append, ← List.replicate_add] at h
  exact h

end SecureGroup.GroupId
