import SecureGroup.Proofs.Invitations
import SecureGroup.Suite.Plain

/-!
# Wire formats tell where a value ends

Envelopes, events, invitations, chain keys and message bodies are written without a frame around
them.  What is written of a value is still taken for that value whatever stands behind it, no proper
beginning of it is taken for anything, and so no value is written as a beginning of another
(`SelfDelimiting`).  All of this follows from faithful codecs (`Codec.Faithful.selfDelimiting`);
`selfDelimiting_formats` is the list of the formats.
-/

namespace SecureGroup

/-- What is written of valid values is read back whatever follows it, all its proper beginnings are
refused with one fault, and none of them is written of a valid value. -/
structure SelfDelimiting {α ε : Type} (write : α → Bytes) (read : Bytes → Except ε α) (fault : ε)
    (valid : α → Prop) : Prop where
  read_append : ∀ x, valid x → ∀ rest, read (write x ++ rest) = .ok x
  read_front : ∀ x, valid x → ∀ front, front <+: write x → front ≠ write x →
    read front = .error fault
  eq_of_front : ∀ x y, valid x → valid y → write x <+: write y → x = y

section

variable {α ε ε' : Type} {c : Codec α} {valid : α → Prop} {write : α → Bytes}
  {read : Bytes → Except ε α} {fault : ε}

theorem Codec.Faithful.selfDelimiting (hc : c.Faithful valid) :
    SelfDelimiting c.encode c.read .endOfInput valid where
  read_append x hx rest := by
    rw [Codec.read, hc.decode_encode x hx rest]
    rfl
  read_front x hx front hfront hne := by
    have hshort : front.length < (c.encode x).length :=
      Nat.lt_of_le_of_ne hfront.length_le fun h => hne (hfront.eq_of_length h)
    rw [Codec.read, List.prefix_iff_eq_take.1 hfront, hc.decode_take x hx _ hshort]
    rfl
  eq_of_front x y hx hy hfront := by
    obtain ⟨rest, hrest⟩ := hfront
    have hread := hc.decode_encode x hx rest
    rw [hrest, ← List.append_nil (c.encode y), hc.decode_encode y hy] at hread
    exact (congrArg Prod.fst (Except.ok.inj hread)).symm

/-- A reader may give its faults another name. -/
theorem SelfDelimiting.mapError (h : SelfDelimiting write read fault valid) (f : ε → ε') :
    SelfDelimiting write (fun bs => (read bs).mapError f) (f fault) valid where
  read_append x hx rest := by
    rw [h.read_append x hx rest]
    rfl
  read_front x hx front hfront hne := by
    rw [h.read_front x hx front hfront hne]
    rfl
  eq_of_front := h.eq_of_front

end

variable [Suite]

/-- Every format of the wire is self-delimiting, for all values that are well-formed: keys that are
keys, and byte strings that a word can count. -/
theorem selfDelimiting_formats :
    SelfDelimiting Envelope.codec.encode Envelope.ofBytes (.undecodable .envelope .endOfInput)
      Envelope.Sound ∧
    SelfDelimiting Metadata.Event.encode Metadata.Event.ofBytes (.undecodable .event .endOfInput)
      Metadata.Event.Sound ∧
    SelfDelimiting Invitation.codec.encode
      (fun bs => (Invitation.codec.read bs).mapError Error.invitationData)
      (.invitationData .endOfInput) Invitation.Sound ∧
    SelfDelimiting ChainKey.codec.encode ChainKey.ofBytes (.undecodable .chainKey .endOfInput)
      (fun _ => True) ∧
    SelfDelimiting Message.Body.codec.encode
      (fun bs => (Message.Body.codec.read bs).mapError Message.Fault.body) (.body .endOfInput)
      (fun b => b.box.length < UInt64.size) := by
  refine ⟨?_, ?_, ?_, ?_, ?_⟩
  · exact Envelope.faithful_codec.selfDelimiting.mapError _
  · exact Metadata.Event.faithful_codec.selfDelimiting.mapError _
  · exact Invitation.faithful_codec.selfDelimiting.mapError _
  · exact ChainKey.faithful_codec.selfDelimiting.mapError _
  · exact Message.Body.faithful_codec.selfDelimiting.mapError _

end SecureGroup

namespace SecureGroup.Metadata.Event

attribute [local instance] Suite.plain

/-- An event with numbers of several octets is read with something behind it, and is not read when
its last octet is missing. -/
theorem selfDelimiting_formats_long_event :
    let e := secretAdded (List.replicate 300 7) [] 0xffffffffffffffff
      ⟨.fit 32 [1], List.replicate 200 9⟩
    (∀ rest, ofBytes (e.encode ++ rest) = .ok e) ∧
      ofBytes e.encode.dropLast = .error (.undecodable .event .endOfInput) := by
  intro e
  obtain ⟨-, hevents, -⟩ := selfDelimiting_formats
  have hsound : e.Sound := by
    show _ ∧ _ ∧ _
    decide +kernel
  have hne : e.encode.dropLast ≠ e.encode := by decide +kernel
  exact ⟨hevents.read_append e hsound,
    hevents.read_front e hsound _ (List.dropLast_prefix _) hne⟩

end SecureGroup.Metadata.Event
