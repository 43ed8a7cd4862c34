import SecureGroup.Proofs.Sealing
import SecureGroup.Metadata.Event

/-!
# Events and chain keys read back

What is written of a chain key, of a proof or of an event reads back, whatever follows it, and no
proper beginning of it reads (`ChainKey.faithful_codec`, `JoinProof.faithful_codec`,
`Metadata.Event.faithful_codec`).  The octets of an event start with the number of its kind, and
each kind has fields of its own, so the four kinds are one argument about numbered fields
(`Metadata.Event.decode_numbered`).
-/

namespace SecureGroup

variable [Suite]

omit [Suite] in
theorem ChainKey.faithful_codec : Codec.Faithful ChainKey.codec fun _ => True :=
  (Codec.faithful_convert (Codec.faithful_pair Codec.faithful_word64
    (Codec.faithful_pair (Codec.faithful_octets 32) Codec.faithful_word64)) _ _).mono
    fun _ _ => ⟨⟨trivial, trivial, trivial⟩, rfl⟩

omit [Suite] in
theorem ChainKey.ofBytes_encode (c : ChainKey) : ofBytes (codec.encode c) = .ok c := by
  rw [ofBytes, faithful_codec.read_encode trivial]
  rfl

/-- What a proof needs to be read back: keys that are keys, and signatures that can be counted. -/
structure JoinProof.Sound (p : JoinProof) : Prop where
  inviter : p.inviter.Valid
  invitationKey : p.invitationKey.Valid
  inviterSignature : p.inviterSignature.length < UInt64.size
  invitationSignature : p.invitationSignature.length < UInt64.size
  memberSignature : p.memberSignature.length < UInt64.size

theorem JoinProof.faithful_codec : Codec.Faithful JoinProof.codec JoinProof.Sound :=
  (Codec.faithful_convert (Codec.faithful_pair PublicKey.faithful_codec
    (Codec.faithful_pair PublicKey.faithful_codec (Codec.faithful_pair Codec.faithful_bytes
      (Codec.faithful_pair Codec.faithful_bytes Codec.faithful_bytes)))) _ _).mono
    fun _ hp => ⟨⟨hp.inviter, hp.invitationKey, hp.inviterSignature, hp.invitationSignature,
      hp.memberSignature⟩, rfl⟩

namespace Metadata.Event

/-- What an event needs to be read back: parts that can be counted, and a proof that reads back. -/
def Sound : Event → Prop
  | memberAnnounced member device memberSignature groupSignature =>
    member.length < UInt64.size ∧ device.length < UInt64.size ∧
      memberSignature.length < UInt64.size ∧ groupSignature.length < UInt64.size
  | deviceAdded member device memberSignature proof =>
    member.length < UInt64.size ∧ device.length < UInt64.size ∧
      memberSignature.length < UInt64.size ∧ ∀ p, proof = some p → p.Sound
  | secretAdded device recipient _ secret =>
    device.length < UInt64.size ∧ recipient.length < UInt64.size ∧
      secret.box.length < UInt64.size
  | adminGranted member => member.length < UInt64.size

/-- Fields behind a number read back as the event that the number and the fields make, whatever
follows, and no proper beginning of them reads. -/
theorem decode_numbered {α : Type} {c : Codec α} {valid : α → Prop} (hc : c.Faithful valid)
    (number : UInt32) (make : α × Bytes → Event × Bytes)
    (hfields : ∀ bs, decodeFields number bs = (c.decode bs).map make) (x : α) (hx : valid x) :
    (∀ rest, codec.decode (Codec.word32.encode number ++ c.encode x ++ rest) =
        .ok (make (x, rest))) ∧
      ∀ k, k < (Codec.word32.encode number ++ c.encode x).length →
        codec.decode ((Codec.word32.encode number ++ c.encode x).take k) = .error .endOfInput := by
  have hcodec : ∀ bs, codec.decode bs =
      (Codec.word32.decode bs >>= fun x => decodeFields x.1 x.2) := fun _ => rfl
  refine ⟨fun rest => ?_, fun k hk => ?_⟩
  · rw [hcodec, List.append_assoc, Codec.faithful_word32.decode_encode number trivial]
    show decodeFields number (c.encode x ++ rest) = _
    rw [hfields, hc.decode_encode x hx]
    rfl
  · rw [hcodec]
    by_cases hnumber : k < (Codec.word32.encode number).length
    · rw [List.take_append_of_le_length (Nat.le_of_lt hnumber),
        Codec.faithful_word32.decode_take number trivial k hnumber]
      rfl
    · obtain ⟨n, rfl⟩ := Nat.exists_eq_add_of_le (Nat.not_lt.1 hnumber)
      have hn : n < (c.encode x).length := by
        rw [List.length_append] at hk
        omega
      rw [List.take_length_add_append, Codec.faithful_word32.decode_encode number trivial]
      show decodeFields number ((c.encode x).take n) = _
      rw [hfields, hc.decode_take x hx n hn]
      rfl

omit [Suite] in
theorem faithful_announcementCodec : Codec.Faithful announcementCodec fun p =>
    p.1.length < UInt64.size ∧ p.2.1.length < UInt64.size ∧ p.2.2.1.length < UInt64.size ∧
      p.2.2.2.length < UInt64.size :=
  Codec.faithful_pair Codec.faithful_bytes (Codec.faithful_pair Codec.faithful_bytes
    (Codec.faithful_pair Codec.faithful_bytes Codec.faithful_bytes))

theorem faithful_deviceCodec : Codec.Faithful deviceCodec fun p =>
    p.1.length < UInt64.size ∧ p.2.1.length < UInt64.size ∧ p.2.2.1.length < UInt64.size ∧
      ∀ q, p.2.2.2 = some q → q.Sound :=
  Codec.faithful_pair Codec.faithful_bytes (Codec.faithful_pair Codec.faithful_bytes
    (Codec.faithful_pair Codec.faithful_bytes (Codec.faithful_optional JoinProof.faithful_codec)))

omit [Suite] in
theorem faithful_secretCodec : Codec.Faithful secretCodec fun p =>
    p.1.length < UInt64.size ∧ p.2.1.length < UInt64.size ∧ True ∧
      p.2.2.2.box.length < UInt64.size :=
  Codec.faithful_pair Codec.faithful_bytes (Codec.faithful_pair Codec.faithful_bytes
    (Codec.faithful_pair Codec.faithful_word64 SealedSecret.faithful_codec))

theorem decode_of_sound {e : Event} (he : e.Sound) :
    (∀ rest, codec.decode (codec.encode e ++ rest) = .ok (e, rest)) ∧
      ∀ k, k < (codec.encode e).length →
        codec.decode ((codec.encode e).take k) = .error .endOfInput := by
  cases e with
  | memberAnnounced member device memberSignature groupSignature =>
    exact decode_numbered faithful_announcementCodec 0
      (fun x => (memberAnnounced x.1.1 x.1.2.1 x.1.2.2.1 x.1.2.2.2, x.2)) (fun _ => rfl)
      (member, device, memberSignature, groupSignature) he
  | deviceAdded member device memberSignature proof =>
    exact decode_numbered faithful_deviceCodec 1
      (fun x => (deviceAdded x.1.1 x.1.2.1 x.1.2.2.1 x.1.2.2.2, x.2)) (fun _ => rfl)
      (member, device, memberSignature, proof) he
  | secretAdded device recipient chainId secret =>
    obtain ⟨hdevice, hrecipient, hbox⟩ := he
    exact decode_numbered faithful_secretCodec 2
      (fun x => (secretAdded x.1.1 x.1.2.1 x.1.2.2.1 x.1.2.2.2, x.2)) (fun _ => rfl)
      (device, recipient, chainId, secret) ⟨hdevice, hrecipient, trivial, hbox⟩
  | adminGranted member =>
    exact decode_numbered Codec.faithful_bytes 3 (fun x => (adminGranted x.1, x.2))
      (fun _ => rfl) member he

theorem faithful_codec : Codec.Faithful codec Sound where
  decode_encode _ he := (decode_of_sound he).1
  decode_take _ he := (decode_of_sound he).2

theorem ofBytes_encode {e : Event} (he : e.Sound) : ofBytes e.encode = .ok e := by
  rw [ofBytes, show e.encode = codec.encode e from rfl, faithful_codec.read_encode he]
  rfl

/-- An event that sends a chain reads back if all of it can be counted. -/
theorem sound_secretAdded {device recipient : Bytes} {chainId : UInt64} {secret : SealedSecret}
    (fits : (secretAdded device recipient chainId secret).encode.length < UInt64.size) :
    (secretAdded device recipient chainId secret).Sound := by
  simp only [encode, secretCodec, SealedSecret.codec, Codec.convert, Codec.pair, Codec.bytes,
    List.length_append] at fits
  exact ⟨by omega, by omega, by omega⟩

end Metadata.Event

end SecureGroup
