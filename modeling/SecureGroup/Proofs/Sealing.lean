import SecureGroup.Log.Binding
import SecureGroup.Message

/-!
# Sealed entries open

What a writer of a log seals, every reader of the log opens: the envelope reads back, its signature
fits, and it decrypts to the payload (`Log.Binding.read_sealWith`).  This rests on the laws of
signatures and of encryption, and on lengths that a word can count.
-/

namespace SecureGroup

variable [Suite]

/-! ## Reading what was written -/

namespace Codec

variable {α : Type} {c : Codec α} {valid valid' : α → Prop}

omit [Suite] in
theorem Faithful.mono (hc : Faithful c valid) (h : ∀ x, valid' x → valid x) :
    Faithful c valid' where
  decode_encode x hx := hc.decode_encode x (h x hx)
  decode_take x hx := hc.decode_take x (h x hx)

omit [Suite] in
theorem Faithful.read_encode (hc : Faithful c valid) {x : α} (hx : valid x) :
    c.read (c.encode x) = .ok x := by
  have hdecode := hc.decode_encode x hx []
  rw [List.append_nil] at hdecode
  rw [read, hdecode]
  rfl

end Codec

namespace Message.Body

omit [Suite] in
theorem faithful_codec : Codec.Faithful codec fun b => b.box.length < UInt64.size :=
  (Codec.faithful_convert (Codec.faithful_pair Codec.faithful_word64
    (Codec.faithful_pair Codec.faithful_word64 Codec.faithful_bytes)) _ _).mono
    fun _ hb => ⟨⟨trivial, trivial, hb⟩, rfl⟩

omit [Suite] in
theorem length_box_le (b : Body) : b.box.length ≤ (codec.encode b).length := by
  simp only [codec, Codec.convert, Codec.pair, Codec.bytes, List.length_append]
  omega

end Message.Body

namespace Envelope

/-- What an envelope needs to be read back: a sender that is a key, and parts that can be
counted. -/
structure Sound (e : Envelope) : Prop where
  sender : e.sender.Valid
  ciphertext : e.ciphertext.length < UInt64.size
  signature : e.signature.length < UInt64.size

theorem faithful_codec : Codec.Faithful codec Sound :=
  (Codec.faithful_convert (Codec.faithful_pair Codec.faithful_octet
    (Codec.faithful_pair PublicKey.faithful_codec (Codec.faithful_pair Codec.faithful_word64
      (Codec.faithful_pair (Codec.faithful_octets 12)
        (Codec.faithful_pair Codec.faithful_bytes Codec.faithful_bytes))))) _ _).mono
    fun _ he => ⟨⟨trivial, he.sender, trivial, trivial, he.ciphertext, he.signature⟩, rfl⟩

theorem sound_of_length {e : Envelope} (sender : e.sender.Valid)
    (fits : (codec.encode e).length < UInt64.size) : e.Sound := by
  simp only [codec, Codec.convert, Codec.pair, Codec.bytes, List.length_append] at fits
  exact ⟨sender, by omega, by omega⟩

/-! ## Opening what was sealed -/

variable {device : PrivateKey} {payload : Bytes} {group : GroupId} {clock : UInt64}
  {key : Octets 32} {nonce : Octets 12}

theorem check_signedBy (sig : Suite.SignatureLaw) :
    (signedBy device payload group clock key nonce).check group = .ok () := by
  have hverify :
      device.pub.verify ((unsigned payload device.pub clock key nonce).signedData group)
        (device.sign ((unsigned payload device.pub clock key nonce).signedData group)) =
      .ok true := by
    unfold PublicKey.verify PrivateKey.sign PrivateKey.pub
    rw [if_pos (sig.isSignature_sign _ _), sig.verify_sign]
  rw [check, if_neg (by exact fun h => h rfl)]
  show device.pub.check ((unsigned payload device.pub clock key nonce).signedData group) _ = _
  rw [PublicKey.check, signedBy]
  dsimp only
  rw [hverify]

theorem reveal_signedBy (sig : Suite.SignatureLaw) (enc : Suite.EncryptionLaw) :
    (signedBy device payload group clock key nonce).reveal group key = .ok payload := by
  rw [reveal, check_signedBy sig]
  show SecretBox.openWith key nonce (Suite.encrypt key nonce payload) = .ok payload
  rw [SecretBox.openWith, enc]

end Envelope

namespace Log.Binding

variable {b : Log.Binding} {device : PrivateKey} {payload : Bytes} {nonce : Octets 12}
  {e : Log.Entry}

/-- An entry that was sealed for a log opens for every reader of the log. -/
theorem read_of_sound (sig : Suite.SignatureLaw) (enc : Suite.EncryptionLaw)
    (he : e.payload = (b.sealWith device payload nonce).1)
    (sound : (Envelope.signedBy device payload b.address.group b.clock b.key nonce).Sound) :
    b.toReader.read e = .ok ⟨e.hash, e.position, device.pub, b.clock, payload⟩ := by
  have hread : Envelope.ofBytes e.payload =
      .ok (Envelope.signedBy device payload b.address.group b.clock b.key nonce) := by
    unfold Envelope.ofBytes
    rw [he, sealWith, Envelope.faithful_codec.read_encode sound]
    rfl
  rw [Log.Reader.read, hread]
  show (Envelope.reveal _ b.address.group b.key >>= _) = _
  rw [Envelope.reveal_signedBy sig enc]
  rfl

theorem read_sealWith (sig : Suite.SignatureLaw) (enc : Suite.EncryptionLaw)
    (he : e.payload = (b.sealWith device payload nonce).1) (fits : e.payload.length < UInt64.size) :
    b.toReader.read e = .ok ⟨e.hash, e.position, device.pub, b.clock, payload⟩ := by
  rw [he] at fits
  exact read_of_sound sig enc he
    (Envelope.sound_of_length (sig.isPublicKey_publicKey device.seed) fits)

end Log.Binding

end SecureGroup
