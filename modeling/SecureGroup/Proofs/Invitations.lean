import SecureGroup.Metadata.Author
import SecureGroup.Proofs.Base58
import SecureGroup.Proofs.Codecs
import SecureGroup.Proofs.Delivery
import SecureGroup.Proofs.Signatures

/-!
# Invitations are redeemed

An invitation goes from the inviter to the new member as text, and what the new member makes of it
goes to the log.  The text of a valid invitation is read as it (`Invitation.ofText_toText`).
Whoever redeems an issued one gets an event that is small enough to be read back, and that says to
everyone in the group who joins by whom (`Metadata.redeem_issueWith`).  Once the event is appended,
its entry opens to it (`Metadata.opens_of_append`).
-/

namespace SecureGroup

variable [Suite]

/-! ## What a private key signs -/

namespace PrivateKey

theorem valid_pub (sig : Suite.SignatureLaw) (k : PrivateKey) : k.pub.Valid :=
  sig.isPublicKey_publicKey k.seed

theorem accepts_sign (sig : Suite.SignatureLaw) (k : PrivateKey) (message : Bytes) :
    k.pub.accepts message (k.sign message) = true :=
  Bool.and_eq_true_iff.2 ⟨sig.isSignature_sign k.seed message, sig.verify_sign k.seed message⟩

theorem length_sign (sig : Suite.SignatureLaw) (len : Suite.SignatureLength) (k : PrivateKey)
    (message : Bytes) : (k.sign message).length = 64 :=
  len _ (sig.isSignature_sign k.seed message)

end PrivateKey

/-! ## The text of an invitation -/

namespace Invitation

variable {i : Invitation} {seed : Octets 32} {inviter : PrivateKey} {group : Group}

/-- What an invitation needs to be read back: keys that are keys, and a signature that can be
counted. -/
structure Sound (i : Invitation) : Prop where
  groupKey : i.groupKey.Valid
  inviter : i.inviter.Valid
  signature : i.signature.length < UInt64.size

theorem faithful_codec : Codec.Faithful codec Sound :=
  (Codec.faithful_convert (Codec.faithful_pair Codec.faithful_octet
    (Codec.faithful_pair PublicKey.faithful_codec (Codec.faithful_pair (Codec.faithful_octets 32)
      (Codec.faithful_pair PublicKey.faithful_codec
        (Codec.faithful_pair (Codec.faithful_octets 32) Codec.faithful_bytes))))) _ _).mono
    fun _ hi => ⟨⟨trivial, hi.groupKey, trivial, hi.inviter, trivial, hi.signature⟩, rfl⟩

omit [Suite] in
theorem dropPrologue?_append (s : String) :
    dropPrologue? (Error.invitationPrologue ++ s) = some s := by
  rw [dropPrologue?, String.toList_append, List.drop_left, String.ofList_toList]
  exact if_pos (List.isPrefixOf_iff_prefix.2 (List.prefix_append _ _))

/-- A valid invitation is read back from its text. -/
theorem ofText_toText (h : i.Sound) (valid : i.validate = .ok ()) : ofText i.toText = .ok i := by
  rw [ofText, toText, dropPrologue?_append]
  dsimp only
  rw [Base58.decode_encode]
  dsimp only
  rw [faithful_codec.read_encode h]
  dsimp only
  rw [valid]
  rfl

theorem sound_issueWith (sig : Suite.SignatureLaw) (len : Suite.SignatureLength)
    (key : group.key.Valid) : (issueWith seed inviter group).Sound where
  groupKey := key
  inviter := inviter.valid_pub sig
  signature := by
    rw [issueWith, PrivateKey.length_sign sig len]
    decide

theorem validate_eq_ok_iff : i.validate = .ok () ↔ i.version = currentVersion ∧
    i.inviter.accepts (Purpose.invitation.statement i.group.id i.key.pub) i.signature = true := by
  unfold validate
  by_cases hversion : i.version = currentVersion
  · simp [hversion]
  · simp [hversion]

theorem validate_issueWith (sig : Suite.SignatureLaw) :
    (issueWith seed inviter group).validate = .ok () :=
  validate_eq_ok_iff.2 ⟨rfl, inviter.accepts_sign sig _⟩

end Invitation

/-! ## What is redeemed -/

/-- The proof of an invitation that was issued shows its inviter, verifies for whoever redeems it,
and is short enough to be read back. -/
theorem Invitation.redeem_issueWith (sig : Suite.SignatureLaw) (len : Suite.SignatureLength)
    (seed : Octets 32) (inviter member : PrivateKey) (device : PublicKey) (group : Group) :
    ∃ proof, (issueWith seed inviter group).redeem member device = .ok proof ∧
      proof.inviter = inviter.pub ∧ proof.Verifies group.id member.pub device ∧ proof.Sound ∧
      (JoinProof.codec.encode proof).length ≤ 300 := by
  have hlength := fun k : PrivateKey => k.length_sign sig len
  obtain ⟨key, hkey⟩ : ∃ key, PrivateKey.mk seed = key := ⟨_, rfl⟩
  refine ⟨{
      inviter := inviter.pub
      invitationKey := key.pub
      inviterSignature := inviter.sign (Purpose.invitation.statement group.id key.pub)
      invitationSignature := key.sign (Purpose.redemption.statement group.id member.pub)
      memberSignature := member.signDevice group.id device }, ?_, rfl, ?_, ?_, ?_⟩
  · rw [redeem, validate_issueWith sig, ← hkey]
    rfl
  · exact ⟨inviter.accepts_sign sig _, key.accepts_sign sig _, member.accepts_sign sig _⟩
  · refine ⟨inviter.valid_pub sig, key.valid_pub sig, ?_, ?_, ?_⟩ <;>
      · simp only [PrivateKey.signDevice, hlength]
        decide
  · simp only [JoinProof.codec, PublicKey.codec, Codec.convert, Codec.pair, Codec.bytes,
      Codec.octets, List.length_append, Octets.length_toList, PrivateKey.signDevice, hlength]
    have hword : (Wire.Varint.encode 64).length = 1 := Wire.Varint.length_encode_of_lt (by decide)
    omega

namespace Metadata

open Event

/-- An event that is read back from a few octets, and says in a group that a member joins with a
device by an inviter, whoever writes it. -/
structure Event.Joins (event : Event) (group : Group) (pair : MemberDevice) (inviter : PublicKey) :
    Prop where
  sound : event.Sound
  length : event.encode.length ≤ 512
  statement : ∀ (self : Participant) (author : PublicKey), self.group = group →
    event.statement self author = .ok (.joined pair inviter)

/-- Whoever redeems an invitation that was issued for its group joins by the inviter. -/
theorem redeem_issueWith (sig : Suite.SignatureLaw) (len : Suite.SignatureLength) (p : Participant)
    (seed : Octets 32) (inviter member device : PrivateKey) :
    ∃ event, redeem p member device (.issueWith seed inviter p.group) = .ok event ∧
      event.Joins p.group ⟨member.pub, device.pub⟩ inviter.pub := by
  obtain ⟨proof, hredeem, hinviter, hverifies, hsound, hproof⟩ :=
    Invitation.redeem_issueWith sig len seed inviter member device.pub p.group
  have hsigned : (member.signDevice p.group.id device.pub).length = 64 :=
    member.length_sign sig len _
  refine ⟨.deviceAdded member.pub.bytes.toList device.pub.bytes.toList
    (member.signDevice p.group.id device.pub) (some proof), ?_, ?_, ?_, ?_⟩
  · rw [redeem, if_neg (fun h => h rfl)]
    show ((Invitation.issueWith seed inviter p.group).redeem member device.pub >>= _) = _
    rw [hredeem]
    rfl
  · simp only [Sound, Octets.length_toList, hsigned, Option.some.injEq, forall_eq']
    exact ⟨by decide, by decide, by decide, hsound⟩
  · have hkind : (Wire.Varint.encode (1 : UInt32).toNat).length = 1 :=
      Wire.Varint.length_encode_of_lt (by decide)
    have hkey : (Wire.Varint.encode 32).length = 1 := Wire.Varint.length_encode_of_lt (by decide)
    have hword : (Wire.Varint.encode 64).length = 1 := Wire.Varint.length_encode_of_lt (by decide)
    simp only [encode, deviceCodec, Codec.pair, Codec.optional, Codec.bytes, Codec.word32,
      List.length_append, List.length_cons, Octets.length_toList, hsigned]
    omega
  · intro self author hgroup
    rw [← hgroup] at hverifies ⊢
    refine statement_deviceAdded_some.2 ⟨⟨member.pub, device.pub⟩, ?_, ?_, ?_, ?_, ?_⟩
    · exact PublicKey.ofBytes_toList (member.valid_pub sig)
    · exact PublicKey.ofBytes_toList (device.valid_pub sig)
    · exact PublicKey.checkDevice_eq_ok_iff.2 (member.accepts_sign sig _)
    · exact JoinProof.check_eq_ok_iff.2 hverifies
    · rw [hinviter]

/-- The entry of an event opens to it for everyone who reads the log, if no other octets in the log
have the hash of those that were sealed. -/
theorem opens_of_append (sig : Suite.SignatureLaw) (enc : Suite.EncryptionLaw)
    (len : Suite.SignatureLength) (size : Suite.CiphertextLength) {b b' : Log.Binding}
    {store store' : Log.Store} {device : PrivateKey} {event : Event} {ref : Log.Ref}
    {n n' : Entropy} {e : Log.Entry} (sound : event.Sound) (short : event.encode.length ≤ 512)
    (appended : b.append store device event.encode n = ((.ok ref, b', store'), n'))
    (apart : ∀ d ∈ store.entries b.address,
      d.hash = .of (b.sealEntry device event.encode n).1.1 →
        d.payload = (b.sealEntry device event.encode n).1.1)
    (mem : e ∈ store'.entries b.address) (written : e.hash = ref.hash) :
    ∃ opened, Progress.openEntry b.toReader e = .ok (opened, event) ∧
      opened.sender = device.pub := by
  obtain ⟨nonce, -, hpayload⟩ := Log.Binding.payload_of_append appended apart mem written
  have hsize : (Suite.encrypt b.key nonce event.encode).length < UInt64.size :=
    Nat.lt_of_le_of_lt (Nat.le_trans (size _ _ _) (Nat.add_le_add_right short 64)) (by decide)
  have hsignature : (Envelope.signedBy device event.encode b.address.group b.clock b.key
      nonce).signature.length < UInt64.size := by
    rw [Envelope.signedBy, PrivateKey.length_sign sig len]
    decide
  have hread := Log.Binding.read_of_sound sig enc hpayload
    ⟨device.valid_pub sig, hsize, hsignature⟩
  refine ⟨⟨e.hash, e.position, device.pub, b.clock, event.encode⟩, ?_, rfl⟩
  rw [Progress.openEntry, hread]
  show (Event.ofBytes event.encode >>= _) = _
  rw [Event.ofBytes_encode sound]
  rfl

end Metadata

end SecureGroup
