import SecureGroup.Metadata.Index

/-!
# How things fail

Every error has a kind, and every function of the replay fails with a few kinds only
(`Raises`).  An entry that cannot be opened, and an event that is wrong by itself, never fail with
one of the kinds that more of the log may remove (`Progress.raises_openEntry`,
`Event.raises_statement`); only a roster does that, when a statement cannot be enrolled yet
(`Roster.raises_enrol`).  A replay goes on after each of these kinds (`recoverable_of_raises`).
-/

namespace SecureGroup

variable {α β : Type} {kinds kinds' : List Error.Kind} {cause : Error} {x : Except Error α}

/-- A computation fails with some kinds of errors only. -/
def Raises (kinds : List Error.Kind) (x : Except Error α) : Prop :=
  ∀ cause, x = .error cause → cause.kind ∈ kinds

/-- The kinds of errors that more of the log may remove. -/
def Error.missingKinds : List Error.Kind := [.unknownMember, .unknownDevice, .notAdmin]

/-- The kinds of errors of an entry that cannot be opened. -/
def Error.openingKinds : List Error.Kind :=
  [.deserialization, .envelopeVersion, .signatureInvalid, .crypto, .decryptionFailed]

/-- The kinds of errors of an event that is wrong by itself. -/
def Error.inherentKinds : List Error.Kind :=
  [.deserialization, .signatureInvalid, .crypto, .invalidInvitation, .decryptionFailed, .internal]

theorem Error.isMissingDependency_iff_kind :
    cause.isMissingDependency = true ↔ cause.kind ∈ missingKinds := by
  cases cause <;> simp [isMissingDependency, kind, missingKinds]

/-- A replay goes on after an error of some kinds, if it goes on after each of them. -/
theorem recoverable_of_raises (h : Raises kinds x) (hx : x = .error cause)
    (all : ∀ kind ∈ kinds, kind.recoverable = true) : cause.recoverable = true :=
  all _ (h cause hx)

/-- An error is not of the kinds that more of the log may remove. -/
theorem not_missing_of_raises (h : Raises kinds x) (hx : x = .error cause)
    (apart : ∀ kind ∈ kinds, kind ∉ Error.missingKinds) : cause.isMissingDependency = false := by
  rw [← Bool.not_eq_true, Error.isMissingDependency_iff_kind]
  exact apart _ (h cause hx)

namespace Raises

theorem ok (a : α) : Raises kinds (.ok a) := fun cause h => by cases h

theorem error (kind : Error.Kind) (hcause : cause.kind = kind) (h : kind ∈ kinds) :
    Raises kinds (.error cause : Except Error α) := by
  intro cause' heq
  obtain rfl := Except.error.inj heq
  exact hcause ▸ h

theorem mono (h : Raises kinds x) (sub : kinds ⊆ kinds') : Raises kinds' x :=
  fun cause hcause => sub (h cause hcause)

theorem bind {f : α → Except Error β} (hx : Raises kinds x) (hf : ∀ a, Raises kinds (f a)) :
    Raises kinds (x >>= f) := by
  cases x with
  | error cause => exact error _ rfl (hx cause rfl)
  | ok a => exact hf a

theorem map (hx : Raises kinds x) (f : α → β) : Raises kinds (x.map f) := by
  cases x with
  | error cause => exact error _ rfl (hx cause rfl)
  | ok a => exact ok (f a)

/-- Octets that cannot be read are one kind of error. -/
theorem undecodable (format : WireFormat) (x : Except Wire.Error α) :
    Raises [.deserialization] (x.mapError (.undecodable format)) := by
  cases x with
  | error fault => exact error .deserialization rfl (by decide)
  | ok a => exact ok a

end Raises

variable [Suite]

/-! ## Keys, signatures and boxes -/

open Raises

theorem PublicKey.raises_ofBytes (bs : Bytes) : Raises [.deserialization] (ofBytes bs) := by
  unfold ofBytes
  split
  · split
    · exact ok _
    · exact error .deserialization rfl (by decide)
  · exact error .deserialization rfl (by decide)

theorem PublicKey.raises_verify (key : PublicKey) (message signature : Bytes) :
    Raises [.crypto] (key.verify message signature) := by
  unfold verify
  split
  · exact ok _
  · exact error .crypto rfl (by decide)

theorem PublicKey.raises_check (key : PublicKey) (message signature : Bytes) :
    Raises [.crypto, .signatureInvalid] (key.check message signature) := by
  have hverify := key.raises_verify message signature
  unfold check
  split
  · exact ok _
  · exact error .signatureInvalid rfl (by decide)
  · next cause h => exact error .crypto (List.mem_singleton.1 (hverify cause h)) (by decide)

theorem PublicKey.raises_checkDevice (member device : PublicKey) (group : GroupId)
    (signature : Bytes) :
    Raises [.crypto, .signatureInvalid] (member.checkDevice group device signature) := by
  have hverify := member.raises_verify (Purpose.device.statement group device) signature
  unfold checkDevice
  split
  · exact ok _
  · exact error .signatureInvalid rfl (by decide)
  · next cause h => exact error .crypto (List.mem_singleton.1 (hverify cause h)) (by decide)

theorem PublicKey.raises_checkFirstMember (key member : PublicKey) (signature : Bytes) :
    Raises [.crypto, .signatureInvalid] (key.checkFirstMember member signature) := by
  have hverify := key.raises_verify (Purpose.firstMember.statement (.ofKey key) member) signature
  unfold checkFirstMember
  split
  · exact ok _
  · exact error .signatureInvalid rfl (by decide)
  · next cause h => exact error .crypto (List.mem_singleton.1 (hverify cause h)) (by decide)

theorem JoinProof.raises_check (proof : JoinProof) (group : GroupId) (member device : PublicKey) :
    Raises [.invalidInvitation] (proof.check group member device) := by
  unfold check
  split
  · exact error .invalidInvitation rfl (by decide)
  · split
    · exact error .invalidInvitation rfl (by decide)
    · split
      · exact error .invalidInvitation rfl (by decide)
      · exact ok _

theorem SecretBox.raises_openWith (key : Octets 32) (nonce : Octets 12) (ciphertext : Bytes) :
    Raises [.decryptionFailed] (openWith key nonce ciphertext) := by
  unfold openWith
  split
  · exact ok _
  · exact error .decryptionFailed rfl (by decide)

theorem SecretBox.raises_reveal (key : Octets 32) (box : Bytes) :
    Raises [.decryptionFailed] (reveal key box) := by
  unfold reveal
  split
  · exact raises_openWith _ _ _
  · exact error .decryptionFailed rfl (by decide)

omit [Suite] in
theorem ChainKey.raises_ofBytes (bs : Bytes) : Raises [.deserialization] (ofBytes bs) :=
  undecodable _ _

/-! ## Entries -/

theorem Envelope.raises_reveal (e : Envelope) (group : GroupId) (key : Octets 32) :
    Raises Error.openingKinds (e.reveal group key) := by
  have hcheck : Raises Error.openingKinds (e.check group) := by
    unfold check
    split
    · exact error .envelopeVersion rfl (by decide)
    · exact (PublicKey.raises_check _ _ _).mono (by decide)
  exact hcheck.bind fun _ => (SecretBox.raises_openWith _ _ _).mono (by decide)

theorem Log.Reader.raises_read (reader : Log.Reader) (e : Log.Entry) :
    Raises Error.openingKinds (reader.read e) := by
  have hparse : Raises [.deserialization] (Envelope.ofBytes e.payload) := undecodable _ _
  exact (hparse.mono (by decide)).bind fun envelope =>
    (envelope.raises_reveal _ _).bind fun payload => ok _

namespace Metadata

/-- Opening an entry fails with few kinds of errors. -/
theorem Progress.raises_openEntry (reader : Log.Reader) (e : Log.Entry) :
    Raises Error.openingKinds (openEntry reader e) := by
  have hparse : ∀ bs, Raises [.deserialization] (Event.ofBytes bs) := fun _ => undecodable _ _
  exact (reader.raises_read e).bind fun opened =>
    ((hparse opened.payload).mono (by decide)).bind fun event => ok _

/-! ## Events -/

theorem raises_openSecret (p : Participant) (chainId : UInt64) (secret : SealedSecret) :
    Raises Error.inherentKinds (openSecret p chainId secret) := by
  have hreveal : Raises [.decryptionFailed] (secret.reveal p.own.member) :=
    SecretBox.raises_reveal _ _
  refine (hreveal.mono (by decide)).bind fun bs =>
    ((ChainKey.raises_ofBytes bs).mono (by decide)).bind fun chain => ?_
  split
  · exact error .internal rfl (by decide)
  · exact ok chain

/-- What an event says by itself fails with few kinds of errors. -/
theorem Event.raises_statement (p : Participant) (author : PublicKey) (event : Event) :
    Raises Error.inherentKinds (event.statement p author) := by
  have hkey : ∀ bs, Raises Error.inherentKinds (PublicKey.ofBytes bs) :=
    fun bs => (PublicKey.raises_ofBytes bs).mono (by decide)
  have hdevice : ∀ (member device : PublicKey) signature,
      Raises Error.inherentKinds (member.checkDevice p.group.id device signature) :=
    fun member device signature =>
      (member.raises_checkDevice device _ signature).mono (by decide)
  cases event with
  | memberAnnounced mb db ms gs =>
    refine (hkey mb).bind fun member => (hkey db).bind fun device => ?_
    split
    · exact error .signatureInvalid rfl (by decide)
    · exact ((PublicKey.raises_checkFirstMember _ _ _).mono (by decide)).bind fun _ =>
        (hdevice _ _ _).bind fun _ => ok _
  | deviceAdded mb db ms proof =>
    refine (hkey mb).bind fun member => (hkey db).bind fun device =>
      (hdevice _ _ _).bind fun _ => ?_
    cases proof with
    | none => exact ok _
    | some proof => exact ((proof.raises_check _ _ _).mono (by decide)).bind fun _ => ok _
  | secretAdded db mb chainId secret =>
    refine (hkey mb).bind fun recipient => (hkey db).bind fun device => ?_
    by_cases hauthor : author = device
    · rw [if_neg (not_not_intro hauthor)]
      split
      · exact (raises_openSecret p chainId secret).bind fun chain => ok _
      · exact ok _
    · rw [if_pos hauthor]
      exact error .signatureInvalid rfl (by decide)
  | adminGranted mb => exact (hkey mb).bind fun member => ok _

/-! ## Rosters and states -/

omit [Suite]

theorem Roster.raises_register (r : Roster) (pair : MemberDevice) :
    Raises [.internal] (r.register pair) := by
  unfold register
  split
  · exact ok _
  · split
    · exact ok _
    · exact error .internal rfl (by decide)

/-- Enrolling a statement fails because someone is not known, or for good. -/
theorem Roster.raises_enrol (r : Roster) (author : PublicKey) (said : Statement) :
    Raises (.internal :: Error.missingKinds) (r.enrol author said) := by
  have hregister : ∀ pair, Raises (.internal :: Error.missingKinds) (r.register pair) :=
    fun pair => (r.raises_register pair).mono (by decide)
  cases said with
  | announced pair =>
    simp only [enrol]
    split
    · exact error .internal rfl (by decide)
    · exact (hregister pair).map _
  | joined pair inviter =>
    simp only [enrol]
    split
    · exact hregister pair
    · exact error .unknownMember rfl (by decide)
  | extended pair =>
    simp only [enrol]
    split
    · exact hregister pair
    · exact error .unknownMember rfl (by decide)
  | sent recipient chainId chain => exact ok _
  | granted member =>
    simp only [enrol]
    split
    · exact error .unknownDevice rfl (by decide)
    · split
      · exact error .notAdmin rfl (by decide)
      · split
        · exact error .unknownMember rfl (by decide)
        · exact ok _

end Metadata

end SecureGroup
