import SecureGroup.Proofs.Reached
import SecureGroup.Proofs.Sealing

/-!
# What one binding seals, every other opens

Two bindings of one log of a group share nothing but the group and the kind of the log.  Each has a
history of its own: payloads that were sealed or appended through it, to a store that was fast or
slow, and perhaps a `close`.  All that this history leaves is how many payloads were sealed
(`Log.Binding.Used`), and that number is what the next envelope carries.  So whatever one binding
seals, another one opens to the same payload, device and number, wherever the entry stands and
whatever keyrings they work with (`Log.Binding.Used.opens_sealed`).

Opening is guarded: an envelope of another version is refused for it, and one whose signature the
given function refuses is refused for that reason, under every decryption that one might put in the
place of the suite's (`Suite.decryptingBy`, `Envelope.revealWith_of_refused`).
-/

namespace SecureGroup

/-! ## The guard before decryption -/

@[reducible]
def Suite.decryptingBy [Suite] (decrypt : Octets 32 → Octets 12 → Bytes → Option Bytes) : Suite :=
  { (inferInstance : Suite) with decrypt }

namespace Envelope

variable {e : Envelope} {group : GroupId} {cause : Error}
  {verify : PublicKey → Bytes → Bytes → Except Error Unit}

theorem checkWith_of_version_ne (h : e.version ≠ currentVersion) :
    e.checkWith group verify = .error (.envelopeVersion e.version) :=
  if_pos h

theorem checkWith_of_version_eq (h : e.version = currentVersion) :
    e.checkWith group verify = verify e.sender (e.signedData group) e.signature :=
  if_neg fun hne => hne h

/-- An envelope that does not pass the check is refused for the same reason whatever decryption
would make of it: it is not decrypted. -/
theorem revealWith_of_refused [Suite] (h : e.checkWith group verify = .error cause)
    (decrypt : Octets 32 → Octets 12 → Bytes → Option Bytes) (key : Octets 32) :
    @revealWith (Suite.decryptingBy decrypt) e group key verify = .error cause := by
  let _ := Suite.decryptingBy decrypt
  show (e.checkWith group verify >>= fun _ => SecretBox.openWith key e.nonce e.ciphertext) = _
  rw [h]
  rfl

end Envelope

/-! ## Bindings with a history -/

namespace Log.Binding

variable [Suite] {g : Group} {kind : Kind} {b : Binding} {n : Nat}

/-- A binding of one of a group's logs, through which so many payloads were sealed. -/
inductive Used (g : Group) (kind : Kind) : Nat → Binding → Prop
  | new (timeout : Nat) : Used g kind 0 (.of g kind timeout)
  /-- A payload is sealed. -/
  | sealed {n : Nat} {b : Binding} (before : Used g kind n b) (device : PrivateKey)
      (payload : Bytes) (drawn : Entropy) :
      Used g kind (n + 1) (b.sealEntry device payload drawn).1.2
  /-- A payload is sealed and handed to a store, which may take too long to acknowledge it. -/
  | appended {n : Nat} {b : Binding} (before : Used g kind n b) (isOpen : b.closed = false)
      (store : Store) (device : PrivateKey) (payload : Bytes) (drawn : Entropy) :
      Used g kind (n + 1) (b.append store device payload drawn).1.2.1
  /-- An append is refused, and nothing is sealed. -/
  | refused {n : Nat} {b : Binding} (before : Used g kind n b) (isClosed : b.closed = true)
      (store : Store) (device : PrivateKey) (payload : Bytes) (drawn : Entropy) :
      Used g kind n (b.append store device payload drawn).1.2.1
  | closed {n : Nat} {b : Binding} (before : Used g kind n b) : Used g kind n b.close

/-- What an append leaves of a binding: nothing happens to a closed one, and an open one has sealed
a payload. -/
theorem binding_append (b : Binding) (store : Store) (device : PrivateKey) (payload : Bytes)
    (drawn : Entropy) : (b.append store device payload drawn).1.2.1 =
      if b.closed then b else (b.sealEntry device payload drawn).1.2 := by
  unfold append
  split <;> rfl

theorem Used.toReader_eq (h : Used g kind n b) : b.toReader = .of g kind := by
  induction h with
  | new timeout => rfl
  | sealed before device payload drawn ih => exact ih
  | appended before isOpen store device payload drawn ih =>
    rw [binding_append, isOpen]
    exact ih
  | refused before isClosed store device payload drawn ih =>
    rw [binding_append, isClosed]
    exact ih
  | closed before ih => exact ih

/-- The number of a binding is how many payloads were sealed through it, as a word counts them. -/
theorem Used.clock_eq (h : Used g kind n b) : b.clock = .ofNat n := by
  have hnext : ∀ {n : Nat} {b : Binding}, b.clock = .ofNat n → b.clock + 1 = .ofNat (n + 1) := by
    intro n b hclock
    rw [hclock, UInt64.ofNat_add]
    rfl
  induction h with
  | new timeout => rfl
  | sealed before device payload drawn ih => exact hnext ih
  | appended before isOpen store device payload drawn ih =>
    rw [binding_append, isOpen]
    exact hnext ih
  | refused before isClosed store device payload drawn ih =>
    rw [binding_append, isClosed]
    exact ih
  | closed before ih => exact ih

/-- What is sealed through one binding of a log, with any keyring, another one opens wherever it
stands, with any keyring: to its hash and place, the device, the number of payloads that the first
binding had sealed before, and the payload.  An envelope of another version is refused for it.  One
of this version whose signature is refused is refused for the same reason, and not decrypted. -/
theorem Used.opens_sealed (sig : Suite.SignatureLaw) (enc : Suite.EncryptionLaw) :
    (∀ (g : Group) (kind : Kind) (n m : Nat) (b b' : Binding),
      Used g kind n b → Used g kind m b' →
        ∀ (ring ring' : Keyring) (device : PrivateKey) (payload : Bytes) (nonce : Octets 12)
          (position : Nat), ∃ octets,
            (b.sealThrough ring device payload nonce).1 = .ok octets ∧
            (octets.length < UInt64.size →
              b'.toReader.readThrough ring' (.at position octets) =
                .ok ⟨.of octets, position, device.pub, .ofNat n, payload⟩)) ∧
    ∀ (e : Envelope) (group : GroupId)
      (verify : PublicKey → Bytes → Bytes → Except Error Unit),
      (e.version ≠ Envelope.currentVersion →
        ∀ key, e.revealWith group key verify = .error (.envelopeVersion e.version)) ∧
      (e.version = Envelope.currentVersion →
        ∀ cause, verify e.sender (e.signedData group) e.signature = .error cause →
          ∀ decrypt key,
            @Envelope.revealWith (Suite.decryptingBy decrypt) e group key verify =
              .error cause) := by
  constructor
  · intro g kind n m b b' hb hb' ring ring' device payload nonce position
    refine ⟨(b.sealWith device payload nonce).1, ?_, fun hfits => ?_⟩
    · rw [sealThrough_eq]
    · have hreader : b'.toReader = b.toReader := hb'.toReader_eq.trans hb.toReader_eq.symm
      have hread := read_sealWith sig enc
        (e := .at position (b.sealWith device payload nonce).1) rfl hfits
      rw [Reader.readThrough_eq, hreader, hread, hb.clock_eq]
      rfl
  · intro e group verify
    constructor
    · intro hversion key
      exact Envelope.revealWith_of_refused (Envelope.checkWith_of_version_ne hversion)
        Suite.decrypt key
    · intro hversion cause hrefused
      refine Envelope.revealWith_of_refused ?_
      rw [Envelope.checkWith_of_version_eq hversion, hrefused]

end Log.Binding

end SecureGroup

namespace SecureGroup.Log.Binding

attribute [local instance] Suite.plain

/-- A binding that lost an append to a slow store and was closed still seals, under number one.  A
fresh binding with other keys opens it.  The same envelope says its version when that is changed,
and is refused where no signature is accepted. -/
theorem opens_sealed_after_close :
    let slow : Store := { Store.empty with delay := some 10 }
    let b := ((of Plain.group .messages 5).append slow (Plain.key 2) [7] (.ofSeed 0)).1.2.1.close
    let b' := of Plain.group .messages 9
    let e := Envelope.signedBy (Plain.key 2) [8] Plain.group.id 1 b.key (.fit 12 [3])
    (∃ octets, (b.sealThrough .empty (Plain.key 2) [8] (.fit 12 [3])).1 = .ok octets ∧
      b'.toReader.readThrough (Keyring.empty.set (Plain.key 6)) (.at 5 octets) =
        .ok ⟨.of octets, 5, (Plain.key 2).pub, 1, [8]⟩) ∧
    ({ e with version := 2 } : Envelope).revealWith Plain.group.id b.key PublicKey.check =
      .error (.envelopeVersion 2) ∧
    e.revealWith Plain.group.id b.key (fun _ _ _ => .error .malformedSignature) =
      .error .malformedSignature := by
  intro slow b b' e
  have hb : Used Plain.group .messages 1 b :=
    .closed (.appended (.new 5) rfl slow (Plain.key 2) [7] (.ofSeed 0))
  have hb' : Used Plain.group .messages 0 b' := .new 9
  obtain ⟨hopens, hguard⟩ :=
    Used.opens_sealed Suite.plain_signatureLaw Suite.plain_encryptionLaw
  obtain ⟨octets, hsealed, hopened⟩ := hopens Plain.group .messages 1 0 b b' hb hb' .empty
    (Keyring.empty.set (Plain.key 6)) (Plain.key 2) [8] (.fit 12 [3]) 5
  have hoctets : octets = (b.sealWith (Plain.key 2) [8] (.fit 12 [3])).1 := by
    rw [sealThrough_eq] at hsealed
    exact (Except.ok.inj hsealed).symm
  have hfits : octets.length < UInt64.size := by
    rw [hoctets]
    decide +kernel
  refine ⟨⟨octets, hsealed, hopened hfits⟩, ?_, ?_⟩
  · exact (hguard { e with version := 2 } Plain.group.id _).1 (by decide) b.key
  · exact (hguard e Plain.group.id _).2 rfl .malformedSignature rfl Suite.decrypt b.key

end SecureGroup.Log.Binding
