import SecureGroup.Envelope
import SecureGroup.Keyring
import SecureGroup.Log.Store

/-!
# Reading and writing one log of a group

A reader holds the key of the log: it checks who wrote an entry before it decrypts it.  A binding
also writes: it numbers the entries it seals, gives up on an acknowledgement after some time, and
refuses to append once it is closed.  A replica signs and checks through its keyring; that is the
same with every keyring (`Reader.readThrough_eq`, `Binding.sealThrough_eq`).
-/

namespace SecureGroup.Log

variable [Suite]

/-- What it takes to read a log. -/
structure Reader where
  address : Address
  key : Octets 32

/-- An entry that was checked and decrypted. -/
structure Opened where
  hash : EntryHash
  position : Nat
  sender : PublicKey
  clock : UInt64
  payload : Bytes
deriving DecidableEq

def Reader.of (g : Group) (kind : Kind) : Reader := ⟨⟨g.id, kind⟩, g.logKey kind⟩

/-- Checks an entry and decrypts it. -/
def Reader.read (r : Reader) (e : Entry) : Except Error Opened := do
  let envelope ← Envelope.ofBytes e.payload
  let payload ← envelope.reveal r.address.group r.key
  return ⟨e.hash, e.position, envelope.sender, envelope.clock, payload⟩

/-- Checks an entry through a keyring and decrypts it. -/
def Reader.readThrough (r : Reader) (ring : Keyring) (e : Entry) : Except Error Opened := do
  let envelope ← Envelope.ofBytes e.payload
  let payload ← envelope.revealWith r.address.group r.key fun sender message signature =>
    ring.verify signature sender message
  return ⟨e.hash, e.position, envelope.sender, envelope.clock, payload⟩

/-- A writer of one log: how many entries it has sealed, how long it waits for an acknowledgement
in milliseconds, and whether it is closed. -/
structure Binding extends Reader where
  clock : UInt64
  timeout : Nat
  closed : Bool

namespace Binding

def of (g : Group) (kind : Kind) (timeout : Nat) : Binding := ⟨.of g kind, 0, timeout, false⟩

/-- Seals a payload into the octets of an entry under a given nonce. -/
def sealWith (b : Binding) (device : PrivateKey) (payload : Bytes) (nonce : Octets 12) :
    Bytes × Binding :=
  let e := Envelope.signedBy device payload b.address.group b.clock b.key nonce
  (Envelope.codec.encode e, { b with clock := b.clock + 1 })

def sealEntry (b : Binding) (device : PrivateKey) (payload : Bytes) : Draw (Bytes × Binding) := do
  return b.sealWith device payload (← Draw.octets 12)

/-- Seals a payload into the octets of an entry, signed through a keyring.  The number is used up
even if the keyring refuses. -/
def sealThrough (b : Binding) (ring : Keyring) (device : PrivateKey) (payload : Bytes)
    (nonce : Octets 12) : Except Error Bytes × Binding :=
  let e := Envelope.sealWith payload b.address.group device.pub b.clock b.key nonce
    (ring.sign device)
  (e.map Envelope.codec.encode, { b with clock := b.clock + 1 })

/-- Hands the octets of an entry to the store; too late an acknowledgement means that the entry is
not added. -/
def submit (b : Binding) (s : Store) (octets : Bytes) : Except Error Ref × Store :=
  if s.wait ≤ b.timeout then
    let (ref, s) := s.commit b.address octets
    (.ok ref, s)
  else (.error (.timeout b.timeout), s)

def append (b : Binding) (s : Store) (device : PrivateKey) (payload : Bytes) :
    Draw (Except Error Ref × Binding × Store) :=
  if b.closed then return (.error .closed, b, s)
  else do
    let (octets, b) ← b.sealEntry device payload
    let (result, s) := b.submit s octets
    return (result, b, s)

/-- The binding that refuses to append. -/
def close (b : Binding) : Binding := { b with closed := true }

end Binding

/-! ## Lemmas -/

/-- Which keyring checks an entry makes no difference. -/
theorem Reader.readThrough_eq (r : Reader) (ring : Keyring) (e : Entry) :
    r.readThrough ring e = r.read e := by
  simp only [readThrough, read, Envelope.reveal_eq_revealWith, Keyring.verify]

/-- No keyring refuses to sign, and which of them signs makes no difference. -/
theorem Binding.sealThrough_eq (b : Binding) (ring : Keyring) (device : PrivateKey)
    (payload : Bytes) (nonce : Octets 12) :
    b.sealThrough ring device payload nonce =
      (.ok (b.sealWith device payload nonce).1, (b.sealWith device payload nonce).2) := by
  have hsign : ring.sign device = fun data => .ok (device.sign data) := rfl
  rw [sealThrough, hsign, Envelope.sealWith_sign]
  rfl

end SecureGroup.Log
