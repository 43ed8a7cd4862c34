import SecureGroup.Group

/-!
# Envelopes

The container of every log entry: a payload encrypted under a key of the group's log, and the
signature of the device that wrote it.  The signature covers everything, the group included, so
it is checked before anything is decrypted.  How a signature is made and checked is left to a
function (`sealWith`, `revealWith`); `signedBy` and `reveal` do it with the keys themselves.
-/

namespace SecureGroup

variable [Suite]

/-- A signed and encrypted payload. -/
@[ext]
structure Envelope where
  version : UInt8
  sender : PublicKey
  clock : UInt64
  nonce : Octets 12
  ciphertext : Bytes
  signature : Bytes
deriving DecidableEq

namespace Envelope

/-- The version that is written and understood. -/
def currentVersion : UInt8 := 1

/-- The octets that the signature covers. -/
def signedData (e : Envelope) (group : GroupId) : Bytes :=
  e.version :: group.bytes.toList ++ e.sender.bytes.toList ++ Bytes.ofUInt64LE e.clock ++
    e.nonce.toList ++ Bytes.ofNatLE 4 e.ciphertext.length ++ e.ciphertext

/-- The envelope of a payload before it is signed. -/
def unsigned (payload : Bytes) (sender : PublicKey) (clock : UInt64) (key : Octets 32)
    (nonce : Octets 12) : Envelope :=
  ⟨currentVersion, sender, clock, nonce, Suite.encrypt key nonce payload, []⟩

/-- The envelope of a payload, signed by a function that may refuse. -/
def sealWith (payload : Bytes) (group : GroupId) (sender : PublicKey) (clock : UInt64)
    (key : Octets 32) (nonce : Octets 12) (sign : Bytes → Except Error Bytes) :
    Except Error Envelope :=
  let e := unsigned payload sender clock key nonce
  (sign (e.signedData group)).map fun signature => { e with signature }

/-- The envelope of a payload, signed by the device that wrote it. -/
def signedBy (device : PrivateKey) (payload : Bytes) (group : GroupId) (clock : UInt64)
    (key : Octets 32) (nonce : Octets 12) : Envelope :=
  let e := unsigned payload device.pub clock key nonce
  { e with signature := device.sign (e.signedData group) }

def check (e : Envelope) (group : GroupId) : Except Error Unit :=
  if e.version ≠ currentVersion then .error (.envelopeVersion e.version)
  else e.sender.check (e.signedData group) e.signature

/-- The payload of an envelope that passes the check. -/
def reveal (e : Envelope) (group : GroupId) (key : Octets 32) : Except Error Bytes := do
  e.check group
  SecretBox.openWith key e.nonce e.ciphertext

/-- Checks the version, and the signature by a function that may refuse it. -/
def checkWith (e : Envelope) (group : GroupId)
    (verify : PublicKey → Bytes → Bytes → Except Error Unit) : Except Error Unit :=
  if e.version ≠ currentVersion then .error (.envelopeVersion e.version)
  else verify e.sender (e.signedData group) e.signature

/-- The payload of an envelope whose signature a function accepts. -/
def revealWith (e : Envelope) (group : GroupId) (key : Octets 32)
    (verify : PublicKey → Bytes → Bytes → Except Error Unit) : Except Error Bytes := do
  e.checkWith group verify
  SecretBox.openWith key e.nonce e.ciphertext

def codec : Codec Envelope :=
  (Codec.pair Codec.octet (Codec.pair PublicKey.codec (Codec.pair Codec.word64
    (Codec.pair (Codec.octets 12) (Codec.pair Codec.bytes Codec.bytes))))).convert
    (fun e => (e.version, e.sender, e.clock, e.nonce, e.ciphertext, e.signature))
    fun (v, s, c, n, t, g) => some ⟨v, s, c, n, t, g⟩

def ofBytes (bs : Bytes) : Except Error Envelope :=
  (codec.read bs).mapError (.undecodable .envelope)

/-! ## Lemmas -/

/-- An envelope is revealed by checking its signature under the key of its sender. -/
theorem reveal_eq_revealWith (e : Envelope) (group : GroupId) (key : Octets 32) :
    e.reveal group key = e.revealWith group key PublicKey.check := rfl

/-- Signing with a device is sealing by a function that never refuses. -/
theorem sealWith_sign (device : PrivateKey) (payload : Bytes) (group : GroupId) (clock : UInt64)
    (key : Octets 32) (nonce : Octets 12) :
    sealWith payload group device.pub clock key nonce (fun data => .ok (device.sign data)) =
      .ok (signedBy device payload group clock key nonce) := rfl

end Envelope

end SecureGroup
