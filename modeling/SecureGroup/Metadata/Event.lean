import SecureGroup.Invitation

/-!
# Membership events

What an entry of the metadata log says.  Keys are kept as the octets that were written, so that an
event with a malformed key can still be read.
-/

namespace SecureGroup.Metadata

variable [Suite]

/-- The payload of an entry of the metadata log. -/
inductive Event where
  /-- The creator of the group is its first member and admin. -/
  | memberAnnounced (member device memberSignature groupSignature : Bytes)
  /-- A device of a member, which may be new by invitation. -/
  | deviceAdded (member device memberSignature : Bytes) (proof : Option JoinProof)
  /-- A chain key of a device, sealed for a member. -/
  | secretAdded (device recipient : Bytes) (chainId : UInt64) (secret : SealedSecret)
  /-- A member becomes an admin. -/
  | adminGranted (member : Bytes)
deriving DecidableEq

namespace Event

def kind : Event → String
  | memberAnnounced .. => "initial_member_announced"
  | deviceAdded .. => "member_device_added"
  | secretAdded .. => "device_secret_added"
  | adminGranted .. => "admin_role_granted"

def announcementCodec : Codec (Bytes × Bytes × Bytes × Bytes) :=
  Codec.pair Codec.bytes (Codec.pair Codec.bytes (Codec.pair Codec.bytes Codec.bytes))

/-- The fields of a device that is added on the wire. -/
def deviceCodec : Codec (Bytes × Bytes × Bytes × Option JoinProof) :=
  Codec.pair Codec.bytes (Codec.pair Codec.bytes (Codec.pair Codec.bytes
    (Codec.optional JoinProof.codec)))

def secretCodec : Codec (Bytes × Bytes × UInt64 × SealedSecret) :=
  Codec.pair Codec.bytes (Codec.pair Codec.bytes (Codec.pair Codec.word64 SealedSecret.codec))

/-- The octets of an event: the number of its kind, and its fields. -/
def encode : Event → Bytes
  | memberAnnounced m d s g => Codec.word32.encode 0 ++ announcementCodec.encode (m, d, s, g)
  | deviceAdded m d s p => Codec.word32.encode 1 ++ deviceCodec.encode (m, d, s, p)
  | secretAdded d r i s => Codec.word32.encode 2 ++ secretCodec.encode (d, r, i, s)
  | adminGranted m => Codec.word32.encode 3 ++ Codec.bytes.encode m

/-- Reads the fields of an event whose kind has a number. -/
def decodeFields (number : UInt32) (bs : Bytes) : Except Wire.Error (Event × Bytes) :=
  if number = 0 then
    (announcementCodec.decode bs).map fun ((m, d, s, g), rest) => (memberAnnounced m d s g, rest)
  else if number = 1 then
    (deviceCodec.decode bs).map fun ((m, d, s, p), rest) => (deviceAdded m d s p, rest)
  else if number = 2 then
    (secretCodec.decode bs).map fun ((d, r, i, s), rest) => (secretAdded d r i s, rest)
  else if number = 3 then
    (Codec.bytes.decode bs).map fun (m, rest) => (adminGranted m, rest)
  else .error .value

def codec : Codec Event where
  encode := encode
  decode bs := do
    let (number, rest) ← Codec.word32.decode bs
    decodeFields number rest

def ofBytes (bs : Bytes) : Except Error Event :=
  (codec.read bs).mapError (.undecodable .event)

end Event

end SecureGroup.Metadata
