import SecureGroup.Crypto.Sha256

/-!
# HMAC and HKDF over SHA-256

`Hkdf.derive` is RFC 5869 without a salt and with one block of output: enough for a key of 32
octets.
-/

namespace SecureGroup

/-! ## Algorithm -/

/-- The words of a key of HMAC, which is filled up to one block, or hashed first when it is longer.
-/
def Hmac.keyWords (key : Bytes) : List UInt32 :=
  let k := if key.length ≤ 64 then key else (Sha256.digest key).toList
  Bytes.words32BE (k ++ List.replicate (64 - k.length) 0)

/-- The state after the block of a key, each of whose words is masked. -/
def Hmac.start (mask : UInt32) (key : List UInt32) : Sha256.State :=
  Sha256.absorb Sha256.initial (key.map (· ^^^ mask))

def Hmac.mac (key message : Bytes) : Octets 32 :=
  let k := keyWords key
  let inner := Sha256.finish (start 0x36363636 k) 64 message
  Sha256.finish (start 0x5c5c5c5c k) 64 inner.toList

/-- The key of 32 octets that HKDF-SHA-256 derives from key material and a label. -/
def Hkdf.derive (material label : Bytes) : Octets 32 :=
  let pseudorandom := Hmac.mac (List.replicate 32 0) material
  Hmac.mac pseudorandom.toList (label ++ [1])

end SecureGroup
