import SecureGroup.Crypto.Curve25519
import SecureGroup.Crypto.Sha512

/-!
# Ed25519 signatures and X25519 agreement from the same seed

Signing follows RFC 8032.  Verification is the plain equation without the cofactor: the point
`s B - k A` is compared with the first half of the signature octet by octet, so only its reduced
form can match, while the public key may be any encoding that belongs to a point.
-/

namespace SecureGroup.Ed25519

open Curve25519 (Point)

/-! ## Algorithm -/

/-- The secret scalar of a seed, not clamped, and the octets that nonces are made of. -/
def expand (seed : Octets 32) : Nat × Bytes :=
  let h := (Sha512.digest seed.toList).toList
  (Bytes.toNatBySevens (h.take 32), h.drop 32)

def encodePoint (p : Point) : Octets 32 := Octets.ofNatLE 32 p.compress

def publicKey (seed : Octets 32) : Octets 32 :=
  encodePoint (Curve25519.mulBase (Curve25519.clamp (expand seed).1))

def isPoint (key : Octets 32) : Bool := (Point.decompress? key.toNatLE).isSome

def hashToScalar (bs : Bytes) : Nat := (Sha512.digest bs).toNatLE % Curve25519.order

/-- The signature of a message: 64 octets. -/
def sign (seed : Octets 32) (message : Bytes) : Bytes :=
  let (scalar, nonceKey) := expand seed
  let a := Curve25519.clamp scalar
  let r := hashToScalar (nonceKey ++ message)
  let first := (encodePoint (Curve25519.mulBase r)).toList
  let k := hashToScalar (first ++ (publicKey seed).toList ++ message)
  first ++ Bytes.ofNatBySevens 32 ((r + k * a) % Curve25519.order)

def verify (key : Octets 32) (message signature : Bytes) : Bool :=
  let first := signature.take 32
  let s := Bytes.toNatBySevens (signature.drop 32)
  match Point.decompress? key.toNatLE with
  | none => false
  | some a =>
    s < Curve25519.order &&
      let k := hashToScalar (first ++ key.toList ++ message)
      let r := (Curve25519.mulBase s).add (Point.mul k a.neg)
      (encodePoint r).toList == first

/-- The agreement secret of a seed: the octets of its scalar, not clamped. -/
def agreementSecret (seed : Octets 32) : Octets 32 := Octets.ofNatLE 32 (expand seed).1

/-- The agreement key of a public key: its coordinate on the Montgomery form. -/
def agreementPublic (key : Octets 32) : Octets 32 :=
  match Point.decompress? key.toNatLE with
  | none => Octets.ofNatLE 32 0
  | some p => Octets.ofNatLE 32 p.montgomery

/-- X25519: the shared secret of an agreement secret and an agreement key. -/
def agree (secret other : Octets 32) : Octets 32 :=
  Octets.ofNatLE 32
    (Curve25519.ladder (Curve25519.clamp secret.toNatLE) (other.toNatLE % (1 <<< 255)))

def agreementOf (secret : Octets 32) : Octets 32 := agree secret (Octets.ofNatLE 32 9)

end SecureGroup.Ed25519
