import SecureGroup.Base58
import SecureGroup.Bytes.Hex
import SecureGroup.Entropy
import SecureGroup.Suite

/-!
# Keys and identifiers

Members, devices and groups are known by their public keys.  A public key is the 32 octets that
were given for it: equality and order are those of the octets.
-/

namespace SecureGroup

/-- A public key as it was given. -/
@[ext]
structure PublicKey where
  bytes : Octets 32
deriving DecidableEq

/-- A private key: the seed that everything secret is derived from. -/
structure PrivateKey where
  seed : Octets 32
deriving DecidableEq

/-- A group is identified by the octets of its public key. -/
structure GroupId where
  bytes : Octets 32
deriving DecidableEq

namespace PublicKey

/-- The key in hexadecimal; a keyring files its private half under this text. -/
def id (k : PublicKey) : String := k.bytes.toList.toHex

/-- The first six octets in hexadecimal, as messages name the key. -/
def short (k : PublicKey) : String := Bytes.toHex (k.bytes.toList.take 6)

/-- The key with its type. -/
def debug (k : PublicKey) : String := "PubKey(" ++ k.id ++ ")"

def le (a b : PublicKey) : Bool := a.bytes.le b.bytes

def sort (ks : List PublicKey) : List PublicKey := ks.mergeSort le

/-- Whether the key is one of the suite's. -/
def Valid [Suite] (k : PublicKey) : Prop := Suite.isPublicKey k.bytes = true

end PublicKey

namespace PrivateKey

def pub [Suite] (k : PrivateKey) : PublicKey := ⟨Suite.publicKey k.seed⟩

def sign [Suite] (k : PrivateKey) (message : Bytes) : Bytes := Suite.sign k.seed message

def generate : Draw PrivateKey := do return ⟨← Draw.octets 32⟩

/-- The public half, with the type of the key. -/
def debug [Suite] (k : PrivateKey) : String :=
  "PrivKey \x7b public: " ++ k.pub.debug ++ ", .. \x7d"

end PrivateKey

namespace GroupId

/-- The identifier of the group with this public key. -/
def ofKey (k : PublicKey) : GroupId := ⟨k.bytes⟩

def toBase58 (g : GroupId) : String := Base58.encode g.bytes.toList

/-- The beginning of the identifier, as messages name the group. -/
def name (g : GroupId) : String := "group_" ++ Base58.encode (g.bytes.toList.take 8)

/-- The octets of the identifier, with its type. -/
def debug (g : GroupId) : String :=
  "GroupId([" ++ ", ".intercalate (g.bytes.toList.map fun b => toString b.toNat) ++ "])"

end GroupId

end SecureGroup
