import SecureGroup.Signing
import SecureGroup.Table

/-!
# Keyrings

The private keys of one replica, each filed under the identifier of its public half.  Signing and
checking go through the keyring, and ask nothing of the keys that are filed in it.
-/

namespace SecureGroup

variable [Suite]

/-- Private keys by the identifiers of their public halves. -/
structure Keyring where
  keys : Table String PrivateKey

namespace Keyring

def empty : Keyring := ⟨.empty⟩

def set (r : Keyring) (key : PrivateKey) : Keyring := ⟨r.keys.put key.pub.id key⟩

def get (r : Keyring) (id : String) : Except Error PrivateKey :=
  match r.keys.get? id with
  | some key => .ok key
  | none => .error (.unknownKey id)

def has (r : Keyring) (id : String) : Bool := r.keys.has id

def size (r : Keyring) : Nat := r.keys.size

def sign (_ : Keyring) (key : PrivateKey) (message : Bytes) : Except Error Bytes :=
  .ok (key.sign message)

/-- Checks that a signature fits a key and a message. -/
def verify (_ : Keyring) (signature : Bytes) (key : PublicKey) (message : Bytes) :
    Except Error Unit :=
  key.check message signature

end Keyring

end SecureGroup
