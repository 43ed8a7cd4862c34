import SecureGroup.Error
import SecureGroup.Wire.Codec

/-!
# Reading keys and checking signatures

`PublicKey.ofBytes` reads a key, `PublicKey.verify` tells a signature that does not fit from one
that is none, and `PublicKey.codec` is the form of a key on the wire.
-/

namespace SecureGroup

variable [Suite]

/-! ## Algorithm -/

def PrivateKey.ofBytes (bs : Bytes) : Except Error PrivateKey :=
  match Octets.ofList? 32 bs with
  | some seed => .ok ⟨seed⟩
  | none => .error (.privateKeyLength bs.length)

namespace PublicKey

/-- The public key with these octets, if they are one. -/
def ofBytes (bs : Bytes) : Except Error PublicKey :=
  match Octets.ofList? 32 bs with
  | some key => if Suite.isPublicKey key then .ok ⟨key⟩ else .error .publicKeyPoint
  | none => .error (.publicKeyLength bs.length)

def verify (k : PublicKey) (message signature : Bytes) : Except Error Bool :=
  if Suite.isSignature signature then .ok (Suite.verify k.bytes message signature)
  else .error .malformedSignature

/-- Checks that a signature fits a message; the error names the key that does not fit. -/
def check (k : PublicKey) (message signature : Bytes) : Except Error Unit :=
  match k.verify message signature with
  | .ok true => .ok ()
  | .ok false => .error (.entrySignature k)
  | .error e => .error e

/-- Whether a byte string is a signature that fits a message. -/
def accepts (k : PublicKey) (message signature : Bytes) : Bool :=
  Suite.isSignature signature && Suite.verify k.bytes message signature

/-- A public key on the wire: its octets, which must be a key. -/
def codec : Codec PublicKey :=
  (Codec.octets 32).convert (·.bytes) fun o => if Suite.isPublicKey o then some ⟨o⟩ else none

end PublicKey

/-! ## Lemmas -/

namespace PublicKey

theorem ofBytes_toList {k : PublicKey} (h : k.Valid) : ofBytes k.bytes.toList = .ok k := by
  have : Suite.isPublicKey k.bytes = true := h
  simp [ofBytes, Octets.ofList?_toList, this]

/-- A key that was read has the octets it was read from, and is valid. -/
theorem of_ofBytes {bs : Bytes} {k : PublicKey} (h : ofBytes bs = .ok k) :
    k.bytes.toList = bs ∧ k.Valid := by
  unfold ofBytes Octets.ofList? at h
  split at h
  · rename_i o ho
    split at ho
    · cases ho
      split at h
      · rename_i hv
        cases h
        exact ⟨rfl, hv⟩
      · cases h
    · cases ho
  · cases h

theorem verify_eq_ok_true_iff (k : PublicKey) (m s : Bytes) :
    k.verify m s = .ok true ↔ k.accepts m s = true := by
  unfold verify accepts
  split <;> simp_all

theorem faithful_codec : Codec.Faithful codec Valid where
  decode_encode k hk rest :=
    (Codec.faithful_convert (Codec.faithful_octets 32) _ _).decode_encode k
      ⟨trivial, by simp [show Suite.isPublicKey k.bytes = true from hk]⟩ rest
  decode_take k hk n hn :=
    (Codec.faithful_convert (Codec.faithful_octets 32) _ _).decode_take k
      ⟨trivial, by simp [show Suite.isPublicKey k.bytes = true from hk]⟩ n hn

end PublicKey

end SecureGroup
