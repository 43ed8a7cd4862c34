import SecureGroup.Error
import SecureGroup.Entropy
import SecureGroup.Wire.Codec

/-!
# Chain keys

A device encrypts its messages under the keys of a chain.  A chain key is one state of a chain:
it gives the message key of its position and the chain key of the next one, and no earlier key can
be found from it.
-/

namespace SecureGroup

/-- One state of a chain: the chain, its key, and the position. -/
@[ext]
structure ChainKey where
  chainId : UInt64
  key : Octets 32
  counter : UInt64
deriving DecidableEq

namespace ChainKey

variable [Suite]

def nextLabel : Bytes := Bytes.ofString "groupsync-chain-key"

def messageLabel : Bytes := Bytes.ofString "groupsync-message-key"

def messageKey (c : ChainKey) : Octets 32 := Suite.derive c.key.toList messageLabel

def next (c : ChainKey) : ChainKey :=
  { c with key := Suite.derive c.key.toList nextLabel, counter := c.counter + 1 }

/-- The state so many positions later. -/
def advance : Nat → ChainKey → ChainKey
  | 0, c => c
  | n + 1, c => advance n c.next

/-- The state at a position, if that is not behind. -/
def advanceTo (c : ChainKey) (counter : UInt64) : ChainKey :=
  c.advance (counter.toNat - c.counter.toNat)

/-- A state before some position has a next position. -/
theorem toNat_counter_next {c : ChainKey} {counter : UInt64} (h : c.counter < counter) :
    c.next.counter.toNat = c.counter.toNat + 1 := by
  have hlt := UInt64.lt_iff_toNat_lt.1 h
  have hmax := counter.toNat_lt
  show (c.counter + 1).toNat = c.counter.toNat + 1
  rw [UInt64.toNat_add, UInt64.toNat_one]
  omega

/-- Moves a state on as long as it is before a position: the states that are moved on, in order, and
the one that it comes to. -/
def climb (c : ChainKey) (counter : UInt64) : List ChainKey × ChainKey :=
  if c.counter < counter then
    let (moved, last) := c.next.climb counter
    (c :: moved, last)
  else ([], c)
termination_by counter.toNat - c.counter.toNat
decreasing_by
  next h =>
    have hlt := UInt64.lt_iff_toNat_lt.1 h
    rw [toNat_counter_next h]
    omega

/-- A fresh chain at its first position. -/
def generate : Draw ChainKey := do
  let chainId ← Draw.word
  let key ← Draw.octets 32
  return ⟨chainId, key, 0⟩

def codec : Codec ChainKey :=
  (Codec.pair Codec.word64 (Codec.pair (Codec.octets 32) Codec.word64)).convert
    (fun c => (c.chainId, c.key, c.counter)) fun (i, k, n) => some ⟨i, k, n⟩

def ofBytes (bs : Bytes) : Except Error ChainKey :=
  (codec.read bs).mapError (.undecodable .chainKey)

/-- The chain and the position, without the key. -/
def debug (c : ChainKey) : String :=
  "DeviceChainKey \x7b chain_id: " ++ toString c.chainId.toNat ++ ", counter: " ++
    toString c.counter.toNat ++ ", .. \x7d"

end ChainKey

end SecureGroup
