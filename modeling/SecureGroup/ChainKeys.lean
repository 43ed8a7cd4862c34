import SecureGroup.Group
import SecureGroup.Ratchet
import SecureGroup.Table

/-!
# The chain keys of a device

A device sends on a chain of its own, which only moves forward, and keeps a ratchet for every
chain it can read, its own among them.  A chain is known by its device and its number.
-/

namespace SecureGroup

variable [Suite]

/-- The sending chain of a device, and the chains that it can read. -/
structure ChainKeys where
  ownDevice : PublicKey
  own : ChainKey
  slots : Table (PublicKey × UInt64) Ratchet
  maxSkipped : Nat

namespace ChainKeys

/-- The keys of a device that sends on a given chain. -/
def ofChain (device : PublicKey) (chain : ChainKey) (maxSkipped : Nat) : ChainKeys :=
  ⟨device, chain, Table.empty.put (device, chain.chainId) (.of chain), maxSkipped⟩

def generate (device : PublicKey) (maxSkipped : Nat) : Draw ChainKeys := do
  return ofChain device (← ChainKey.generate) maxSkipped

def ratchet? (k : ChainKeys) (device : PublicKey) (chainId : UInt64) : Option Ratchet :=
  k.slots.get? (device, chainId)

def put (k : ChainKeys) (device : PublicKey) (chainId : UInt64) (r : Ratchet) : ChainKeys :=
  { k with slots := k.slots.put (device, chainId) r }

def hasChain (k : ChainKeys) (device : PublicKey) (chainId : UInt64) : Bool :=
  (k.ratchet? device chainId).isSome

def hasDevice (k : ChainKeys) (device : PublicKey) : Bool := k.slots.rows.any (·.1.1 = device)

/-- The first known state of the sending chain, from which it can be continued later. -/
def origin (k : ChainKeys) : ChainKey :=
  match k.ratchet? k.ownDevice k.own.chainId with
  | some r => r.first
  | none => k.own

/-- Learns a state of a chain; it is taken if the chain is new or if it comes before the first
known state.  Also whether it was taken. -/
def register (k : ChainKeys) (device : PublicKey) (chain : ChainKey) : Bool × ChainKeys :=
  let adopt : Bool := match k.ratchet? device chain.chainId with
    | some r => chain.counter < r.first.counter
    | none => true
  if adopt then (true, k.put device chain.chainId (.of chain)) else (false, k)

/-- Takes the next position of the sending chain and its message key. -/
def nextOwn (k : ChainKeys) : (UInt64 × UInt64 × Octets 32) × ChainKeys :=
  ((k.own.chainId, k.own.counter, k.own.messageKey), { k with own := k.own.next })

/-- Moves the sending chain to a position, unless it is there or further. -/
def skipOwnTo (k : ChainKeys) (counter : UInt64) : ChainKeys :=
  { k with own := k.own.advanceTo counter }

/-- The message key of a chain at a position, if the chain can be read there. -/
def messageKey (k : ChainKeys) (device : PublicKey) (chainId counter : UInt64) :
    Except Error (Option (Octets 32)) × ChainKeys :=
  match k.ratchet? device chainId with
  | none => (.ok none, k)
  | some r =>
    let (result, r) := r.keyAt counter k.maxSkipped
    (result, k.put device chainId r)

end ChainKeys

end SecureGroup
