import SecureGroup.Identity

/-!
# Log entries and where they live

Every group has two logs, one of its membership and one of its messages.  An entry is known by
the content hash of its octets and by its place in the log.
-/

namespace SecureGroup

structure EntryHash where
  bytes : Octets 32
deriving DecidableEq

namespace EntryHash

def of [Suite] (bs : Bytes) : EntryHash := ⟨Suite.digest bs⟩

def toHex (h : EntryHash) : String := h.bytes.toList.toHex

/-- The first eight octets in hexadecimal, as messages name the entry. -/
def short (h : EntryHash) : String := Bytes.toHex (h.bytes.toList.take 8)

/-- The hash with its type. -/
def debug (h : EntryHash) : String := "EntryHash(" ++ h.toHex ++ ")"

def le (a b : EntryHash) : Bool := a.bytes.le b.bytes

end EntryHash

namespace Log

/-- Which of a group's logs. -/
inductive Kind where
  | metadata
  | messages
deriving DecidableEq

/-- The name of the log; its key is derived under it. -/
def Kind.label : Kind → String
  | .metadata => "metadata"
  | .messages => "messages"

def Kind.ofLabel? (label : String) : Option Kind :=
  [Kind.metadata, Kind.messages].find? (·.label = label)

/-- One log of one group. -/
structure Address where
  group : GroupId
  kind : Kind
deriving DecidableEq

/-- The address as messages name it. -/
def Address.name (a : Address) : String := a.group.name ++ "/" ++ a.kind.label

/-- An entry of a log: its hash, its place, and its octets. -/
structure Entry where
  hash : EntryHash
  position : Nat
  payload : Bytes
deriving DecidableEq

/-- The entry with these octets at a place. -/
def Entry.at [Suite] (position : Nat) (payload : Bytes) : Entry := ⟨.of payload, position, payload⟩

/-- What a writer learns of an entry: its hash and its place. -/
structure Ref where
  hash : EntryHash
  position : Nat
deriving DecidableEq

def Entry.ref (e : Entry) : Ref := ⟨e.hash, e.position⟩

end Log

end SecureGroup
