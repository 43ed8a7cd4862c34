/-!
# Bounded channels

A channel hands every value to every listener, in order.  It keeps the newest values only, as many
as its capacity; a listener further behind loses the older ones and is told how many.
-/

namespace SecureGroup

/-- A channel: all values that were sent, and how many of the newest can still be read. -/
structure Channel (α : Type) where
  capacity : Nat
  capacity_pos : 0 < capacity
  sent : Array α

/-- The place in a channel up to which a listener has read. -/
structure Cursor where
  next : Nat
deriving DecidableEq

inductive Received (α : Type) where
  /-- Everything has been read. -/
  | nothing
  /-- So many values were lost. -/
  | lost (count : Nat)
  /-- The next value. -/
  | value (a : α)

namespace Channel

variable {α : Type}

/-! ## Algorithm -/

/-- A channel that keeps at least `n` values: the next power of two. -/
def ofCapacity (n : Nat) : Channel α where
  capacity := n.nextPowerOfTwo
  capacity_pos := Nat.pos_of_isPowerOfTwo (Nat.isPowerOfTwo_nextPowerOfTwo n)
  sent := #[]

def send (c : Channel α) (a : α) : Channel α := { c with sent := c.sent.push a }

def sendAll (c : Channel α) (as : List α) : Channel α := as.foldl send c

/-- The place of the oldest value that can still be read. -/
def oldest (c : Channel α) : Nat := c.sent.size - c.capacity

/-- A new listener, who hears what is sent from now on. -/
def listen (c : Channel α) : Cursor := ⟨c.sent.size⟩

/-- Reads once: a loss is reported before the value after it. -/
def receive (c : Channel α) (cursor : Cursor) : Received α × Cursor :=
  if cursor.next < c.oldest then (.lost (c.oldest - cursor.next), ⟨c.oldest⟩)
  else match c.sent[cursor.next]? with
    | some a => (.value a, ⟨cursor.next + 1⟩)
    | none => (.nothing, cursor)

/-- Everything that waits for a listener, and where the listener is afterwards: how many values
were lost, and the values. -/
def drain (c : Channel α) (cursor : Cursor) : Nat × List α × Cursor :=
  let start := max cursor.next c.oldest
  (start - cursor.next, (c.sent.extract start c.sent.size).toList, c.listen)

end Channel

/-- A listener that only counts what it lost. -/
structure Subscription where
  cursor : Cursor
  lagged : Nat
deriving DecidableEq

namespace Subscription

variable {α : Type}

def ofChannel (c : Channel α) : Subscription := ⟨c.listen, 0⟩

def receive (s : Subscription) (c : Channel α) : Option α × Subscription :=
  let start := max s.cursor.next c.oldest
  let lagged := s.lagged + (start - s.cursor.next)
  match c.sent[start]? with
  | some a => (some a, ⟨⟨start + 1⟩, lagged⟩)
  | none => (none, ⟨⟨start⟩, lagged⟩)

def drain (s : Subscription) (c : Channel α) : List α × Subscription :=
  let (lost, values, cursor) := c.drain s.cursor
  (values, ⟨cursor, s.lagged + lost⟩)

end Subscription

end SecureGroup
