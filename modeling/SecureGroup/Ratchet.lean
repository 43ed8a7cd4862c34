import SecureGroup.ChainKey

/-!
# Ratchets

What a reader keeps of one chain: the first state it learned, a mark every 64 positions after it,
and the furthest state.  So every position from the first on can be read again in at most 63
steps, and only a step past the furthest state is bounded.  `Ratchet.keyAt` is what a look-up finds,
and `Ratchet.lookUp` goes there step by step.
-/

namespace SecureGroup

variable [Suite]

/-- The known states of one chain: the first, the marks after it in order, and the furthest. -/
structure Ratchet where
  first : ChainKey
  marks : List ChainKey
  head : ChainKey

namespace Ratchet

def interval : Nat := 64

def of (c : ChainKey) : Ratchet := ⟨c, [], c⟩

/-- Moves the furthest state one position on, leaving a mark every so often. -/
def step (r : Ratchet) : Ratchet :=
  let head := r.head.next
  if (head.counter.toNat - r.first.counter.toNat) % interval = 0 then
    { r with marks := r.marks ++ [head], head := head }
  else { r with head := head }

/-- Moves the furthest state on by some positions. -/
def forward : Nat → Ratchet → Ratchet
  | 0, r => r
  | n + 1, r => forward n r.step

theorem head_step (r : Ratchet) : r.step.head = r.head.next := by
  unfold step
  dsimp only
  split <;> rfl

/-- Moves the furthest state on as long as it is before a position: the states that are moved on, in
order, and the ratchet that it comes to. -/
def climb (r : Ratchet) (counter : UInt64) : List ChainKey × Ratchet :=
  if r.head.counter < counter then
    let (moved, last) := r.step.climb counter
    (r.head :: moved, last)
  else ([], r)
termination_by counter.toNat - r.head.counter.toNat
decreasing_by
  next h =>
    have hlt := UInt64.lt_iff_toNat_lt.1 h
    rw [head_step, ChainKey.toNat_counter_next h]
    omega

/-- The last kept state that is not after a position. -/
def nearest (r : Ratchet) (counter : UInt64) : ChainKey :=
  (r.marks.takeWhile (·.counter ≤ counter)).getLast?.getD r.first

/-- The message key at a position, if that is not before the first known state. -/
def keyAt (r : Ratchet) (counter : UInt64) (maxSkipped : Nat) :
    Except Error (Option (Octets 32)) × Ratchet :=
  if counter < r.first.counter then (.ok none, r)
  else if r.head.counter ≤ counter then
    let distance := counter.toNat - r.head.counter.toNat
    if maxSkipped < distance then (.error (.counterAhead counter.toNat distance), r)
    else
      let r := r.forward distance
      (.ok (some r.head.messageKey), r)
  else (.ok (some ((r.nearest counter).advanceTo counter).messageKey), r)

/-- Looks a message key up step by step: the states that are moved on for it, and the result with
the ratchet afterwards. -/
def lookUp (r : Ratchet) (counter : UInt64) (maxSkipped : Nat) :
    List ChainKey × Except Error (Option (Octets 32)) × Ratchet :=
  if counter < r.first.counter then ([], .ok none, r)
  else if r.head.counter ≤ counter then
    let distance := counter.toNat - r.head.counter.toNat
    if maxSkipped < distance then ([], .error (.counterAhead counter.toNat distance), r)
    else
      let (moved, last) := r.climb counter
      (moved, .ok (some last.head.messageKey), last)
  else
    let (moved, c) := (r.nearest counter).climb counter
    (moved, .ok (some c.messageKey), r)

/-- The states that are kept to start from, under their positions. -/
def checkpoints (r : Ratchet) : List (UInt64 × ChainKey) :=
  (r.first :: r.marks).map fun c => (c.counter, c)

end Ratchet

end SecureGroup
