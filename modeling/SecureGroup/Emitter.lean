import SecureGroup.Channel
import SecureGroup.Table

/-!
# Emitters

An emitter hands what it emits to all its named subscriptions.  A subscription that falls behind
loses the oldest values and counts them; emitting never waits.  Main statement: emitting tells how
many subscriptions there are (`emit_fst`).
-/

namespace SecureGroup

/-- A channel with its subscriptions; an emitter that has ended emits nothing more. -/
structure Emitter (α : Type) where
  channel : Channel α
  subscriptions : Table String Subscription
  ended : Bool

/-- What a subscription finds when it would wait for a value. -/
inductive Awaited (α : Type) where
  | value (a : α)
  /-- Nothing is left, and nothing will come. -/
  | ended
  /-- Nothing is there yet. -/
  | waiting

namespace Emitter

variable {α : Type}

def ofCapacity (n : Nat) : Emitter α := ⟨.ofCapacity n, .empty, false⟩

/-- Adds a subscription, in place of one of the same name. -/
def subscribe (e : Emitter α) (name : String) : Emitter α :=
  { e with subscriptions := e.subscriptions.put name (.ofChannel e.channel) }

def unsubscribe (e : Emitter α) (name : String) : Emitter α :=
  { e with subscriptions := e.subscriptions.erase name }

/-- Emits a value and tells how many subscriptions it goes to. -/
def emit (e : Emitter α) (a : α) : Nat × Emitter α :=
  (e.subscriptions.size, { e with channel := e.channel.send a })

/-- Emits values in order and tells of each how many subscriptions it goes to. -/
def emitAll (e : Emitter α) : List α → List Nat × Emitter α
  | [] => ([], e)
  | a :: rest =>
    let (count, e) := e.emit a
    let (counts, e) := e.emitAll rest
    (count :: counts, e)

/-- Ends the emitter; what was emitted can still be read. -/
def finish (e : Emitter α) : Emitter α := { e with ended := true }

def receive (e : Emitter α) (name : String) : Option α × Emitter α :=
  match e.subscriptions.get? name with
  | none => (none, e)
  | some s =>
    let (found, s) := s.receive e.channel
    (found, { e with subscriptions := e.subscriptions.put name s })

/-- The next value of a subscription, or why there is none. -/
def await (e : Emitter α) (name : String) : Awaited α × Emitter α :=
  match e.receive name with
  | (some a, e) => (.value a, e)
  | (none, e) => (if e.ended then .ended else .waiting, e)

def drain (e : Emitter α) (name : String) : List α × Emitter α :=
  match e.subscriptions.get? name with
  | none => ([], e)
  | some s =>
    let (values, s) := s.drain e.channel
    (values, { e with subscriptions := e.subscriptions.put name s })

/-- Emitting tells how many subscriptions there are. -/
theorem emit_fst (e : Emitter α) (a : α) : (e.emit a).1 = e.subscriptions.size := rfl

end Emitter

end SecureGroup
