import SecureGroup.Replica

/-!
# Turns

Replicas under names share one store, and each listens to both logs of its group.  A listener that
has read everything waits for the next delivery; then it stands in line for a turn.  Turns are
taken while the one who writes waits for them or for the store.  Main statement: the store is the
same after them (`store_await`).
-/

namespace SecureGroup

variable [Suite]

/-- A replica that listens to one of its logs. -/
structure Listener where
  replica : String
  kind : Log.Kind
deriving DecidableEq

def Listener.both (replica : String) : List Listener := [⟨replica, .metadata⟩, ⟨replica, .messages⟩]

/-- Replicas that share one store. -/
structure Network where
  store : Log.Store
  replicas : Table String Replica
  /-- The listeners that wait for a delivery, the one that has waited longest in front. -/
  waiting : List Listener
  /-- The turns to come; `none` is the last turn of a listener that was told to stop. -/
  line : List (Option Listener)
  /-- How many acknowledgements the writer has left of its share. -/
  credit : Nat

namespace Network

def empty : Network := ⟨.empty, .empty, [], [], Replica.share⟩

def put (n : Network) (name : String) (r : Replica) : Network :=
  { n with replicas := n.replicas.put name r }

/-- How many deliveries a listener has not taken. -/
def backlog (n : Network) (l : Listener) : Nat :=
  match n.replicas.get? l.replica with
  | some r => r.backlog n.store l.kind
  | none => 0

/-! ## Standing in line -/

/-- Lets those who waited for what was delivered stand in line. -/
def notify (n : Network) : Network :=
  let (woken, waiting) := n.waiting.partition (0 < n.backlog ·)
  { n with waiting, line := n.line ++ woken.map some }

/-- Lets new listeners stand in line and tells the others under a name to stop. -/
def relieve (n : Network) (name : String) (new : List Listener) : Network :=
  let (woken, waiting) := n.waiting.partition (·.replica = name)
  let line := n.line.map (Option.filter (·.replica ≠ name))
  { n with waiting, line := line ++ new.map some ++ woken.map fun _ => none }

/-! ## Taking turns -/

/-- One turn.  A listener that used its whole share is added to those who need another turn. -/
def turn : Network × List Listener → Option Listener → Network × List Listener
  | (n, again), none => (n, again)
  | (n, again), some l =>
    match n.replicas.get? l.replica with
    | none => (n, again)
    | some r =>
      let (more, r) := r.turn n.store l.kind
      let n := n.put l.replica r
      if more then (n, l :: again) else ({ n with waiting := n.waiting ++ [l] }, again)

/-- How many turns are taken before it is looked whether the writer goes on. -/
def roundSize : Nat := 61

/-- One round of turns.  Those who need another one go to the end of the line, the last of them
first. -/
def round (n : Network) : Network :=
  let (m, again) := (n.line.take roundSize).foldl turn (n, [])
  { m with line := n.line.drop roundSize ++ again.map some }

/-- Rounds of turns until nobody stands in line. -/
def rounds : Nat → Network → Network
  | 0, n => n
  | k + 1, n => if n.line.isEmpty then n else rounds k n.round

/-- How many turns it takes at most until nobody stands in line: every turn is the last one or
takes some delivery. -/
def work (n : Network) : Nat := n.line.foldr (fun l rest => l.elim 0 n.backlog + 1 + rest) 0

/-- Lets everyone take what waits; the writer then has its whole share. -/
def settle (n : Network) : Network := { n.rounds n.work with credit := Replica.share }

/-! ## Waiting for the store -/

/-- Waits for the store to acknowledge.  During a delay everyone takes what waits.  A delay of
nothing is over at once as long as the writer has some of its share left, and after a round of
turns otherwise. -/
def await (n : Network) : Network :=
  match n.store.delay with
  | none => n
  | some 0 =>
    let n := if n.credit = 0 then { n.round with credit := Replica.share } else n
    { n with credit := n.credit - 1 }
  | some (_ + 1) => { n.settle with credit := Replica.share - 1 }

/-! ## Lemmas -/

theorem store_turn (s : Network × List Listener) (l : Option Listener) :
    (turn s l).1.store = s.1.store := by
  obtain ⟨n, again⟩ := s
  cases l with
  | none => rfl
  | some l =>
    simp only [turn]
    split
    · rfl
    · split <;> rfl

theorem store_foldl_turn (line : List (Option Listener)) (s : Network × List Listener) :
    (line.foldl turn s).1.store = s.1.store := by
  induction line generalizing s with
  | nil => rfl
  | cons l rest ih => rw [List.foldl_cons, ih, store_turn]

theorem store_round (n : Network) : n.round.store = n.store :=
  store_foldl_turn _ (n, [])

theorem store_rounds (k : Nat) (n : Network) : (n.rounds k).store = n.store := by
  induction k generalizing n with
  | zero => rfl
  | succ k ih =>
    unfold rounds
    split
    · rfl
    · rw [ih, store_round]

/-- Waiting for the store to acknowledge leaves the logs as they are. -/
theorem store_await (n : Network) : n.await.store = n.store := by
  unfold await
  split
  · rfl
  · split
    · exact store_round n
    · rfl
  · exact store_rounds _ n

end Network

end SecureGroup
