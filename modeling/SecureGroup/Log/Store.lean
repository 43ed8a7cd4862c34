import SecureGroup.Channel
import SecureGroup.Error
import SecureGroup.Table

/-!
# The shared store of logs

Logs grow at their ends only.  An entry is known by the hash of its octets: octets that a log
already holds are not added again (`Feed.commit_cases`).  Every addition is delivered to those who
listen, and an entry may be delivered again.  The store may acknowledge additions late.  Main
statements: changing one log leaves the others as they are (`Store.feed_put`), and so does listening
(`Store.feed_listen`).
-/

namespace SecureGroup.Log

variable [Suite]

/-- How many deliveries a listener may be behind. -/
def deliveryCapacity : Nat := 1024

/-- One log: its entries, the hashes of all octets that it has seen, and the deliveries. -/
structure Feed where
  entries : List Entry
  seen : List EntryHash
  mem_seen_iff : ∀ {hash}, hash ∈ seen ↔ ∃ e ∈ entries, e.hash = hash
  deliveries : Channel Entry

namespace Feed

def empty : Feed := ⟨[], [], by simp, .ofCapacity deliveryCapacity⟩

def find? (f : Feed) (hash : EntryHash) : Option Entry := f.entries.find? (·.hash = hash)

/-- The entry with a hash, looked for only if the hash was seen. -/
def known? (f : Feed) (hash : EntryHash) : Option Entry :=
  if hash ∈ f.seen then f.find? hash else none

/-- The log with one more entry, which is delivered. -/
def add (f : Feed) (payload : Bytes) : Feed where
  entries := f.entries ++ [.at f.entries.length payload]
  seen := f.seen.insert (.of payload)
  mem_seen_iff {hash} := by
    rw [List.mem_insert_iff, f.mem_seen_iff]
    simp only [List.mem_append, List.mem_singleton, or_and_right, exists_or, exists_eq_left]
    rw [or_comm, eq_comm]
    rfl
  deliveries := f.deliveries.send (.at f.entries.length payload)

/-- Adds octets, unless the log holds them already. -/
def commit (f : Feed) (payload : Bytes) : Ref × Feed :=
  match f.known? (.of payload) with
  | some e => (e.ref, f)
  | none => ((Entry.at f.entries.length payload).ref, f.add payload)

def redeliver (f : Feed) (hash : EntryHash) : Option Feed :=
  (f.find? hash).map fun e => { f with deliveries := f.deliveries.send e }

omit [Suite] in
/-- Whatever a log holds it has seen. -/
theorem known?_eq (f : Feed) (hash : EntryHash) : f.known? hash = f.find? hash := by
  unfold known?
  split
  · rfl
  · next hnot =>
    refine (List.find?_eq_none.2 fun e he => ?_).symm
    simpa using fun hhash => hnot (f.mem_seen_iff.2 ⟨e, he, hhash⟩)

omit [Suite] in
theorem find?_eq_none_iff {f : Feed} {hash : EntryHash} :
    f.find? hash = none ↔ hash ∉ f.entries.map (·.hash) := by
  simp [find?]

/-- Octets that a log holds under their hash are answered with the entry that is there; others come
to its end. -/
theorem commit_cases (f : Feed) (payload : Bytes) :
    (∃ e ∈ f.entries, e.hash = .of payload ∧ f.commit payload = (e.ref, f)) ∨
      EntryHash.of payload ∉ f.entries.map (·.hash) ∧
        f.commit payload = ((Entry.at f.entries.length payload).ref, f.add payload) := by
  unfold commit
  rw [known?_eq]
  split
  · next e he =>
    exact Or.inl ⟨e, List.mem_of_find?_eq_some he, by simpa using List.find?_some he, rfl⟩
  · next hnone => exact Or.inr ⟨find?_eq_none_iff.1 hnone, rfl⟩

end Feed

/-- The logs of all groups, and how long an acknowledgement takes, in milliseconds. -/
structure Store where
  feeds : Table Address Feed
  delay : Option Nat

namespace Store

/-- The store without logs, which acknowledges at once. -/
def empty : Store := ⟨.empty, none⟩

/-- The longest that anything is waited for: thirty years, in milliseconds. -/
def maxWait : Nat := 30 * 365 * 24 * 60 * 60 * 1000

/-- How long an acknowledgement is waited for. -/
def wait (s : Store) : Nat := min (s.delay.getD 0) maxWait

def feed? (s : Store) (a : Address) : Option Feed := s.feeds.get? a

def feed (s : Store) (a : Address) : Feed := (s.feed? a).getD .empty

def put (s : Store) (a : Address) (f : Feed) : Store :=
  { s with feeds := s.feeds.put a f }

def entries (s : Store) (a : Address) : List Entry := (s.feed a).entries

def listen (s : Store) (a : Address) : Cursor × Store :=
  let f := s.feed a
  (f.deliveries.listen, s.put a f)

def redeliver (s : Store) (a : Address) (hash : EntryHash) : Except Error Store :=
  match s.feed? a with
  | none => .error (.noLog a)
  | some f => match f.redeliver hash with
    | none => .error (.noEntry hash a)
    | some f => .ok (s.put a f)

def commit (s : Store) (a : Address) (payload : Bytes) : Ref × Store :=
  let (ref, f) := (s.feed a).commit payload
  (ref, s.put a f)

/-- Adds one payload after the other. -/
def commitAll (s : Store) (a : Address) : List Bytes → List Ref × Store
  | [] => ([], s)
  | payload :: rest =>
    let (ref, s) := s.commit a payload
    let (refs, s) := s.commitAll a rest
    (ref :: refs, s)

/-! ## Lemmas -/

omit [Suite] in
theorem feed_put (s : Store) (a b : Address) (f : Feed) :
    (s.put a f).feed b = if b = a then f else s.feed b := by
  unfold feed feed? put
  split
  · next h => rw [h, Table.get?_put_self, Option.getD_some]
  · next h => rw [Table.get?_put_of_ne _ _ h]

omit [Suite] in
theorem feed_listen (s : Store) (a b : Address) : (s.listen a).2.feed b = s.feed b := by
  rw [listen, feed_put]
  split
  · next h => rw [h]
  · rfl

end Store

end SecureGroup.Log
