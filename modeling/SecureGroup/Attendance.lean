import SecureGroup.Replica

/-!
# Following the membership log

The task that opens a replica listens to the membership log before it reads it, and then takes
deliveries in batches; when deliveries were lost, it reads the whole log again.  `Attendance.Turn`
is one step of this task, and any steps of others may come between two of them (`Attendance.Runs`).
-/

namespace SecureGroup

variable [Suite]

/-- What anyone can do to the logs. -/
inductive Log.Store.Use : Store → Store → Prop
  /-- Octets are added to a log, unless it holds them. -/
  | append {s : Store} (a : Address) (octets : Bytes) : Use s (s.commit a octets).2
  /-- An entry is delivered once more. -/
  | redeliver {s s' : Store} {a : Address} {hash : EntryHash} (h : s.redeliver a hash = .ok s') :
      Use s s'
  /-- Someone else listens. -/
  | listen {s : Store} (a : Address) : Use s (s.listen a).2
  /-- Acknowledgements take another time. -/
  | delay {s : Store} (delay : Option Nat) : Use s { s with delay }

/-- What the task that follows the membership log is at. -/
inductive Task where
  /-- It is going to read the log. -/
  | listing
  /-- It has read the log, and hands it to the index in batches. -/
  | replaying (batches : List (List Log.Entry))
  /-- It waits for a delivery. -/
  | waiting
  /-- It has taken some deliveries, and may take more. -/
  | gathering (batch : List Log.Entry)
  /-- It takes no more for now; some may have been lost. -/
  | gathered (batch : List Log.Entry) (lost : Bool)

def Task.inHand : Task → List Log.Entry
  | replaying batches => batches.flatten
  | gathering batch => batch
  | gathered batch _ => batch
  | listing => []
  | waiting => []

def Task.lists : Task → Bool
  | listing => true
  | gathered _ lost => lost
  | _ => false

/-- The logs, a replica with the task that follows its membership log, and all entries that its
index was given. -/
structure Attendance where
  store : Log.Store
  replica : Replica
  task : Task
  handed : List Log.Entry

/-- Another use of a replica: whatever changes, its index has the same log behind it. -/
structure Replica.Beside (r r' : Replica) : Prop where
  owner : r'.self = r.self
  settings : r'.settings = r.settings
  reader : r'.metadata.toReader = r.metadata.toReader
  heard : r'.heardMetadata = r.heardMetadata
  index : ∃ keys, r'.index = r.index.withKeys keys

namespace Attendance

def feed (a : Attendance) : Log.Feed := a.store.feed a.replica.metadata.address

/-- What the task finds when it reads a delivery. -/
def received (a : Attendance) : Received Log.Entry × Cursor :=
  a.feed.deliveries.receive a.replica.heardMetadata

/-- The replica has heard of the log up to a place. -/
def hear (a : Attendance) (cursor : Cursor) (task : Task) : Attendance :=
  { a with replica := { a.replica with heardMetadata := cursor }, task }

/-- The index is given some entries. -/
def hand (a : Attendance) (entries : List Log.Entry) (task : Task) : Attendance :=
  { a with replica := (a.replica.update entries).2, handed := a.handed ++ entries, task }

inductive Turn : Attendance → Attendance → Prop
  | list {a : Attendance} (at_ : a.task = .listing) : Turn a { a with
      task := .replaying (chunks a.replica.settings.batchSize
        (a.store.entries a.replica.metadata.address)) }
  | replay {a : Attendance} {batch : List Log.Entry} {rest : List (List Log.Entry)}
      (at_ : a.task = .replaying (batch :: rest)) : Turn a (a.hand batch (.replaying rest))
  | replayed {a : Attendance} (at_ : a.task = .replaying []) : Turn a { a with task := .waiting }
  | first {a : Attendance} {e : Log.Entry} {cursor : Cursor} (at_ : a.task = .waiting)
      (found : a.received = (.value e, cursor)) : Turn a (a.hear cursor (.gathering [e]))
  | loss {a : Attendance} {n : Nat} {cursor : Cursor} (at_ : a.task = .waiting)
      (found : a.received = (.lost n, cursor)) : Turn a (a.hear cursor (.gathered [] true))
  | more {a : Attendance} {batch : List Log.Entry} {e : Log.Entry} {cursor : Cursor}
      (at_ : a.task = .gathering batch) (room : batch.length < a.replica.settings.batchSize)
      (found : a.received = (.value e, cursor)) :
      Turn a (a.hear cursor (.gathering (batch ++ [e])))
  | moreLost {a : Attendance} {batch : List Log.Entry} {n : Nat} {cursor : Cursor}
      (at_ : a.task = .gathering batch) (room : batch.length < a.replica.settings.batchSize)
      (found : a.received = (.lost n, cursor)) : Turn a (a.hear cursor (.gathered batch true))
  | noMore {a : Attendance} {batch : List Log.Entry} {cursor : Cursor}
      (at_ : a.task = .gathering batch) (room : batch.length < a.replica.settings.batchSize)
      (found : a.received = (.nothing, cursor)) : Turn a (a.hear cursor (.gathered batch false))
  | full {a : Attendance} {batch : List Log.Entry} (at_ : a.task = .gathering batch)
      (room : ¬ batch.length < a.replica.settings.batchSize) :
      Turn a { a with task := .gathered batch false }
  | apply {a : Attendance} {batch : List Log.Entry} {lost : Bool}
      (at_ : a.task = .gathered batch lost) :
      Turn a (if batch.isEmpty then { a with task := if lost then .listing else .waiting }
        else a.hand batch (if lost then .listing else .waiting))

inductive Other : Attendance → Attendance → Prop
  | use {a : Attendance} {store : Log.Store} (used : a.store.Use store) :
      Other a { a with store }
  | beside {a : Attendance} {replica : Replica} (beside : a.replica.Beside replica) :
      Other a { a with replica }
  /-- The index is given entries from elsewhere. -/
  | refresh {a : Attendance} (entries : List Log.Entry) : Other a (a.hand entries a.task)

/-- Steps of the task and of others, in any order. -/
inductive Runs (start : Attendance) : Attendance → Prop
  | refl : Runs start start
  | turn {a b : Attendance} (before : Runs start a) (step : Turn a b) : Runs start b
  | other {a b : Attendance} (before : Runs start a) (step : Other a b) : Runs start b

/-- The task of a new replica: it listens to the membership log, and is going to read it. -/
def opening (r : Replica) (store : Log.Store) : Attendance where
  store := (store.listen r.metadata.address).2
  replica := { r with heardMetadata := (store.listen r.metadata.address).1 }
  task := .listing
  handed := []

/-- The task waits, and no delivery is to come. -/
def Quiet (a : Attendance) : Prop := a.task = .waiting ∧ ∃ cursor, a.received = (.nothing, cursor)

end Attendance

end SecureGroup
