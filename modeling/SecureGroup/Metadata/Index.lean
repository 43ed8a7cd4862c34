import SecureGroup.ChainKeys
import SecureGroup.Log.Binding
import SecureGroup.Metadata.Roster

/-!
# The index of a group

An index replays the metadata log into a roster, the secrets that were sent, and the chains that
can be read.  Every entry takes effect at most once.  An entry that refers to someone who is not
known waits; at the end of every batch the waiting entries are tried again until none of them gets
further.  An entry that fails has no effect and never stops the batch.
-/

namespace SecureGroup.Metadata

variable [Suite]

/-- What the log has led to: the roster, the members to whom this device sent which of its chains,
and the chains it can read. -/
structure State where
  roster : Roster
  sent : List (PublicKey × UInt64)
  keys : ChainKeys

namespace State

def empty (keys : ChainKeys) : State := ⟨.empty, [], keys⟩

def noteSent (s : State) (recipient : PublicKey) (chainId : UInt64) : State :=
  if (recipient, chainId) ∈ s.sent then s else { s with sent := s.sent ++ [(recipient, chainId)] }

/-- Learns a chain of a device, unless it is the live sending chain. -/
def learn (s : State) (self author : PublicKey) (chain : ChainKey) : State :=
  if author = self ∧ chain.chainId = s.keys.own.chainId then s
  else { s with keys := (s.keys.register author chain).2 }

/-- The members with the chains that they were sent, in increasing order. -/
def sortedSent (s : State) : List (PublicKey × UInt64) :=
  s.sent.mergeSort fun a b => if a.1 = b.1 then a.2 ≤ b.2 else a.1.le b.1

/-- Whether this device sent its live chain to a member. -/
def hasSent (s : State) (member : PublicKey) : Bool := (member, s.keys.own.chainId) ∈ s.sent

/-- The state after a statement of a device, and whether the statement was accepted. -/
def step (p : Participant) (s : State) (author : PublicKey) :
    Statement → Except Error Unit × State
  | .sent recipient chainId chain =>
    let s := if author = p.ids.device then s.noteSent recipient chainId else s
    match chain with
    | some chain => (.ok (), s.learn p.ids.device author chain)
    | none => (.error (.misdirected recipient), s)
  | statement =>
    match s.roster.enrol author statement with
    | .ok roster => (.ok (), { s with roster })
    | .error cause => (.error cause, s)

/-- The state after an event of a device, and whether the event was accepted. -/
def handle (self : Participant) (s : State) (author : PublicKey) (event : Event) :
    Except Error Unit × State :=
  match event.statement self author with
  | .ok said => s.step self author said
  | .error cause => (.error cause, s)

end State

/-- An entry that was opened and checked. -/
structure Candidate where
  hash : EntryHash
  author : PublicKey
  event : Event
  statement : Statement

/-- What is told of an entry that took effect. -/
structure Notice where
  entry : EntryHash
  sender : PublicKey
  event : Event
deriving DecidableEq

def Candidate.notice (c : Candidate) : Notice := ⟨c.hash, c.author, c.event⟩

/-- What became of the entries of a batch. -/
structure Summary where
  applied : Nat
  duplicates : Nat
  misdirected : Nat
  failed : Nat
  deferred : Nat
deriving DecidableEq

/-- A replay of the metadata log: the state, the entries that are done with, and the entries that
wait, in the order of their hashes. -/
structure Index where
  state : State
  handled : List EntryHash
  deferred : List Candidate

/-- What an index shows of the log, to be compared: every part in increasing order. -/
structure Snapshot where
  members : List (PublicKey × List PublicKey)
  devices : List (PublicKey × PublicKey)
  admins : List PublicKey
  sent : List (PublicKey × UInt64)
  handled : List EntryHash
deriving DecidableEq

/-- An index while it takes a batch: the counts so far and the notices to give, in order. -/
structure Progress where
  index : Index
  summary : Summary
  notices : List Notice

namespace Index

def empty (keys : ChainKeys) : Index := ⟨.empty keys, [], []⟩

/-- Whether an entry is done with or waits. -/
def knows (i : Index) (hash : EntryHash) : Bool :=
  hash ∈ i.handled || i.deferred.any (·.hash = hash)

def waiting? (i : Index) (hash : EntryHash) : Option Candidate :=
  i.deferred.find? (·.hash = hash)

def others (i : Index) (hash : EntryHash) : List Candidate := i.deferred.filter (·.hash ≠ hash)

/-- An index beside other chain keys: sending and reading messages changes them between batches. -/
def withKeys (i : Index) (keys : ChainKeys) : Index :=
  { i with state := { i.state with keys } }

end Index

namespace Progress

def start (i : Index) : Progress := ⟨i, ⟨0, 0, 0, 0, 0⟩, []⟩

/-- Counts an entry that was known before. -/
def duplicate (p : Progress) : Progress :=
  { p with summary := { p.summary with duplicates := p.summary.duplicates + 1 } }

/-- Counts an entry that cannot be opened; it may be opened when it comes again. -/
def unreadable (p : Progress) : Progress :=
  { p with summary := { p.summary with failed := p.summary.failed + 1 } }

def handle (p : Progress) (hash : EntryHash) : Progress :=
  { p with index := { p.index with handled := hash :: p.index.handled } }

/-- Is done with an entry that took effect, and gives notice of it. -/
def accept (p : Progress) (c : Candidate) : Progress :=
  { p.handle c.hash with
    summary := { p.summary with applied := p.summary.applied + 1 }
    notices := p.notices ++ [c.notice] }

/-- Is done with a secret for another member. -/
def misdirect (p : Progress) (hash : EntryHash) : Progress :=
  { p.handle hash with summary := { p.summary with misdirected := p.summary.misdirected + 1 } }

def drop (p : Progress) (hash : EntryHash) : Progress := (p.handle hash).unreadable

/-- The entries that wait, with one more in the order of the hashes. -/
def insertCandidate (c : Candidate) : List Candidate → List Candidate
  | [] => [c]
  | d :: rest => if c.hash.le d.hash then c :: d :: rest else d :: insertCandidate c rest

def defer (p : Progress) (c : Candidate) : Progress :=
  { p with index := { p.index with deferred := insertCandidate c p.index.deferred } }

def release (p : Progress) (hash : EntryHash) : Progress :=
  { p with index := { p.index with deferred := p.index.others hash } }

def withState (p : Progress) (state : State) : Progress :=
  { p with index := { p.index with state } }

/-- Tries an entry on the state.  Also whether the entry is done with. -/
def consider (self : Participant) (p : Progress) (c : Candidate) : Bool × Progress :=
  let (result, state) := p.index.state.step self c.author c.statement
  let p := p.withState state
  match result with
  | .ok () => (true, p.accept c)
  | .error (.misdirected _) => (true, p.misdirect c.hash)
  | .error cause => if cause.isMissingDependency then (false, p.defer c) else (true, p.drop c.hash)

def openEntry (reader : Log.Reader) (e : Log.Entry) : Except Error (Log.Opened × Event) := do
  let opened ← reader.read e
  let event ← Event.ofBytes opened.payload
  return (opened, event)

def take (self : Participant) (reader : Log.Reader) (p : Progress) (e : Log.Entry) : Progress :=
  if p.index.knows e.hash then p.duplicate
  else match openEntry reader e with
    | .error _ => p.unreadable
    | .ok (opened, event) =>
      match event.statement self opened.sender with
      | .error _ => p.drop e.hash
      | .ok statement => (p.consider self ⟨e.hash, opened.sender, event, statement⟩).2

/-- Tries the entry of a hash, if it waits.  Also whether the entry is done with. -/
def retryEntry (self : Participant) (p : Progress) (hash : EntryHash) : Bool × Progress :=
  match p.index.waiting? hash with
  | some c => (p.release hash).consider self c
  | none => (false, p)

/-- Tries the entries of some hashes one after the other.  Also whether any of them is done
with. -/
def retryAll (self : Participant) (p : Progress) : List EntryHash → Bool × Progress
  | [] => (false, p)
  | hash :: rest =>
    let (done, p) := p.retryEntry self hash
    let (more, p) := p.retryAll self rest
    (done || more, p)

/-- Tries every waiting entry once.  Also whether any of them is done with. -/
def retryOnce (self : Participant) (p : Progress) : Bool × Progress :=
  p.retryAll self (p.index.deferred.map (·.hash))

/-- Tries the waiting entries again until none of them gets further. -/
def retry (self : Participant) : Nat → Progress → Progress
  | 0, p => p
  | rounds + 1, p =>
    match p.retryOnce self with
    | (true, p) => retry self rounds p
    | (false, p) => p

/-- The end of a batch: the waiting entries are tried again.  Each round but the last is done with
a waiting entry, so one round more than there are waiting entries is enough. -/
def finish (self : Participant) (p : Progress) : Progress :=
  let p := p.retry self (p.index.deferred.length + 1)
  { p with summary := { p.summary with deferred := p.index.deferred.length } }

end Progress

namespace Index

def update (self : Participant) (reader : Log.Reader) (i : Index) (entries : List Log.Entry) :
    Progress :=
  (entries.foldl (Progress.take self reader) (.start i)).finish self

/-- A copy of what the log has led to. -/
def snapshot (i : Index) : Snapshot where
  members := i.state.roster.members.map fun m =>
    (m, PublicKey.sort (i.state.roster.devicesUnder m))
  devices := i.state.roster.devices.filterMap fun d =>
    (i.state.roster.owner? d).map fun m => (d, m)
  admins := i.state.roster.sortedAdmins
  sent := i.state.sortedSent
  handled := i.handled.mergeSort EntryHash.le

end Index

end SecureGroup.Metadata
