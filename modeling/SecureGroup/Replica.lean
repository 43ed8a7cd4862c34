import SecureGroup.Chunks
import SecureGroup.Custody
import SecureGroup.Keyring
import SecureGroup.Metadata.Author
import SecureGroup.Notification
import SecureGroup.Settings

/-!
# Replicas

A replica is one participant with all that it keeps for its group: keys, custody chain, index,
the bindings of both logs, and the channel of its notifications.  It takes what is added to a log
when it has a turn: metadata in batches, messages one by one.
-/

namespace SecureGroup

variable [Suite]

/-- What a participant keeps for its group. -/
structure Replica where
  self : Participant
  settings : Settings
  keyring : Keyring
  custody : Custody
  index : Metadata.Index
  metadata : Log.Binding
  messages : Log.Binding
  notices : Channel Notification
  /-- How far the deliveries of the metadata log were taken. -/
  heardMetadata : Cursor
  /-- How far the deliveries of the message log were taken. -/
  heardMessages : Cursor
  closed : Bool

namespace Replica

def state (r : Replica) : Metadata.State := r.index.state

def keys (r : Replica) : ChainKeys := r.index.state.keys

def withKeys (r : Replica) (keys : ChainKeys) : Replica :=
  { r with index := { r.index with state := { r.index.state with keys } } }

def binding (r : Replica) : Log.Kind → Log.Binding
  | .metadata => r.metadata
  | .messages => r.messages

def withBinding (r : Replica) (kind : Log.Kind) (b : Log.Binding) : Replica :=
  match kind with
  | .metadata => { r with metadata := b }
  | .messages => { r with messages := b }

/-- The place up to which the deliveries of one of the logs were taken. -/
def heard (r : Replica) : Log.Kind → Cursor
  | .metadata => r.heardMetadata
  | .messages => r.heardMessages

def tell (r : Replica) (ns : List Notification) : Replica :=
  { r with notices := r.notices.sendAll ns }

/-! ## The metadata log -/

/-- Takes a batch of the metadata log and tells of what took effect. -/
def update (r : Replica) (entries : List Log.Entry) : Metadata.Summary × Replica :=
  let p := r.index.update r.self r.metadata.toReader entries
  (p.summary, { r with index := p.index }.tell (p.notices.map .metadata))

/-- Takes entries of the metadata log in batches. -/
def replay (r : Replica) (entries : List Log.Entry) : Replica :=
  (chunks r.settings.batchSize entries).foldl (fun r batch => (r.update batch).2) r

/-- At most `n` deliveries that wait, whether some before the next one were lost, and where the
listener is then. -/
def collect (c : Channel Log.Entry) : Nat → Cursor → List Log.Entry × Bool × Cursor
  | 0, cursor => ([], false, cursor)
  | n + 1, cursor =>
    match c.receive cursor with
    | (.nothing, cursor) => ([], false, cursor)
    | (.lost _, cursor) => ([], true, cursor)
    | (.value e, cursor) =>
      let (es, lost, cursor) := collect c n cursor
      (e :: es, lost, cursor)

/-- Takes one batch of deliveries, and the whole log again when some were lost. -/
def takeBatch (f : Log.Feed) (r : Replica) : Replica :=
  let (batch, lost, cursor) := collect f.deliveries r.settings.batchSize r.heardMetadata
  let r := { r with heardMetadata := cursor }
  let r := if batch.isEmpty then r else (r.update batch).2
  if lost then r.replay f.entries else r

def takeBatches (f : Log.Feed) : Nat → Replica → Replica
  | 0, r => r
  | n + 1, r =>
    if f.deliveries.sent.size ≤ r.heardMetadata.next then r
    else takeBatches f n (takeBatch f r)

/-! ## The message log -/

/-- Decrypts one delivery and tells of the message. -/
def takeMessage (r : Replica) (e : Log.Entry) : Replica :=
  match Message.decrypt r.messages.toReader r.keys e with
  | (.ok (.decrypted m), keys) => (r.withKeys keys).tell [.message m]
  | (_, keys) => r.withKeys keys

/-- Takes at most so many deliveries; a loss counts as one. -/
def takeMessages (f : Log.Feed) : Nat → Replica → Replica
  | 0, r => r
  | n + 1, r =>
    match f.deliveries.receive r.heardMessages with
    | (.nothing, _) => r
    | (.lost _, heardMessages) => takeMessages f n { r with heardMessages }
    | (.value e, heardMessages) => takeMessages f n ({ r with heardMessages }.takeMessage e)

/-! ## Turns -/

def backlog (store : Log.Store) (r : Replica) (kind : Log.Kind) : Nat :=
  (store.feed (r.binding kind).address).deliveries.sent.size - (r.heard kind).next

/-- How often one of the logs is read in one turn at most. -/
def share : Nat := 128

/-- Reads one of the logs at most so often. -/
def take (store : Log.Store) (kind : Log.Kind) (n : Nat) (r : Replica) : Replica :=
  let f := store.feed (r.binding kind).address
  match kind with
  | .metadata => takeBatches f n r
  | .messages => takeMessages f n r

/-- One turn of reading one of the logs, and whether the whole share was used.  When it was, even
if nothing is left, only another turn shows what there is. -/
def turn (store : Log.Store) (kind : Log.Kind) (r : Replica) : Bool × Replica :=
  let r := r.take store kind (share - 1)
  if r.backlog store kind = 0 then (false, r) else (true, r.take store kind 1)

/-- The replica that takes and writes nothing any more. -/
def close (r : Replica) : Replica :=
  { r with metadata := r.metadata.close, messages := r.messages.close, closed := true }

/-! ## Opening -/

/-- The custody chain of a member with one device. -/
def firstCustody (own : OwnKeys) (now : Timestamp) : Except Error Custody := do
  let (_, custody) ← Custody.empty.start now own.member
  let (_, custody) ← custody.add now own.member own.device.pub
  return custody

/-- The replica of a participant before it has read a log. -/
def fresh (self : Participant) (settings : Settings) (custody : Custody) (keys : ChainKeys) :
    Replica where
  self := self
  settings := settings
  keyring := (Keyring.empty.set self.own.member).set self.own.device
  custody := custody
  index := .empty keys
  metadata := .of self.group .metadata settings.appendTimeout
  messages := .of self.group .messages settings.appendTimeout
  notices := .ofCapacity settings.eventCapacity
  heardMetadata := ⟨0⟩
  heardMessages := ⟨0⟩
  closed := false

/-- Starts to listen to both logs and reads the metadata log from its beginning. -/
def attend (store : Log.Store) (r : Replica) : Replica × Log.Store :=
  let (heardMetadata, store) := store.listen r.metadata.address
  let (heardMessages, store) := store.listen r.messages.address
  let r := { r with heardMetadata, heardMessages }
  (r.replay (store.entries r.metadata.address), store)

/-- Moves the sending chain past what the message log shows as used. -/
def resume (store : Log.Store) (r : Replica) : Replica :=
  r.withKeys (Message.resume r.messages.toReader r.keys (store.entries r.messages.address))

/-- Opens the replica of a participant, on a chain that it used before or on a fresh one. -/
def launch (group : Group) (own : OwnKeys) (settings : Settings) (chain : Option ChainKey)
    (now : Timestamp) (store : Log.Store) : Except Error (Draw (Replica × Log.Store)) := do
  settings.validate
  let custody ← firstCustody own now
  let self := Participant.of group own
  match chain with
  | some chain =>
    let keys := ChainKeys.ofChain self.ids.device chain settings.maxSkippedKeys
    let (r, store) := (fresh self settings custody keys).attend store
    return pure (r.resume store, store)
  | none => return do
    let keys ← ChainKeys.generate self.ids.device settings.maxSkippedKeys
    return (fresh self settings custody keys).attend store

end Replica

end SecureGroup
