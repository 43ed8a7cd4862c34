import SecureGroup.Network.Turns

/-!
# Networks

Replicas of a network are opened and closed, write to the logs, and read them.  What a replica
writes reaches the others when the network settles, or while a writer waits for the store to
acknowledge.  Main statement: what a replica appends comes to the store as its binding alone would
append it (`append_eq`).
-/

namespace SecureGroup

variable [Suite]

/-- The result of an operation, and the network after it. -/
abbrev Network.Outcome (α : Type) := Except Error α × Network

namespace Network

/-! ## Opening and closing -/

/-- Opens a replica under a name, in place of the one that had it. -/
def launch (n : Network) (name : String) (group : Group) (own : OwnKeys) (settings : Settings)
    (chain : Option ChainKey) (now : Timestamp) : Except Error (Draw Network) := do
  let opening ← Replica.launch group own settings chain now n.store
  return do
    let (r, store) ← opening
    return ({ n with store }.relieve name (Listener.both name)).put name r

/-- Abandons a replica once everything has settled. -/
def abandon (n : Network) (name : String) : Network :=
  let n := n.settle
  match n.replicas.get? name with
  | some r => (n.relieve name []).put name r.close
  | none => n

/-- Closes a replica: abandons it and waits for its listeners to stop, which takes as much of the
writer's share as there are listeners. -/
def close (n : Network) (name : String) : Network :=
  match n.replicas.get? name with
  | some r =>
    let n := n.abandon name
    if r.closed then n
    else { n.round with credit := Replica.share - (Listener.both name).length }
  | none => n.settle

/-! ## Writing -/

def commit (n : Network) (a : Log.Address) (octets : Bytes) : Log.Ref × Network :=
  let n := n.await
  let (ref, store) := n.store.commit a octets
  (ref, { n with store }.notify)

def redeliver (n : Network) (a : Log.Address) (hash : EntryHash) : Outcome Unit :=
  match n.store.redeliver a hash with
  | .error e => (.error e, n)
  | .ok store => (.ok (), { n with store }.notify)

/-- Lets a replica append a payload to one of its logs. -/
def append (n : Network) (name : String) (r : Replica) (kind : Log.Kind) (device : PrivateKey)
    (payload : Bytes) : Draw (Outcome Log.Ref) :=
  let b := r.binding kind
  if b.closed then return (.error .closed, n.put name r)
  else do
    let (octets, b) ← b.sealEntry device payload
    let n := (n.put name (r.withBinding kind b)).await
    let (result, store) := b.submit n.store octets
    return (result, { n with store }.notify)

/-- Lets a replica append an event that its device signs. -/
def appendEvent (n : Network) (name : String) (r : Replica)
    (event : Except Error Metadata.Event) : Draw (Outcome Log.Ref) :=
  match event with
  | .error e => return (.error e, n)
  | .ok event => n.append name r .metadata r.self.own.device event.encode

/-- Lets a replica announce its member as the first of the group. -/
def announce (n : Network) (name : String) (r : Replica) (groupKey : PrivateKey) :
    Draw (Outcome Log.Ref) :=
  n.appendEvent name r (Metadata.announce r.self groupKey)

/-- Lets a replica add its device to its member. -/
def addDevice (n : Network) (name : String) (r : Replica) : Draw (Outcome Log.Ref) :=
  n.appendEvent name r (Metadata.addDevice r.self r.state)

/-- Lets a replica make a member an admin. -/
def grantAdmin (n : Network) (name : String) (r : Replica) (member : PublicKey) :
    Draw (Outcome Log.Ref) :=
  n.appendEvent name r (Metadata.grantAdmin r.self r.state member)

/-- Lets a replica send its chain to a member. -/
def sendSecret (n : Network) (name : String) (r : Replica) (member : PublicKey) :
    Draw (Outcome Log.Ref) :=
  match Metadata.sendSecret r.self r.state member with
  | .error e => return (.error e, n)
  | .ok event => do n.appendEvent name r (.ok (← event))

/-- Lets a replica redeem an invitation for a member with a device, whose key it keeps. -/
def redeem (n : Network) (name : String) (r : Replica) (member device : PrivateKey)
    (invitation : Invitation) : Draw (Outcome Log.Ref) :=
  match Metadata.redeem r.self member device invitation with
  | .error e => return (.error e, n)
  | .ok event =>
    n.append name { r with keyring := r.keyring.set device } .metadata device event.encode

def sendMessage (n : Network) (name : String) (r : Replica) (payload : Bytes) :
    Draw (Outcome Log.Ref) := do
  let (body, keys) ← Message.compose r.keys payload
  n.append name (r.withKeys keys) .messages r.self.own.device body

/-! ## Reading -/

/-- Lets a replica take its whole metadata log as one batch. -/
def refresh (n : Network) (name : String) (r : Replica) : Metadata.Summary × Network :=
  let (summary, r) := r.update (n.store.entries r.metadata.address)
  (summary, n.put name r)

/-- The messages of a replica's group as it sees them. -/
def list (n : Network) (name : String) (r : Replica) : List Message.Item × Network :=
  let (items, keys) :=
    Message.list r.messages.toReader r.keys (n.store.entries r.messages.address)
  (items, n.put name (r.withKeys keys))

/-! ## Lemmas -/

theorem append_eq (n : Network) (name : String) (r : Replica) (kind : Log.Kind)
    (device : PrivateKey) (payload : Bytes) (e : Entropy) :
    (n.append name r kind device payload e).1.1 =
        ((r.binding kind).append n.store device payload e).1.1 ∧
      (n.append name r kind device payload e).1.2.store =
        ((r.binding kind).append n.store device payload e).1.2.2 := by
  unfold append Log.Binding.append
  dsimp only
  split
  · exact ⟨rfl, rfl⟩
  · obtain ⟨octets, hoctets⟩ : ∃ octets,
        octets = ((r.binding kind).sealEntry device payload e).1.1 := ⟨_, rfl⟩
    obtain ⟨b, hb⟩ : ∃ b, b = ((r.binding kind).sealEntry device payload e).1.2 := ⟨_, rfl⟩
    have hstore : (n.put name (r.withBinding kind b)).await.store = n.store := store_await _
    have hsubmit := congrArg (fun s => b.submit s octets) hstore
    rw [hoctets, hb] at hsubmit
    exact ⟨congrArg Prod.fst hsubmit, congrArg Prod.snd hsubmit⟩

theorem redeem_eq {member device : PrivateKey} {invitation : Invitation} {r : Replica}
    {event : Metadata.Event} (h : Metadata.redeem r.self member device invitation = .ok event)
    (n : Network) (name : String) (e : Entropy) :
    (n.redeem name r member device invitation e).1.1 =
        (r.metadata.append n.store device event.encode e).1.1 ∧
      (n.redeem name r member device invitation e).1.2.store =
        (r.metadata.append n.store device event.encode e).1.2.2 := by
  unfold redeem
  rw [h]
  exact append_eq n name { r with keyring := r.keyring.set device } .metadata device _ e

end Network

end SecureGroup
