import SecureGroup.Replica

/-!
# Sessions of a replica

A replica that is open sends messages, takes batches and looks keys up, while others write to its
logs (`Session.Step`).  A message takes its position before it is sealed and handed to the store, so
messages on their way hold positions that the log does not show yet.  A device is opened, closed and
opened again from the origin of its chain (`Session.Runs`).
-/

namespace SecureGroup

variable [Suite]

/-! ## Positions of a chain -/

namespace Message

omit [Suite] in
/-- The position that a body names on a chain. -/
def Body.position? (chainId : UInt64) (bs : Bytes) : Option UInt64 :=
  match codec.read bs with
  | .error _ => none
  | .ok body => if body.chainId = chainId then some body.counter else none

/-- The position of an entry, if it is one of a device on a chain. -/
def position? (reader : Log.Reader) (device : PublicKey) (chainId : UInt64) (e : Log.Entry) :
    Option UInt64 :=
  match reader.read e with
  | .error _ => none
  | .ok opened => if opened.sender = device then Body.position? chainId opened.payload else none

end Message

/-! ## What happens while a replica is open -/

/-- A message on its way to the log: its body was composed, or it was sealed as well. -/
inductive Pending where
  | composed (body : Bytes)
  | sealed (octets : Bytes)

/-- A replica at work: the store that it shares with others, and the messages that it has not
handed to the store yet. -/
structure Session where
  replica : Replica
  store : Log.Store
  pending : List Pending

/-- The position that a message on its way has on a chain. -/
def Pending.position? (reader : Log.Reader) (device : PublicKey) (chainId : UInt64) :
    Pending → Option UInt64
  | composed body => Message.Body.position? chainId body
  | sealed octets => Message.position? reader device chainId (.at 0 octets)

namespace Session

def ofDraw (draw : Draw (Replica × Log.Store)) (n : Entropy) : Session :=
  ⟨(draw n).1.1, (draw n).1.2, []⟩

/-- The positions of a chain that the message log of a group shows as used by a device. -/
def used (group : Group) (device : PublicKey) (chainId : UInt64) (s : Session) : List UInt64 :=
  (s.store.entries (Log.Reader.of group .messages).address).filterMap
    (Message.position? (.of group .messages) device chainId)

/-- The positions of a chain that messages on their way have. -/
def underway (group : Group) (device : PublicKey) (chainId : UInt64) (s : Session) :
    List UInt64 :=
  s.pending.filterMap (Pending.position? (.of group .messages) device chainId)

/-- What can happen while a replica is open. -/
inductive Step : Session → Session → Prop
  /-- A message takes the next position, which is not the last one there is.  Its octets can be
  counted by a word. -/
  | compose {s : Session} {payload body : Bytes} {keys : ChainKeys} {n n' : Entropy}
      (composed : Message.compose s.replica.keys payload n = ((body, keys), n'))
      (room : s.replica.keys.own.counter.toNat + 1 < UInt64.size)
      (fits : body.length < UInt64.size) :
      Step s { s with
        replica := s.replica.withKeys keys
        pending := .composed body :: s.pending }
  /-- A message is refused, because the log is closed for writing. -/
  | refuse {s : Session} (before rest : List Pending) {body : Bytes}
      (among : s.pending = before ++ .composed body :: rest)
      (closed : s.replica.messages.closed = true) :
      Step s { s with pending := before ++ rest }
  /-- A message is sealed.  Its octets can be counted by a word. -/
  | sealEntry {s : Session} (before rest : List Pending) {body octets : Bytes}
      {binding : Log.Binding} {n n' : Entropy}
      (among : s.pending = before ++ .composed body :: rest)
      (opened : s.replica.messages.closed = false)
      (sealed : s.replica.messages.sealEntry s.replica.self.own.device body n =
        ((octets, binding), n'))
      (fits : octets.length < UInt64.size) :
      Step s { s with
        replica := { s.replica with messages := binding }
        pending := before ++ .sealed octets :: rest }
  /-- A message is handed to the store, which adds it unless it takes too long. -/
  | submit {s : Session} (before rest : List Pending) {octets : Bytes}
      (among : s.pending = before ++ .sealed octets :: rest) :
      Step s { s with
        store := (s.replica.messages.submit s.store octets).2
        pending := before ++ rest }
  /-- A batch of the membership log is taken. -/
  | update {s : Session} (entries : List Log.Entry) :
      Step s { s with replica := (s.replica.update entries).2 }
  /-- A message key is looked up. -/
  | lookUp {s : Session} (device : PublicKey) (chainId counter : UInt64) :
      Step s { s with
        replica := s.replica.withKeys (s.replica.keys.messageKey device chainId counter).2 }
  /-- Others add octets to the message log that are no message of the device on its chain. -/
  | added {s : Session} {octets : Bytes}
      (foreign : ∀ e : Log.Entry, e.payload = octets → s.replica.messages.toReader.Foreign
        s.replica.self.own.device.pub s.replica.keys.own.chainId e) :
      Step s { s with store := (s.store.commit s.replica.messages.address octets).2 }
  /-- Whatever leaves the index of the replica, the message log and the messages on their way as
  they are: writing to other logs, telling subscribers, closing. -/
  | aside {s s' : Session} (index : s'.replica.index = s.replica.index)
      (self : s'.replica.self = s.replica.self)
      (metadata : s'.replica.metadata.toReader = s.replica.metadata.toReader)
      (messages : s'.replica.messages.toReader = s.replica.messages.toReader)
      (entries : s'.store.entries s.replica.messages.address =
        s.store.entries s.replica.messages.address)
      (pending : s'.pending = s.pending) : Step s s'

/-- The sessions of a device on a chain, one after the other: it is opened over a log that has no
message of the device on the chain, and opened again from the origin of the chain when no message is
on its way any more. -/
inductive Runs (group : Group) (device : PrivateKey) (origin : ChainKey) : Session → Prop
  | opened {own : OwnKeys} {settings : Settings} {given : Option ChainKey} {now : Timestamp}
      {store : Log.Store} {draw : Draw (Replica × Log.Store)} (n : Entropy)
      (owner : own.device = device)
      (launched : Replica.launch group own settings given now store = .ok draw)
      (start : (ofDraw draw n).replica.keys.origin = origin)
      (foreign : ∀ e ∈ store.entries (Log.Reader.of group .messages).address,
        (Log.Reader.of group .messages).Foreign device.pub origin.chainId e) :
      Runs group device origin (ofDraw draw n)
  | reopened {s : Session} {own : OwnKeys} {settings : Settings} {now : Timestamp}
      {draw : Draw (Replica × Log.Store)} (n : Entropy)
      (before : Runs group device origin s) (returned : s.pending = [])
      (owner : own.device = device)
      (launched : Replica.launch group own settings (some s.replica.keys.origin) now s.store =
        .ok draw) : Runs group device origin (ofDraw draw n)
  | step {s s' : Session} (before : Runs group device origin s) (last : Step s s') :
      Runs group device origin s'

end Session

end SecureGroup
