import SecureGroup.ChainKeys
import SecureGroup.Log.Binding

/-!
# Messages

The body of a message names the chain and the position under whose key it is encrypted.  A
listing gives one item for every entry of the log that opens, whether or not its key is known, so
its length depends on the log alone.
-/

namespace SecureGroup

variable [Suite]

structure Message where
  entry : EntryHash
  device : PublicKey
  counter : UInt64
  payload : Bytes
deriving DecidableEq

namespace Message

/-- The body of a message: chain, position and box. -/
structure Body where
  chainId : UInt64
  counter : UInt64
  box : Bytes
deriving DecidableEq

def Body.codec : Codec Body :=
  (Codec.pair Codec.word64 (Codec.pair Codec.word64 Codec.bytes)).convert
    (fun b => (b.chainId, b.counter, b.box)) fun (i, n, b) => some ⟨i, n, b⟩

/-- Why the body of an entry that opens cannot be decrypted. -/
inductive Fault where
  | body (fault : Wire.Error)
  | key (cause : Error)
deriving DecidableEq

def Fault.message : Fault → String
  | .body fault => s!"failed to decode message: {fault.message}"
  | .key cause => cause.message

/-- One entry of a message log as a reader sees it. -/
inductive Item where
  | decrypted (message : Message)
  | pending (entry : EntryHash) (device : PublicKey) (counter : UInt64)
  | undecryptable (entry : EntryHash) (device : PublicKey) (fault : Fault)
deriving DecidableEq

/-- The message of an item, if it was decrypted. -/
def Item.message? : Item → Option Message
  | .decrypted m => some m
  | _ => none

/-- Encrypts a payload under the next key of the sending chain and a given nonce. -/
def composeWith (keys : ChainKeys) (nonce : Octets 12) (payload : Bytes) : Bytes × ChainKeys :=
  let ((chainId, counter, key), keys) := keys.nextOwn
  (Body.codec.encode ⟨chainId, counter, SecretBox.sealWith key nonce payload⟩, keys)

/-- Encrypts a payload under the next key of the sending chain. -/
def compose (keys : ChainKeys) (payload : Bytes) : Draw (Bytes × ChainKeys) := do
  return composeWith keys (← Draw.octets 12) payload

def itemOf (keys : ChainKeys) (e : Log.Opened) : Item × ChainKeys :=
  match Body.codec.read e.payload with
  | .error fault => (.undecryptable e.hash e.sender (.body fault), keys)
  | .ok body =>
    let (key, keys) := keys.messageKey e.sender body.chainId body.counter
    let item := match key with
      | .error cause => .undecryptable e.hash e.sender (.key cause)
      | .ok none => .pending e.hash e.sender body.counter
      | .ok (some key) =>
        match SecretBox.reveal key body.box with
        | .ok payload => .decrypted ⟨e.hash, e.sender, body.counter, payload⟩
        | .error cause => .undecryptable e.hash e.sender (.key cause)
    (item, keys)

/-- Opens an entry and decrypts its body. -/
def decrypt (reader : Log.Reader) (keys : ChainKeys) (e : Log.Entry) :
    Except Error Item × ChainKeys :=
  match reader.read e with
  | .error cause => (.error cause, keys)
  | .ok opened =>
    let (item, keys) := itemOf keys opened
    (.ok item, keys)

/-- The items of a log, one for each entry that opens. -/
def list (reader : Log.Reader) (keys : ChainKeys) : List Log.Entry → List Item × ChainKeys
  | [] => ([], keys)
  | e :: rest =>
    match decrypt reader keys e with
    | (.error _, keys) => list reader keys rest
    | (.ok item, keys) =>
      let (items, keys) := list reader keys rest
      (item :: items, keys)

/-- The position after an entry, if it is one of a device on a chain. -/
def nextAfter? (reader : Log.Reader) (device : PublicKey) (chainId : UInt64) (e : Log.Entry) :
    Option UInt64 :=
  match reader.read e with
  | .error _ => none
  | .ok opened =>
    if opened.sender ≠ device then none
    else match Body.codec.read opened.payload with
      | .error _ => none
      | .ok body => if body.chainId = chainId then some (body.counter + 1) else none

/-- Moves the sending chain past every position that the log shows as used. -/
def resume (reader : Log.Reader) (keys : ChainKeys) (entries : List Log.Entry) : ChainKeys :=
  keys.skipOwnTo
    ((entries.filterMap (nextAfter? reader keys.ownDevice keys.own.chainId)).foldl max 0)

end Message

/-- An entry is not a message of a device on a chain. -/
def Log.Reader.Foreign (reader : Reader) (sender : PublicKey) (chainId : UInt64) (e : Entry) :
    Prop :=
  Message.nextAfter? reader sender chainId e = none

end SecureGroup
