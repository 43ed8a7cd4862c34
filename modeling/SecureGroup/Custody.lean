import SecureGroup.Signing
import SecureGroup.Timestamp
import SecureGroup.Json.Value

/-!
# Custody chains

A custody chain records which keys may act for one identity.  Its first entry is signed by the
key it names; every later entry adds or removes a key, is signed by a key that was current, and
carries the hash of the entry before it.  `Custody.check` accepts exactly the chains built so.
-/

namespace SecureGroup

variable [Suite]

namespace Custody

/-- What an entry does to its subject. -/
inductive Action where
  | start
  | add
  | remove
deriving DecidableEq

/-- The octet of an action in signed data. -/
def Action.code : Action → UInt8
  | .start => 1
  | .add => 2
  | .remove => 3

def Action.name : Action → String
  | .start => "InitChain"
  | .add => "AddKey"
  | .remove => "RemoveKey"

def Action.ofName? (name : String) : Option Action :=
  [start, add, remove].find? fun a : Action => a.name = name

/-- An entry of a custody chain. -/
structure Entry where
  action : Action
  subject : Bytes
  signer : Bytes
  parent : Option (Octets 32)
  created : Timestamp
  expires : Timestamp
  signature : Bytes
deriving DecidableEq

namespace Entry

/-- The octets that the signature covers. -/
def signedData (e : Entry) : Bytes :=
  e.action.code :: (Bytes.ofNatLE 4 e.subject.length ++ e.subject ++
    Bytes.ofNatLE 4 e.signer.length ++ e.signer ++
    (match e.parent with
      | some hash => 1 :: hash.toList
      | none => [0]) ++
    e.created.octets ++ e.expires.octets)

/-- The hash by which the next entry names this one. -/
def hash (e : Entry) : Octets 32 := Suite.digest (e.signedData ++ e.signature)

def verify (e : Entry) : Except Error Bool := do
  (← PublicKey.ofBytes e.signer).verify e.signedData e.signature

def signBy (e : Entry) (key : PrivateKey) : Entry :=
  { e with signature := key.sign e.signedData }

/-- The current keys after an entry; a subject that is no key changes nothing. -/
def apply (e : Entry) (keys : List PublicKey) : List PublicKey :=
  match PublicKey.ofBytes e.subject with
  | .error _ => keys
  | .ok k =>
    match e.action with
    | .remove => keys.erase k
    | .start | .add => if k ∈ keys then keys else keys ++ [k]

end Entry

end Custody

/-- A custody chain: its entries, the first one first. -/
structure Custody where
  entries : List Custody.Entry
deriving DecidableEq

namespace Custody

def empty : Custody := ⟨[]⟩

/-- The first entry, which must start the chain. -/
def firstEntry (c : Custody) : Except Error Entry :=
  match c.entries with
  | [] => .error .firstEntryMissing
  | e :: _ => if e.action = .start then .ok e else .error .firstEntryInvalid

/-- The keys that may act now, in the order in which they were added. -/
def keys (c : Custody) : List PublicKey := c.entries.foldl (fun ks e => e.apply ks) []

/-- What is wrong with the entry at an index, if anything: its parent must be the hash before it
and its signer one of the keys current there. -/
def fault? (index : Nat) (parent : Option (Octets 32)) (keys : List PublicKey) (e : Entry) :
    Option CustodyFault :=
  if e.parent ≠ parent then some .wrongParent
  else match PublicKey.ofBytes e.signer with
    | .error _ => some .signerUndecodable
    | .ok signer =>
      if !signer.accepts e.signedData e.signature then some .signatureMismatch
      else if e.action = .start then
        if index ≠ 0 then some .lateInit
        else if e.subject ≠ e.signer then some .foreignInit
        else none
      else if signer ∉ keys then some .signerNotValid
      else none

/-- Checks the entries from an index on. -/
def checkFrom (index : Nat) (parent : Option (Octets 32)) (keys : List PublicKey) :
    List Entry → Except Error Unit
  | [] => .ok ()
  | e :: rest =>
    match fault? index parent keys e with
    | some fault => .error (.chainCorrupted index fault)
    | none => checkFrom (index + 1) (some e.hash) (e.apply keys) rest

def check (c : Custody) : Except Error Unit := do
  let _ ← c.firstEntry
  checkFrom 0 none [] c.entries

/-- The chain with these entries, if it passes the check. -/
def ofEntries (entries : List Entry) : Except Error Custody :=
  (Custody.mk entries).check.map fun _ => ⟨entries⟩

/-- The chain with one more entry, which the signer signs now, and that entry. -/
def append (c : Custody) (now : Timestamp) (signer : PrivateKey) (action : Action)
    (subject : PublicKey) : Except Error (Entry × Custody) := do
  let entry := Entry.signBy {
    action := action
    subject := subject.bytes.toList
    signer := signer.pub.bytes.toList
    parent := c.entries.getLast?.map Entry.hash
    created := now
    expires := .farFuture
    signature := [] } signer
  if ← entry.verify then return (entry, ⟨c.entries ++ [entry]⟩)
  else throw .freshEntryUnverified

/-- Starts the chain with a key. -/
def start (c : Custody) (now : Timestamp) (key : PrivateKey) : Except Error (Entry × Custody) :=
  if c.entries.isEmpty then c.append now key .start key.pub else .error .chainInitialized

/-- Adds a key that is not current. -/
def add (c : Custody) (now : Timestamp) (signer : PrivateKey) (subject : PublicKey) :
    Except Error (Entry × Custody) :=
  if c.entries.isEmpty then .error .chainEmpty
  else if signer.pub ∉ c.keys then .error (.signerNotAllowed .add)
  else if subject ∈ c.keys then .error .keyListed
  else c.append now signer .add subject

def remove (c : Custody) (now : Timestamp) (signer : PrivateKey) (subject : PublicKey) :
    Except Error (Entry × Custody) :=
  if c.entries.isEmpty then .error .chainEmpty
  else if signer.pub ∉ c.keys then .error (.signerNotAllowed .remove)
  else if subject ∉ c.keys then .error .keyNotListed
  else c.append now signer .remove subject

/-! ## As JSON -/

def octetsJson (bs : Bytes) : Json := .array (bs.map fun b => .nat b.toNat)

def Entry.toJson (e : Entry) : Json := .object [
  ("entry_type", .string e.action.name),
  ("subject_public_key", octetsJson e.subject),
  ("signer_public_key", octetsJson e.signer),
  ("parent_entry_hash", match e.parent with
    | some hash => octetsJson hash.toList
    | none => .null),
  ("created_at", .string e.created.toShortText),
  ("expires_at", .string e.expires.toShortText),
  ("signature", octetsJson e.signature)]

def toJson (c : Custody) : Json := .object [("entries", .array (c.entries.map Entry.toJson))]

end Custody

end SecureGroup
