import SecureGroup.Log.Entry
import SecureGroup.Text.Quoted
import SecureGroup.Wire.Varint

/-!
# Errors

An error is a cause.  Its kind groups causes by what went wrong (`Error.kind`), its text says it
to a reader (`Error.message`), and `Error.recoverable` tells whether a replay goes on after it.
-/

namespace SecureGroup

def Wire.Error.message : Wire.Error → String
  | .endOfInput => "Hit the end of buffer, expected more data"
  | .varint => "Found a varint that didn't terminate. Is the usize too big for this platform?"
  | .optionMark => "Found an Option discriminant that wasn't 0 or 1"
  | .value => "Serde Deserialization Error"

def Base58.Error.message : Base58.Error → String
  | .notDigit c place =>
    s!"provided string contained invalid character {Text.quoteChar c} at byte {place}"
  | .notAscii place =>
    s!"provided string contained non-ascii character starting at byte {place}"

inductive WireFormat where
  | envelope
  | event
  | chainKey
deriving DecidableEq

def WireFormat.name : WireFormat → String
  | .envelope => "envelope"
  | .event => "metadata event"
  | .chainKey => "chain key"

/-- The links of the proof that a member joined by invitation. -/
inductive ProofLink where
  | inviter
  | invitation
  | member
deriving DecidableEq

def ProofLink.name : ProofLink → String
  | .inviter => "inviter"
  | .invitation => "invitation"
  | .member => "member"

/-- What is wrong with one entry of a custody chain. -/
inductive CustodyFault where
  | wrongParent
  | signerUndecodable
  | signatureMismatch
  | lateInit
  | foreignInit
  | signerNotValid
deriving DecidableEq

def CustodyFault.message : CustodyFault → String
  | .wrongParent => "parent hash does not match previous entry"
  | .signerUndecodable => "signer key cannot be decoded"
  | .signatureMismatch => "signature does not verify"
  | .lateInit => "InitChain after the first entry"
  | .foreignInit => "InitChain is not self-signed"
  | .signerNotValid => "signer was not valid at signing time"

/-- What a change of a custody chain does to its subject. -/
inductive CustodyChange where
  | add
  | remove
deriving DecidableEq

def CustodyChange.verb : CustodyChange → String
  | .add => "add"
  | .remove => "remove"

/-- The numbers that can be set. -/
inductive Setting where
  | eventCapacity
  | appendTimeout
  | maxSkippedKeys
  | batchSize
deriving DecidableEq

def Setting.field : Setting → String
  | .eventCapacity => "event_channel_capacity"
  | .appendTimeout => "append_timeout_ms"
  | .maxSkippedKeys => "max_skipped_keys"
  | .batchSize => "replication_batch_size"

/-- The name of a setting in the environment. -/
def Setting.envName : Setting → String
  | .eventCapacity => "GROUPSYNC_EVENT_CAPACITY"
  | .appendTimeout => "GROUPSYNC_APPEND_TIMEOUT_MS"
  | .maxSkippedKeys => "GROUPSYNC_MAX_SKIPPED_KEYS"
  | .batchSize => "GROUPSYNC_REPLICATION_BATCH"

/-- Why a journal file cannot be opened. -/
inductive FileFault where
  | noSuchDirectory
  | notADirectory
  | nulInName
  | nameTooLong
deriving DecidableEq

def FileFault.message : FileFault → String
  | .noSuchDirectory => "No such file or directory (os error 2)"
  | .notADirectory => "Not a directory (os error 20)"
  | .nulInName => "file name contained an unexpected NUL byte"
  | .nameTooLong => "File name too long (os error 36)"

/-- Why an operation failed. -/
inductive Error where
  | groupIdText (fault : Base58.Error)
  | groupIdLength (length : Nat)
  | foreignGroupKey
  | secretAlreadySent (member : PublicKey)
  | settingZero (setting : Setting)
  | settingText (setting : Setting) (text : String)
  | logFilter
  | privateKeyLength (length : Nat)
  | publicKeyLength (length : Nat)
  | publicKeyPoint
  | undecodable (format : WireFormat) (fault : Wire.Error)
  | json
  | unknownKey (id : String)
  | unknownMember (member : PublicKey)
  | unknownDevice (device : PublicKey)
  | entrySignature (sender : PublicKey)
  | deviceNotAuthorized (member device : PublicKey)
  | memberNotAnnounced (member : PublicKey)
  | announcementAuthor (device : PublicKey)
  | secretAuthor (device author : PublicKey)
  | misdirected (member : PublicKey)
  | alreadyAnnounced (member : PublicKey)
  | deviceTaken (device owner : PublicKey)
  | chainMismatch (sealed announced : UInt64)
  | chainInitialized
  | chainEmpty
  | signerNotAllowed (change : CustodyChange)
  | keyListed
  | keyNotListed
  | firstEntryMissing
  | firstEntryInvalid
  | chainCorrupted (index : Nat) (fault : CustodyFault)
  | malformedSignature
  | freshEntryUnverified
  | counterAhead (counter distance : Nat)
  | boxTooShort
  | notDecrypted
  | envelopeVersion (version : UInt8)
  | invitationVersion (version : UInt8)
  | invitationSignature (link : ProofLink)
  | invitationStart (start : String)
  | invitationText (fault : Base58.Error)
  | invitationData (fault : Wire.Error)
  | invitationGroup (invited here : GroupId)
  | notAdmin (member : PublicKey)
  | noLog (address : Log.Address)
  | noEntry (hash : EntryHash) (address : Log.Address)
  | timeout (ms : Nat)
  | closed
  | file (fault : FileFault)
deriving DecidableEq

/-- The groups of causes. -/
inductive Error.Kind where
  | invalidInput
  | deserialization
  | unknownGroupId
  | unknownMember
  | unknownDevice
  | signatureInvalid
  | secretMisdirected
  | internal
  | chainInitialized
  | chainEmpty
  | signerNotAllowed
  | keyListed
  | keyNotListed
  | firstEntryMissing
  | firstEntryInvalid
  | chainCorrupted
  | crypto
  | decryptionFailed
  | envelopeVersion
  | invalidInvitation
  | notAdmin
  | log
  | timeout
  | closed
  | file
deriving DecidableEq

namespace Error

/-- The text at the start of every encoded invitation. -/
def invitationPrologue : String := "group-invite:"

def kind : Error → Kind
  | groupIdText _ | groupIdLength _ | foreignGroupKey | secretAlreadySent _ | settingZero _
  | settingText _ _ | logFilter => .invalidInput
  | privateKeyLength _ | publicKeyLength _ | publicKeyPoint | undecodable _ _
  | json => .deserialization
  | unknownKey _ => .unknownGroupId
  | unknownMember _ => .unknownMember
  | unknownDevice _ => .unknownDevice
  | entrySignature _ | deviceNotAuthorized _ _ | memberNotAnnounced _ | announcementAuthor _
  | secretAuthor _ _ => .signatureInvalid
  | misdirected _ => .secretMisdirected
  | alreadyAnnounced _ | deviceTaken _ _ | chainMismatch _ _ => .internal
  | chainInitialized => .chainInitialized
  | chainEmpty => .chainEmpty
  | signerNotAllowed _ => .signerNotAllowed
  | keyListed => .keyListed
  | keyNotListed => .keyNotListed
  | firstEntryMissing => .firstEntryMissing
  | firstEntryInvalid => .firstEntryInvalid
  | chainCorrupted _ _ => .chainCorrupted
  | malformedSignature | freshEntryUnverified | counterAhead _ _ => .crypto
  | boxTooShort | notDecrypted => .decryptionFailed
  | envelopeVersion _ => .envelopeVersion
  | invitationVersion _ | invitationSignature _ | invitationStart _ | invitationText _
  | invitationData _ | invitationGroup _ _ => .invalidInvitation
  | notAdmin _ => .notAdmin
  | noLog _ | noEntry _ _ => .log
  | timeout _ => .timeout
  | closed => .closed
  | file _ => .file

/-- Whether a replay drops one entry for an error of this group and goes on. -/
def Kind.recoverable : Kind → Bool
  | .deserialization | .signatureInvalid | .secretMisdirected | .decryptionFailed
  | .envelopeVersion | .invalidInvitation | .invalidInput | .unknownDevice | .unknownMember
  | .notAdmin | .crypto | .internal => true
  | _ => false

/-- Whether a replay drops one entry for this error and goes on. -/
def recoverable (e : Error) : Bool := e.kind.recoverable

/-- What the sentence of every error of a group starts with. -/
def Kind.opening : Kind → String
  | .invalidInput => "Invalid input: "
  | .deserialization => "Deserialization error: "
  | .unknownGroupId => "Unknown group id: "
  | .unknownMember => "Unknown member: "
  | .unknownDevice => "Unknown device: "
  | .signatureInvalid => "Signature invalid: "
  | .secretMisdirected => "Secret is addressed to another member: "
  | .internal => "Internal error: "
  | .crypto => "Crypto error: "
  | .decryptionFailed => "Decryption failed: "
  | .invalidInvitation => "Invalid invitation: "
  | .notAdmin => "Member is not an admin: "
  | .log => "Log error: "
  | .file => "IO error: "
  | _ => ""

/-- What the sentence says of the cause itself. -/
def detail : Error → String
  | groupIdText f => s!"invalid base58 group id: {f.message}"
  | groupIdLength n => s!"group id must be 32 bytes, got {n}"
  | foreignGroupKey => "key does not belong to this group"
  | secretAlreadySent m => s!"secret already sent to {m.short}"
  | settingZero s => s!"{s.field} must be greater than zero"
  | settingText s text => s!"{s.envName} has invalid value {Text.quote text}"
  | logFilter => "invalid log filter"
  | privateKeyLength n => s!"private key must be 32 bytes, got {n}"
  | publicKeyLength n => s!"public key must be 32 bytes, got {n}"
  | publicKeyPoint => "invalid public key: signature error: Cannot decompress Edwards point"
  | undecodable what f => s!"failed to decode {what.name}: {f.message}"
  | json => "malformed JSON"
  | unknownKey id => id
  | unknownMember m => m.short
  | unknownDevice d => d.short
  | entrySignature k => s!"log entry signature does not match key {k.short}"
  | deviceNotAuthorized m d => s!"member {m.short} did not authorize device {d.short}"
  | memberNotAnnounced m => s!"{m.short} was not announced by the group key"
  | announcementAuthor d => s!"initial member device {d.short} did not author the announcement"
  | secretAuthor d a => s!"secret of device {d.short} authored by {a.short}"
  | misdirected m => m.short
  | alreadyAnnounced m => s!"member {m.short} already announced"
  | deviceTaken d m => s!"device {d.short} already registered under member {m.short}"
  | chainMismatch s a =>
    s!"sealed chain {s.toNat} does not match announced chain {a.toNat}"
  | chainInitialized => "sig chain already initialized"
  | chainEmpty => "sig chain has not been initialized yet"
  | signerNotAllowed c => s!"not allowed to {c.verb} entry"
  | keyListed => "pub key is already listed in the sig chain"
  | keyNotListed => "pub key is not currently listed in the sig chain"
  | firstEntryMissing => "unable to find first entry"
  | firstEntryInvalid => "invalid type for first entry"
  | chainCorrupted i f => s!"sig chain corrupted at entry {i}: {f.message}"
  | malformedSignature => "malformed signature: signature error"
  | freshEntryUnverified => "freshly signed entry does not verify"
  | counterAhead c n => s!"message counter {c} is {n} positions ahead of the known chain"
  | boxTooShort => "data too short to contain nonce"
  | notDecrypted => "aead::Error"
  | envelopeVersion v => s!"Envelope version {v.toNat} is not supported"
  | invitationVersion v => s!"unsupported invitation version {v.toNat}"
  | invitationSignature l => s!"{l.name} signature does not verify"
  | invitationStart s => s!"invalid prefix: expected '{invitationPrologue}', got '{s}'"
  | invitationText f => s!"invalid base58: {f.message}"
  | invitationData f => s!"invalid invitation data: {f.message}"
  | invitationGroup i h => s!"invitation is for {i.name}, not {h.name}"
  | notAdmin m => m.short
  | noLog a => s!"no log at {a.name}"
  | noEntry h a => s!"entry {h.short} not found in {a.name}"
  | timeout ms => s!"Operation timed out after {ms} ms"
  | closed => "Group context closed"
  | file f => f.message

def message (e : Error) : String := e.kind.opening ++ e.detail

/-- The causes that more of the log may remove: what the entry refers to is not known yet. -/
def isMissingDependency : Error → Bool
  | unknownMember _ | unknownDevice _ | notAdmin _ => true
  | _ => false

end Error

end SecureGroup
