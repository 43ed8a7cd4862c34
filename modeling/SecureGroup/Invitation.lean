import SecureGroup.Authorization

/-!
# Invitations

An invitation is a one-time key that an inviter signed, together with the keys of the group.
Redeeming it gives a proof of three signatures: the inviter names the invitation key, the
invitation key names the new member, and the member names its device.
-/

namespace SecureGroup

variable [Suite]

/-- The proof that a member joined by invitation. -/
structure JoinProof where
  inviter : PublicKey
  invitationKey : PublicKey
  inviterSignature : Bytes
  invitationSignature : Bytes
  memberSignature : Bytes
deriving DecidableEq

namespace JoinProof

/-- Checks the three signatures for a group, a member and a device. -/
def check (p : JoinProof) (group : GroupId) (member device : PublicKey) : Except Error Unit :=
  if !p.inviter.accepts (Purpose.invitation.statement group p.invitationKey) p.inviterSignature then
    .error (.invitationSignature .inviter)
  else if !p.invitationKey.accepts (Purpose.redemption.statement group member)
      p.invitationSignature then
    .error (.invitationSignature .invitation)
  else if !member.accepts (Purpose.device.statement group device) p.memberSignature then
    .error (.invitationSignature .member)
  else .ok ()

def codec : Codec JoinProof :=
  (Codec.pair PublicKey.codec (Codec.pair PublicKey.codec (Codec.pair Codec.bytes
    (Codec.pair Codec.bytes Codec.bytes)))).convert
    (fun p => (p.inviter, p.invitationKey, p.inviterSignature, p.invitationSignature,
      p.memberSignature))
    fun (i, k, a, b, c) => some ⟨i, k, a, b, c⟩

end JoinProof

structure Invitation where
  version : UInt8
  groupKey : PublicKey
  shared : Octets 32
  inviter : PublicKey
  seed : Octets 32
  signature : Bytes
deriving DecidableEq

namespace Invitation

/-- The version that is written and understood. -/
def currentVersion : UInt8 := 1

def key (i : Invitation) : PrivateKey := ⟨i.seed⟩

def group (i : Invitation) : Group := ⟨i.groupKey, i.shared⟩

/-- The invitation to a group with a given one-time key. -/
def issueWith (seed : Octets 32) (inviter : PrivateKey) (group : Group) : Invitation where
  version := currentVersion
  groupKey := group.key
  shared := group.shared
  inviter := inviter.pub
  seed := seed
  signature := inviter.sign (Purpose.invitation.statement group.id (PrivateKey.mk seed).pub)

def issue (inviter : PrivateKey) (group : Group) : Draw Invitation := do
  return issueWith (← Draw.octets 32) inviter group

/-- Checks the version and the inviter's signature. -/
def validate (i : Invitation) : Except Error Unit :=
  if i.version ≠ currentVersion then .error (.invitationVersion i.version)
  else if !i.inviter.accepts (Purpose.invitation.statement i.group.id i.key.pub) i.signature then
    .error (.invitationSignature .inviter)
  else .ok ()

/-- The proof that a member joined through a valid invitation with a device. -/
def redeem (i : Invitation) (member : PrivateKey) (device : PublicKey) :
    Except Error JoinProof := do
  i.validate
  return {
    inviter := i.inviter
    invitationKey := i.key.pub
    inviterSignature := i.signature
    invitationSignature := i.key.sign (Purpose.redemption.statement i.group.id member.pub)
    memberSignature := member.signDevice i.group.id device }

def codec : Codec Invitation :=
  (Codec.pair Codec.octet (Codec.pair PublicKey.codec (Codec.pair (Codec.octets 32)
    (Codec.pair PublicKey.codec (Codec.pair (Codec.octets 32) Codec.bytes))))).convert
    (fun i => (i.version, i.groupKey, i.shared, i.inviter, i.seed, i.signature))
    fun (v, g, s, i, k, sig) => some ⟨v, g, s, i, k, sig⟩

def toText (i : Invitation) : String :=
  Error.invitationPrologue ++ Base58.encode (codec.encode i)

/-- The text without the prologue of invitations, if it starts with it. -/
def dropPrologue? (s : String) : Option String :=
  let start := Error.invitationPrologue.toList
  if start.isPrefixOf s.toList then some (String.ofList (s.toList.drop start.length)) else none

/-- Reads a valid invitation from text. -/
def ofText (s : String) : Except Error Invitation :=
  match dropPrologue? s with
  | none =>
    .error (.invitationStart (String.ofList (s.toList.take Error.invitationPrologue.length)))
  | some rest =>
    match Base58.decode rest with
    | .error fault => .error (.invitationText fault)
    | .ok bs =>
      match codec.read bs with
      | .error fault => .error (.invitationData fault)
      | .ok i => i.validate.map fun _ => i

/-- The group and the inviter, with their types. -/
def debug (i : Invitation) : String :=
  "Invitation \x7b group: " ++ i.group.id.debug ++ ", inviter: " ++ i.inviter.debug ++ ", .. \x7d"

end Invitation

end SecureGroup
