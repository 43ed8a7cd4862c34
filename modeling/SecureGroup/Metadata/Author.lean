import SecureGroup.Metadata.Index

/-!
# Writing events

The events that a participant may write.  What the index already shows to be useless is refused
before anything is written; the index itself changes only when the entry comes back from the log.
-/

namespace SecureGroup.Metadata

variable [Suite]

/-- The participant as the first member of the group, whose private key proves it. -/
def announce (p : Participant) (groupKey : PrivateKey) : Except Error Event :=
  if groupKey.pub ≠ p.group.key then .error .foreignGroupKey
  else .ok (.memberAnnounced p.ids.member.bytes.toList p.ids.device.bytes.toList
    (p.own.member.signDevice p.group.id p.ids.device) (groupKey.signFirstMember p.ids.member))

/-- The participant's device under its member, which must be known. -/
def addDevice (p : Participant) (s : State) : Except Error Event := do
  let _ ← s.roster.devicesOf p.ids.member
  return .deviceAdded p.ids.member.bytes.toList p.ids.device.bytes.toList
    (p.own.member.signDevice p.group.id p.ids.device) none

/-- The sending chain as it stands, for a member that does not have it. -/
def sendSecret (p : Participant) (s : State) (recipient : PublicKey) :
    Except Error (Draw Event) := do
  let _ ← s.roster.devicesOf recipient
  if s.hasSent recipient then throw (.secretAlreadySent recipient)
  return do
    let secret ← SealedSecret.close (ChainKey.codec.encode s.keys.own) recipient
    return .secretAdded p.ids.device.bytes.toList recipient.bytes.toList s.keys.own.chainId secret

/-- The admin role for a member, from an admin. -/
def grantAdmin (p : Participant) (s : State) (member : PublicKey) : Except Error Event := do
  if !s.roster.isAdmin p.ids.member then throw (.notAdmin p.ids.member)
  let _ ← s.roster.devicesOf member
  return .adminGranted member.bytes.toList

/-- A member that joins with a device by an invitation to the participant's group. -/
def redeem (p : Participant) (member device : PrivateKey) (invitation : Invitation) :
    Except Error Event := do
  if invitation.group.id ≠ p.group.id then
    throw (.invitationGroup invitation.group.id p.group.id)
  let proof ← invitation.redeem member device.pub
  return .deviceAdded member.pub.bytes.toList device.pub.bytes.toList
    (member.signDevice p.group.id device.pub) (some proof)

end SecureGroup.Metadata
