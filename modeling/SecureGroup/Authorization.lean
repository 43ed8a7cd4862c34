import SecureGroup.Group

/-!
# Signed statements about members and devices

Four statements are signed apart from log entries: an inviter names an invitation key, an
invitation key names a member, a member names a device, and the group key names its first member.
Each is a purpose followed by the group and the key it names, so none can stand for another.
-/

namespace SecureGroup

variable [Suite]

/-- What a key is named for. -/
inductive Purpose where
  | invitation
  | redemption
  | device
  | firstMember
deriving DecidableEq

/-- The octets that start a statement of this purpose. -/
def Purpose.label : Purpose → Bytes
  | .invitation => Bytes.ofString "groupsync-invitation"
  | .redemption => Bytes.ofString "groupsync-invitation-redeem"
  | .device => Bytes.ofString "groupsync-member-device"
  | .firstMember => Bytes.ofString "groupsync-initial-member"

/-- The octets of the statement that names a key in a group. -/
def Purpose.statement (p : Purpose) (group : GroupId) (key : PublicKey) : Bytes :=
  p.label ++ group.bytes.toList ++ key.bytes.toList

/-- A member's signature that names its device. -/
def PrivateKey.signDevice (member : PrivateKey) (group : GroupId) (device : PublicKey) : Bytes :=
  member.sign (Purpose.device.statement group device)

def PublicKey.checkDevice (member : PublicKey) (group : GroupId) (device : PublicKey)
    (signature : Bytes) : Except Error Unit :=
  match member.verify (Purpose.device.statement group device) signature with
  | .ok true => .ok ()
  | .ok false => .error (.deviceNotAuthorized member device)
  | .error e => .error e

/-- The group key's signature that names the first member. -/
def PrivateKey.signFirstMember (groupKey : PrivateKey) (member : PublicKey) : Bytes :=
  groupKey.sign (Purpose.firstMember.statement (.ofKey groupKey.pub) member)

def PublicKey.checkFirstMember (groupKey member : PublicKey) (signature : Bytes) :
    Except Error Unit :=
  match groupKey.verify (Purpose.firstMember.statement (.ofKey groupKey) member) signature with
  | .ok true => .ok ()
  | .ok false => .error (.memberNotAnnounced member)
  | .error e => .error e

end SecureGroup
