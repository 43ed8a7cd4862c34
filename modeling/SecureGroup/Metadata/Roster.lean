import SecureGroup.Metadata.Statement
import SecureGroup.Table

/-!
# Rosters

A roster says who belongs to a group: the devices of every member in the order of registration,
the member of every device, and the admins.  `Roster.enrol` gives the rules by which a statement
extends it; a statement that refers to someone who is not known is refused with an error that more
of the log may remove.
-/

namespace SecureGroup.Metadata

/-- Who belongs to a group. -/
structure Roster where
  /-- The devices of every member, in the order of registration. -/
  byMember : Table PublicKey (List MemberDevice)
  /-- Every device under its member. -/
  byDevice : Table PublicKey MemberDevice
  admins : List PublicKey
deriving DecidableEq

namespace Roster

def empty : Roster := ⟨.empty, .empty, []⟩

/-- The member whose device this is. -/
def owner? (r : Roster) (device : PublicKey) : Option PublicKey :=
  (r.byDevice.get? device).map (·.member)

/-- What is registered under a member, in the order of registration. -/
def pairsUnder (r : Roster) (member : PublicKey) : List MemberDevice :=
  (r.byMember.get? member).getD []

/-- The devices of a member, in the order of registration. -/
def devicesUnder (r : Roster) (member : PublicKey) : List PublicKey :=
  (r.pairsUnder member).map (·.device)

/-- Whether someone has a device in the group. -/
def isMember (r : Roster) (member : PublicKey) : Bool := r.byMember.has member

def isAdmin (r : Roster) (member : PublicKey) : Bool := member ∈ r.admins

/-- Puts a device under its member, after the devices that the member has. -/
def insert (r : Roster) (pair : MemberDevice) : Roster :=
  { r with
    byMember := r.byMember.put pair.member (r.pairsUnder pair.member ++ [pair])
    byDevice := r.byDevice.put pair.device pair }

/-- Registers a device under its member, unless it is registered under another one. -/
def register (r : Roster) (pair : MemberDevice) : Except Error Roster :=
  match r.owner? pair.device with
  | none => .ok (r.insert pair)
  | some owner => if owner = pair.member then .ok r else .error (.deviceTaken pair.device owner)

def promote (r : Roster) (member : PublicKey) : Roster :=
  if member ∈ r.admins then r else { r with admins := r.admins ++ [member] }

/-- The roster after a statement of a device. -/
def enrol (r : Roster) (author : PublicKey) : Statement → Except Error Roster
  | .announced pair =>
    if r.isAdmin pair.member then .error (.alreadyAnnounced pair.member)
    else (r.register pair).map (·.promote pair.member)
  | .joined pair inviter =>
    if r.isMember inviter then r.register pair else .error (.unknownMember inviter)
  | .extended pair =>
    if r.isMember pair.member then r.register pair else .error (.unknownMember pair.member)
  | .sent _ _ _ => .ok r
  | .granted member =>
    match r.owner? author with
    | none => .error (.unknownDevice author)
    | some granter =>
      if !r.isAdmin granter then .error (.notAdmin granter)
      else if !r.isMember member then .error (.unknownMember member)
      else .ok (r.promote member)

/-! ## Questions -/

def members (r : Roster) : List PublicKey := PublicKey.sort r.byMember.keys

def devices (r : Roster) : List PublicKey := PublicKey.sort r.byDevice.keys

def sortedAdmins (r : Roster) : List PublicKey := PublicKey.sort r.admins

def pairs (r : Roster) : List MemberDevice := r.byDevice.values

def sortedPairs (r : Roster) : List MemberDevice := r.pairs.mergeSort MemberDevice.le

def memberCount (r : Roster) : Nat := r.byMember.size

def deviceCount (r : Roster) : Nat := r.byDevice.size

/-- The devices of a member that must be known, in the order of registration. -/
def devicesOf (r : Roster) (member : PublicKey) : Except Error (List PublicKey) :=
  if r.isMember member then .ok (r.devicesUnder member) else .error (.unknownMember member)

/-- The member of a device that must be known. -/
def memberOf (r : Roster) (device : PublicKey) : Except Error PublicKey :=
  match r.owner? device with
  | some member => .ok member
  | none => .error (.unknownDevice device)

end Roster

end SecureGroup.Metadata
