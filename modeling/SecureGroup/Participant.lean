import SecureGroup.Group

/-!
# Participants

A participant is a device that takes part in a group.  The public halves of its keys are kept
beside them.
-/

namespace SecureGroup

variable [Suite]

/-- A device that takes part in a group. -/
structure Participant where
  group : Group
  own : OwnKeys
  ids : MemberDevice
  ids_eq : ids = own.pub

def Participant.of (group : Group) (own : OwnKeys) : Participant := ⟨group, own, own.pub, rfl⟩

end SecureGroup
