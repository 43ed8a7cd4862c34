import SecureGroup.ChainKey
import SecureGroup.Metadata.Event
import SecureGroup.Participant

/-!
# Statements

A statement is an event whose own claims have been checked: its keys are keys, its signatures fit,
it was written by the device it names where it must be, and a secret for the local member has been
opened.  None of this depends on what the log said before.
-/

namespace SecureGroup.Metadata

variable [Suite]

/-- A checked event. -/
inductive Statement where
  /-- The group announced a member with a device. -/
  | announced (pair : MemberDevice)
  /-- An inviter let a member join with a device. -/
  | joined (pair : MemberDevice) (inviter : PublicKey)
  /-- A member has another device. -/
  | extended (pair : MemberDevice)
  /-- The author sent a chain to a member; it is known if that is the local one. -/
  | sent (recipient : PublicKey) (chainId : UInt64) (chain : Option ChainKey)
  /-- The author makes a member an admin. -/
  | granted (member : PublicKey)
deriving DecidableEq

/-- The chain that was sealed for the local member. -/
def openSecret (p : Participant) (chainId : UInt64) (secret : SealedSecret) :
    Except Error ChainKey := do
  let chain ← ChainKey.ofBytes (← secret.reveal p.own.member)
  if chain.chainId ≠ chainId then throw (.chainMismatch chain.chainId chainId)
  return chain

/-- The statement of an event that a device wrote. -/
def Event.statement (p : Participant) (author : PublicKey) : Event → Except Error Statement
  | .memberAnnounced member device memberSignature groupSignature => do
    let member ← PublicKey.ofBytes member
    let device ← PublicKey.ofBytes device
    if author ≠ device then throw (.announcementAuthor device)
    p.group.key.checkFirstMember member groupSignature
    member.checkDevice p.group.id device memberSignature
    return .announced ⟨member, device⟩
  | .deviceAdded member device memberSignature proof => do
    let member ← PublicKey.ofBytes member
    let device ← PublicKey.ofBytes device
    member.checkDevice p.group.id device memberSignature
    match proof with
    | some proof =>
      proof.check p.group.id member device
      return .joined ⟨member, device⟩ proof.inviter
    | none => return .extended ⟨member, device⟩
  | .secretAdded device recipient chainId secret => do
    let recipient ← PublicKey.ofBytes recipient
    let device ← PublicKey.ofBytes device
    if author ≠ device then throw (.secretAuthor device author)
    if recipient = p.ids.member then
      return .sent recipient chainId (some (← openSecret p chainId secret))
    else return .sent recipient chainId none
  | .adminGranted member => return .granted (← PublicKey.ofBytes member)

end SecureGroup.Metadata
