import SecureGroup.SecretBox

/-!
# Groups, members and devices

A group is a public identity and a shared key; its members own devices.  `GroupId.ofBase58` reads
an identifier from text.
-/

namespace SecureGroup

variable [Suite]

/-- The identifier that a text writes in base 58. -/
def GroupId.ofBase58 (s : String) : Except Error GroupId :=
  match Base58.decode s with
  | .error fault => .error (.groupIdText fault)
  | .ok bs => match Octets.ofList? 32 bs with
    | some o => .ok ⟨o⟩
    | none => .error (.groupIdLength bs.length)

/-- A group: its public key, and the key that its members share. -/
structure Group where
  key : PublicKey
  shared : Octets 32
deriving DecidableEq

namespace Group

def id (g : Group) : GroupId := .ofKey g.key

/-- A fresh group and the private half of its key. -/
def generate : Draw (Group × PrivateKey) := do
  let key ← PrivateKey.generate
  let shared ← Draw.octets 32
  return (⟨key.pub, shared⟩, key)

/-- The key under which the entries of one of the group's logs are encrypted. -/
def logKey (g : Group) (kind : Log.Kind) : Octets 32 :=
  Suite.derive g.shared.toList (Bytes.ofString ("groupsync-log-key-" ++ kind.label))

/-- The group without its shared key. -/
def debug (g : Group) : String := "Group \x7b id: " ++ g.id.debug ++ ", .. \x7d"

end Group

@[ext]
structure MemberDevice where
  member : PublicKey
  device : PublicKey
deriving DecidableEq

/-- Whether the first pair comes no later, by member and then by device. -/
def MemberDevice.le (a b : MemberDevice) : Bool :=
  if a.member = b.member then a.device.le b.device else a.member.le b.member

/-- The private keys of the local member and device. -/
structure OwnKeys where
  member : PrivateKey
  device : PrivateKey

namespace OwnKeys

def pub (o : OwnKeys) : MemberDevice := ⟨o.member.pub, o.device.pub⟩

def generate : Draw OwnKeys := do
  let member ← PrivateKey.generate
  let device ← PrivateKey.generate
  return ⟨member, device⟩

/-- The public halves, with their types. -/
def debug (o : OwnKeys) : String :=
  "OwnMemberDevice \x7b member: " ++ o.member.pub.debug ++ ", device: " ++ o.device.pub.debug ++
    " \x7d"

end OwnKeys

end SecureGroup
