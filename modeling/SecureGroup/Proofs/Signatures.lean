import SecureGroup.Proofs.Roster

/-!
# What the signatures of an event say

A statement comes from an event whose keys are keys and whose signatures fit.  Each kind of
statement is characterised by the signatures that it needs: `Event.Announces`, `Event.Invites`,
`Event.AddsDevice` and `Event.Grants`.  In all of the first three the member has signed for its
device (`Event.SignsDevice`).
-/

namespace SecureGroup

variable [Suite] {key member device : PublicKey} {group : GroupId} {signature : Bytes}

omit [Suite] in
theorem bind_eq_ok_iff {ε α β : Type} {x : Except ε α} {f : α → Except ε β} {b : β} :
    (x >>= f) = .ok b ↔ ∃ a, x = .ok a ∧ f a = .ok b := by
  cases x with
  | error e => simp [bind, Except.bind]
  | ok a => simp [bind, Except.bind]

/-- A device is authorized when its member signed for it. -/
theorem PublicKey.checkDevice_eq_ok_iff : member.checkDevice group device signature = .ok () ↔
    member.accepts (Purpose.device.statement group device) signature = true := by
  rw [← verify_eq_ok_true_iff, checkDevice]
  split
  · next h => simp [h]
  · next h => simp [h]
  · next h => simp [h]

/-- A first member is announced when the group signed for it. -/
theorem PublicKey.checkFirstMember_eq_ok_iff : key.checkFirstMember member signature = .ok () ↔
    key.accepts (Purpose.firstMember.statement (.ofKey key) member) signature = true := by
  rw [← verify_eq_ok_true_iff, checkFirstMember]
  split
  · next h => simp [h]
  · next h => simp [h]
  · next h => simp [h]

/-- The three signatures of a proof fit. -/
structure JoinProof.Verifies (p : JoinProof) (group : GroupId) (member device : PublicKey) :
    Prop where
  inviter : p.inviter.accepts (Purpose.invitation.statement group p.invitationKey)
    p.inviterSignature = true
  invitation : p.invitationKey.accepts (Purpose.redemption.statement group member)
    p.invitationSignature = true
  member : member.accepts (Purpose.device.statement group device) p.memberSignature = true

theorem JoinProof.check_eq_ok_iff {p : JoinProof} :
    p.check group member device = .ok () ↔ p.Verifies group member device := by
  unfold check
  constructor
  · intro h
    split at h
    · cases h
    · next hi =>
      split at h
      · cases h
      · next hk =>
        split at h
        · cases h
        · next hm => exact ⟨by simpa using hi, by simpa using hk, by simpa using hm⟩
  · rintro ⟨hi, hk, hm⟩
    simp [hi, hk, hm]

namespace Metadata.Event

variable {p : Participant} {author m : PublicKey} {pair : MemberDevice} {event : Event}

/-- The event names a member and a device, and the member has signed for the device. -/
def SignsDevice (p : Participant) (pair : MemberDevice) : Event → Prop
  | .memberAnnounced member device signature _ | .deviceAdded member device signature _ =>
    PublicKey.ofBytes member = .ok pair.member ∧ PublicKey.ofBytes device = .ok pair.device ∧
      pair.member.accepts (Purpose.device.statement p.group.id pair.device) signature = true
  | .secretAdded .. | .adminGranted _ => False

/-- The event announces a member whom the group has signed for, and is from its device. -/
def Announces (p : Participant) (author : PublicKey) (pair : MemberDevice) (event : Event) :
    Prop :=
  event.SignsDevice p pair ∧ author = pair.device ∧
    ∃ member device signature groupSignature,
      event = .memberAnnounced member device signature groupSignature ∧
      p.group.key.accepts (Purpose.firstMember.statement p.group.id pair.member)
        groupSignature = true

/-- The event lets a member join, with a proof of an inviter that verifies. -/
def Invites (p : Participant) (inviter : PublicKey) (pair : MemberDevice) (event : Event) : Prop :=
  event.SignsDevice p pair ∧ ∃ member device signature proof,
    event = .deviceAdded member device signature (some proof) ∧ proof.inviter = inviter ∧
      proof.Verifies p.group.id pair.member pair.device

def AddsDevice (p : Participant) (pair : MemberDevice) (event : Event) : Prop :=
  event.SignsDevice p pair ∧ ∃ member device signature,
    event = .deviceAdded member device signature none

def Grants (m : PublicKey) (event : Event) : Prop :=
  ∃ member, event = .adminGranted member ∧ PublicKey.ofBytes member = .ok m

variable {mb db ms gs : Bytes} {proof : JoinProof} {said : Statement}

/-! ## What is checked of each kind of event -/

theorem statement_memberAnnounced : (memberAnnounced mb db ms gs).statement p author = .ok said ↔
    ∃ pair, PublicKey.ofBytes mb = .ok pair.member ∧ PublicKey.ofBytes db = .ok pair.device ∧
      author = pair.device ∧ p.group.key.checkFirstMember pair.member gs = .ok () ∧
      pair.member.checkDevice p.group.id pair.device ms = .ok () ∧ .announced pair = said := by
  simp only [statement, bind_eq_ok_iff]
  constructor
  · rintro ⟨m, hm, d, hd, h⟩
    by_cases ha : author = d
    · simp only [ha, ne_eq, not_true_eq_false, if_false, bind_eq_ok_iff] at h
      obtain ⟨_, hfirst, _, hdevice, hsaid⟩ := h
      exact ⟨⟨m, d⟩, hm, hd, ha, hfirst, hdevice, Except.ok.inj hsaid⟩
    · simp [ha] at h
      cases h
  · rintro ⟨pair, hm, hd, ha, hfirst, hdevice, rfl⟩
    refine ⟨_, hm, _, hd, ?_⟩
    simp only [ha, ne_eq, not_true_eq_false, if_false, hfirst, hdevice]
    rfl

theorem statement_deviceAdded_none : (deviceAdded mb db ms none).statement p author = .ok said ↔
    ∃ pair, PublicKey.ofBytes mb = .ok pair.member ∧ PublicKey.ofBytes db = .ok pair.device ∧
      pair.member.checkDevice p.group.id pair.device ms = .ok () ∧ .extended pair = said := by
  simp only [statement, bind_eq_ok_iff]
  constructor
  · rintro ⟨m, hm, d, hd, _, hdevice, hsaid⟩
    exact ⟨⟨m, d⟩, hm, hd, hdevice, Except.ok.inj hsaid⟩
  · rintro ⟨pair, hm, hd, hdevice, rfl⟩
    exact ⟨_, hm, _, hd, _, hdevice, rfl⟩

theorem statement_deviceAdded_some :
    (deviceAdded mb db ms (some proof)).statement p author = .ok said ↔
      ∃ pair, PublicKey.ofBytes mb = .ok pair.member ∧ PublicKey.ofBytes db = .ok pair.device ∧
        pair.member.checkDevice p.group.id pair.device ms = .ok () ∧
        proof.check p.group.id pair.member pair.device = .ok () ∧
        .joined pair proof.inviter = said := by
  simp only [statement, bind_eq_ok_iff]
  constructor
  · rintro ⟨m, hm, d, hd, _, hdevice, _, hproof, hsaid⟩
    exact ⟨⟨m, d⟩, hm, hd, hdevice, hproof, Except.ok.inj hsaid⟩
  · rintro ⟨pair, hm, hd, hdevice, hproof, rfl⟩
    exact ⟨_, hm, _, hd, _, hdevice, _, hproof, rfl⟩

theorem statement_secretAdded {chainId : UInt64} {secret : SealedSecret}
    (h : (secretAdded db mb chainId secret).statement p author = .ok said) :
    ∃ recipient chain, PublicKey.ofBytes mb = .ok recipient ∧
      PublicKey.ofBytes db = .ok author ∧ said = .sent recipient chainId chain := by
  simp only [statement, bind_eq_ok_iff] at h
  obtain ⟨recipient, hm, device, hd, h⟩ := h
  by_cases ha : author = device
  · subst ha
    simp only [ne_eq, not_true_eq_false, if_false] at h
    by_cases hown : recipient = p.ids.member
    · simp only [hown, if_true, bind_eq_ok_iff] at h
      obtain ⟨chain, -, hsaid⟩ := h
      exact ⟨recipient, some chain, hm, hd, hown ▸ (Except.ok.inj hsaid).symm⟩
    · simp only [hown, if_false] at h
      exact ⟨recipient, none, hm, hd, (Except.ok.inj h).symm⟩
  · simp [ha] at h
    cases h

theorem statement_secretAdded_ne {chainId : UInt64} {secret : SealedSecret}
    (hs : said.sent? = none) :
    (secretAdded db mb chainId secret).statement p author ≠ .ok said := by
  intro h
  obtain ⟨recipient, chain, -, -, rfl⟩ := statement_secretAdded h
  cases hs

theorem statement_adminGranted : (adminGranted mb).statement p author = .ok said ↔
    ∃ m, PublicKey.ofBytes mb = .ok m ∧ .granted m = said := by
  simp only [statement, bind_eq_ok_iff]
  constructor
  · rintro ⟨m, hm, hsaid⟩
    exact ⟨m, hm, Except.ok.inj hsaid⟩
  · rintro ⟨m, hm, rfl⟩
    exact ⟨m, hm, rfl⟩

/-! ## What a statement rests on -/

theorem statement_eq_announced_iff :
    event.statement p author = .ok (.announced pair) ↔ event.Announces p author pair := by
  cases event with
  | memberAnnounced mb db ms gs =>
    rw [statement_memberAnnounced]
    constructor
    · rintro ⟨q, hm, hd, ha, hfirst, hdevice, hq⟩
      obtain rfl := Statement.announced.inj hq
      exact ⟨⟨hm, hd, PublicKey.checkDevice_eq_ok_iff.1 hdevice⟩, ha, mb, db, ms, gs, rfl,
        PublicKey.checkFirstMember_eq_ok_iff.1 hfirst⟩
    · rintro ⟨⟨hm, hd, hdevice⟩, ha, _, _, _, _, he, hfirst⟩
      cases he
      exact ⟨pair, hm, hd, ha, PublicKey.checkFirstMember_eq_ok_iff.2 hfirst,
        PublicKey.checkDevice_eq_ok_iff.2 hdevice, rfl⟩
  | deviceAdded mb db ms proof =>
    cases proof with
    | none => simp [statement_deviceAdded_none, Announces]
    | some proof => simp [statement_deviceAdded_some, Announces]
  | secretAdded db mb chainId secret =>
    exact iff_of_false (statement_secretAdded_ne rfl) fun h => h.1
  | adminGranted mb => simp [statement_adminGranted, Announces]

theorem statement_eq_joined_iff {inviter : PublicKey} :
    event.statement p author = .ok (.joined pair inviter) ↔ event.Invites p inviter pair := by
  cases event with
  | memberAnnounced mb db ms gs => simp [statement_memberAnnounced, Invites]
  | deviceAdded mb db ms proof =>
    cases proof with
    | none => simp [statement_deviceAdded_none, Invites]
    | some proof =>
      rw [statement_deviceAdded_some]
      constructor
      · rintro ⟨q, hm, hd, hdevice, hproof, hq⟩
        obtain ⟨rfl, rfl⟩ := Statement.joined.inj hq
        exact ⟨⟨hm, hd, PublicKey.checkDevice_eq_ok_iff.1 hdevice⟩, mb, db, ms, proof, rfl, rfl,
          JoinProof.check_eq_ok_iff.1 hproof⟩
      · rintro ⟨⟨hm, hd, hdevice⟩, _, _, _, _, he, rfl, hproof⟩
        cases he
        exact ⟨pair, hm, hd, PublicKey.checkDevice_eq_ok_iff.2 hdevice,
          JoinProof.check_eq_ok_iff.2 hproof, rfl⟩
  | secretAdded db mb chainId secret =>
    exact iff_of_false (statement_secretAdded_ne rfl) fun h => h.1
  | adminGranted mb => simp [statement_adminGranted, Invites]

theorem statement_eq_extended_iff :
    event.statement p author = .ok (.extended pair) ↔ event.AddsDevice p pair := by
  cases event with
  | memberAnnounced mb db ms gs => simp [statement_memberAnnounced, AddsDevice]
  | deviceAdded mb db ms proof =>
    cases proof with
    | none =>
      rw [statement_deviceAdded_none]
      constructor
      · rintro ⟨q, hm, hd, hdevice, hq⟩
        obtain rfl := Statement.extended.inj hq
        exact ⟨⟨hm, hd, PublicKey.checkDevice_eq_ok_iff.1 hdevice⟩, mb, db, ms, rfl⟩
      · rintro ⟨⟨hm, hd, hdevice⟩, -⟩
        exact ⟨pair, hm, hd, PublicKey.checkDevice_eq_ok_iff.2 hdevice, rfl⟩
    | some proof => simp [statement_deviceAdded_some, AddsDevice]
  | secretAdded db mb chainId secret =>
    exact iff_of_false (statement_secretAdded_ne rfl) fun h => h.1
  | adminGranted mb => simp [statement_adminGranted, AddsDevice]

theorem statement_eq_granted_iff :
    event.statement p author = .ok (.granted m) ↔ event.Grants m := by
  cases event with
  | memberAnnounced mb db ms gs => simp [statement_memberAnnounced, Grants]
  | deviceAdded mb db ms proof =>
    cases proof with
    | none => simp [statement_deviceAdded_none, Grants]
    | some proof => simp [statement_deviceAdded_some, Grants]
  | secretAdded db mb chainId secret =>
    refine iff_of_false (statement_secretAdded_ne rfl) ?_
    rintro ⟨member, hs, -⟩
    cases hs
  | adminGranted mb => simp [statement_adminGranted, Grants]

end Metadata.Event

end SecureGroup
