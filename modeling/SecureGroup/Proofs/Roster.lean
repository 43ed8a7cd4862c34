import SecureGroup.Metadata.Roster

/-!
# What a roster says

A roster keeps the same relation twice, by member and by device, and a set of admins beside it.
`Consistent` says that the three agree, `Extends` that a roster lost nothing of an earlier one.
Enrolling a statement keeps the first and gives the second (`Consistent.enrol`, `extends_enrol`).

The rules of `enrol` are read off its cases once, so that nothing else opens it:

    enrol succeeds        ↔  Enabled and not Refused    (enrol_ok, exists_enrol)
    enrol waits for more  →  not Enabled                (enrol_error)
    enrol fails for good  →  Enabled and Refused        (enrol_error)

and what a successful `enrol` adds is the pair and the admin that the statement names
(`owner?_of_enrol`, `isAdmin_of_enrol`).
-/

namespace SecureGroup.Metadata

/-- The member and the device that a statement registers. -/
def Statement.pair? : Statement → Option MemberDevice
  | .announced pair => some pair
  | .joined pair _ => some pair
  | .extended pair => some pair
  | .sent _ _ _ => none
  | .granted _ => none

/-- The member that a statement makes an admin. -/
def Statement.admin? : Statement → Option PublicKey
  | .announced pair => some pair.member
  | .granted member => some member
  | _ => none

/-- The member and the chain that a statement says was sent to it. -/
def Statement.sent? : Statement → Option (PublicKey × UInt64)
  | .sent recipient chainId _ => some (recipient, chainId)
  | _ => none

namespace Roster

variable {r r' r'' : Roster} {pair : MemberDevice} {author m d : PublicKey} {s : Statement}
  {cause : Error}

/-! ## Looking up -/

theorem owner?_eq_some_iff :
    r.owner? d = some m ↔ ∃ pair, r.byDevice.get? d = some pair ∧ pair.member = m := by
  rw [owner?, Option.map_eq_some_iff]

theorem isMember_iff : r.isMember m = true ↔ ∃ pairs, r.byMember.get? m = some pairs := by
  rw [isMember, Table.has, Option.isSome_iff_exists]

theorem isAdmin_iff : r.isAdmin m = true ↔ m ∈ r.admins := by
  rw [isAdmin, decide_eq_true_eq]

theorem owner?_insert :
    (r.insert pair).owner? d = if d = pair.device then some pair.member else r.owner? d := by
  simp only [owner?, insert]
  split
  · next h => rw [h, Table.get?_put_self, Option.map_some]
  · next h => rw [Table.get?_put_of_ne _ _ h]

theorem isMember_insert :
    (r.insert pair).isMember m = true ↔ m = pair.member ∨ r.isMember m = true := by
  simp only [isMember, insert, Table.has]
  by_cases h : m = pair.member
  · rw [h, Table.get?_put_self]
    simp
  · rw [Table.get?_put_of_ne _ _ h]
    simp [h]

theorem pairsUnder_insert : (r.insert pair).pairsUnder m =
    if m = pair.member then r.pairsUnder m ++ [pair] else r.pairsUnder m := by
  split
  · next h => rw [h, pairsUnder, insert, Table.get?_put_self, Option.getD_some]
  · next h => rw [pairsUnder, insert, Table.get?_put_of_ne _ _ h, pairsUnder]

@[simp]
theorem byDevice_promote : (r.promote m).byDevice = r.byDevice := by
  unfold promote; split <;> rfl

@[simp]
theorem byMember_promote : (r.promote m).byMember = r.byMember := by
  unfold promote; split <;> rfl

@[simp]
theorem pairsUnder_promote {a : PublicKey} : (r.promote a).pairsUnder m = r.pairsUnder m := by
  rw [pairsUnder, byMember_promote, pairsUnder]

@[simp]
theorem owner?_promote : (r.promote m).owner? d = r.owner? d := by
  rw [owner?, byDevice_promote, owner?]

@[simp]
theorem isMember_promote {a : PublicKey} : (r.promote a).isMember m = r.isMember m := by
  rw [isMember, byMember_promote, isMember]

theorem mem_admins_promote {a : PublicKey} : m ∈ (r.promote a).admins ↔ m ∈ r.admins ∨ m = a := by
  unfold promote
  split
  · next h =>
    constructor
    · exact Or.inl
    · rintro (hm | rfl)
      · exact hm
      · exact h
  · simp

theorem isAdmin_promote {a : PublicKey} :
    (r.promote a).isAdmin m = true ↔ r.isAdmin m = true ∨ m = a := by
  rw [isAdmin_iff, mem_admins_promote, isAdmin_iff]

/-- A device is registered when it is free, or is under the member already. -/
theorem register_cases (h : r.register pair = .ok r') :
    (r.owner? pair.device = none ∧ r' = r.insert pair) ∨
      (r.owner? pair.device = some pair.member ∧ r' = r) := by
  unfold register at h
  split at h
  · next hn => exact Or.inl ⟨hn, (Except.ok.inj h).symm⟩
  · next owner ho =>
    split at h
    · next he => exact Or.inr ⟨he ▸ ho, (Except.ok.inj h).symm⟩
    · cases h

/-! ## The two maps agree -/

/-- The maps of a roster show one relation, and its admins are members. -/
structure Consistent (r : Roster) : Prop where
  /-- The pair of a device names it, and is one of its member's. -/
  listed : ∀ {d pair}, r.byDevice.get? d = some pair →
    pair.device = d ∧ pair ∈ r.pairsUnder pair.member
  /-- The pairs of a member name it, and are the pairs of their devices. -/
  filed : ∀ {m pair}, pair ∈ r.pairsUnder m →
    pair.member = m ∧ r.byDevice.get? pair.device = some pair
  /-- A member has a device. -/
  pairsUnder_ne_nil : ∀ {m}, r.isMember m = true → r.pairsUnder m ≠ []
  /-- A member has a device once. -/
  nodup_devices : ∀ m, (r.devicesUnder m).Nodup
  /-- An admin is a member. -/
  isMember_admin : ∀ {m}, r.isAdmin m = true → r.isMember m = true
  /-- An admin is listed once. -/
  nodup_admins : r.admins.Nodup

theorem consistent_empty : empty.Consistent where
  listed h := by cases h
  filed h := by cases h
  pairsUnder_ne_nil h := by cases h
  nodup_devices m := List.nodup_nil
  isMember_admin h := by cases h
  nodup_admins := List.nodup_nil

theorem Consistent.owner?_eq_some_iff (h : r.Consistent) :
    r.owner? d = some m ↔ r.byDevice.get? d = some ⟨m, d⟩ := by
  rw [Roster.owner?_eq_some_iff]
  constructor
  · rintro ⟨pair, hp, rfl⟩
    obtain ⟨rfl, -⟩ := h.listed hp
    exact hp
  · intro hp
    exact ⟨_, hp, rfl⟩

/-- The pairs of a member and of a device are found from each other. -/
theorem Consistent.mem_pairsUnder_iff (h : r.Consistent) :
    pair ∈ r.pairsUnder m ↔ pair.member = m ∧ r.owner? pair.device = some m := by
  constructor
  · intro hp
    obtain ⟨rfl, hd⟩ := h.filed hp
    exact ⟨rfl, h.owner?_eq_some_iff.2 hd⟩
  · rintro ⟨rfl, hd⟩
    exact (h.listed (h.owner?_eq_some_iff.1 hd)).2

/-- The devices of a member are those that it owns. -/
theorem Consistent.mem_devicesUnder_iff (h : r.Consistent) :
    d ∈ r.devicesUnder m ↔ r.owner? d = some m := by
  rw [devicesUnder, List.mem_map]
  constructor
  · rintro ⟨pair, hp, rfl⟩
    exact (h.mem_pairsUnder_iff.1 hp).2
  · intro hd
    exact ⟨⟨m, d⟩, h.mem_pairsUnder_iff.2 ⟨rfl, hd⟩, rfl⟩

theorem Consistent.isMember_iff (h : r.Consistent) :
    r.isMember m = true ↔ ∃ d, r.owner? d = some m := by
  constructor
  · intro hm
    obtain ⟨pair, hp⟩ := List.exists_mem_of_ne_nil _ (h.pairsUnder_ne_nil hm)
    exact ⟨pair.device, (h.mem_pairsUnder_iff.1 hp).2⟩
  · rintro ⟨d, hd⟩
    have hp : ⟨m, d⟩ ∈ r.pairsUnder m := h.mem_pairsUnder_iff.2 ⟨rfl, hd⟩
    rw [Roster.isMember_iff]
    cases hg : r.byMember.get? m with
    | none => simp [pairsUnder, hg] at hp
    | some pairs => exact ⟨pairs, rfl⟩

/-- A free device can be put under any member. -/
theorem Consistent.insert (h : r.Consistent) (free : r.owner? pair.device = none) :
    (r.insert pair).Consistent := by
  have hself : (r.insert pair).byDevice.get? pair.device = some pair := Table.get?_put_self _ _ _
  have hdevice : ∀ {d}, d ≠ pair.device → (r.insert pair).byDevice.get? d = r.byDevice.get? d :=
    fun hd => Table.get?_put_of_ne _ _ hd
  -- what was registered before is another device
  have hother : ∀ {m q}, q ∈ r.pairsUnder m → q.device ≠ pair.device := by
    intro m q hq he
    have hd := (h.mem_pairsUnder_iff.1 hq).2
    rw [he, free] at hd
    cases hd
  refine ⟨?_, ?_, ?_, ?_, ?_, h.nodup_admins⟩
  · intro d q hq
    rw [pairsUnder_insert]
    by_cases hd : d = pair.device
    · subst hd
      rw [hself] at hq
      obtain rfl := Option.some.inj hq
      exact ⟨rfl, by simp⟩
    · rw [hdevice hd] at hq
      obtain ⟨he, hm⟩ := h.listed hq
      refine ⟨he, ?_⟩
      split
      · exact List.mem_append_left _ hm
      · exact hm
  · intro m q hq
    have hold : q ∈ r.pairsUnder m →
        q.member = m ∧ (r.insert pair).byDevice.get? q.device = some q := by
      intro hq
      obtain ⟨he, hd⟩ := h.filed hq
      exact ⟨he, (hdevice (hother hq)).trans hd⟩
    rw [pairsUnder_insert] at hq
    split at hq
    · next hm =>
      rcases List.mem_append.1 hq with hq | hq
      · exact hold hq
      · obtain rfl := List.mem_singleton.1 hq
        exact ⟨hm.symm, hself⟩
    · exact hold hq
  · intro m hm
    rw [pairsUnder_insert]
    split
    · simp
    · next hne => exact h.pairsUnder_ne_nil ((isMember_insert.1 hm).resolve_left hne)
  · intro m
    rw [devicesUnder, pairsUnder_insert]
    split
    · rw [List.map_append, List.nodup_append]
      refine ⟨h.nodup_devices m, by simp, ?_⟩
      intro a ha b hb he
      obtain ⟨q, hq, rfl⟩ := List.mem_map.1 ha
      exact hother hq (he.trans (List.mem_singleton.1 hb))
    · exact h.nodup_devices m
  · intro m hm
    exact isMember_insert.2 (Or.inr (h.isMember_admin hm))

/-- Any member can be made an admin. -/
theorem Consistent.promote (h : r.Consistent) (hm : r.isMember m = true) :
    (r.promote m).Consistent where
  listed hd := by
    rw [byDevice_promote] at hd
    rw [pairsUnder_promote]
    exact h.listed hd
  filed hp := by
    rw [pairsUnder_promote] at hp
    rw [byDevice_promote]
    exact h.filed hp
  pairsUnder_ne_nil hq := by
    rw [isMember_promote] at hq
    rw [pairsUnder_promote]
    exact h.pairsUnder_ne_nil hq
  nodup_devices a := by
    rw [devicesUnder, pairsUnder_promote]
    exact h.nodup_devices a
  isMember_admin ha := by
    rw [isMember_promote]
    rcases isAdmin_promote.1 ha with ha | rfl
    · exact h.isMember_admin ha
    · exact hm
  nodup_admins := by
    unfold Roster.promote
    split
    · exact h.nodup_admins
    · next hnew =>
      rw [List.nodup_append]
      refine ⟨h.nodup_admins, by simp, ?_⟩
      intro a ha b hb he
      rw [List.mem_singleton.1 hb] at he
      exact hnew (he ▸ ha)

theorem Consistent.register (h : r.Consistent) (hr : r.register pair = .ok r') :
    r'.Consistent := by
  rcases register_cases hr with ⟨hfree, rfl⟩ | ⟨-, rfl⟩
  · exact h.insert hfree
  · exact h

/-! ## The rules -/

/-- Everyone that a statement of an author refers to is known. -/
def Enabled (r : Roster) (author : PublicKey) : Statement → Prop
  | .announced _ => True
  | .joined _ inviter => r.isMember inviter = true
  | .extended pair => r.isMember pair.member = true
  | .sent _ _ _ => True
  | .granted member => ∃ granter, r.owner? author = some granter ∧ r.isAdmin granter = true ∧
      r.isMember member = true

/-- A device is registered under someone else. -/
def Taken (r : Roster) (pair : MemberDevice) : Prop :=
  ∃ owner, r.owner? pair.device = some owner ∧ owner ≠ pair.member

/-- What a statement says cannot be true beside what the roster says already. -/
def Refused (r : Roster) : Statement → Prop
  | .announced pair => r.isAdmin pair.member = true ∨ r.Taken pair
  | .joined pair _ => r.Taken pair
  | .extended pair => r.Taken pair
  | .sent _ _ _ => False
  | .granted _ => False

/-- What a statement says is part of the roster. -/
def Holds (r : Roster) (s : Statement) : Prop :=
  (∀ pair, s.pair? = some pair → r.owner? pair.device = some pair.member) ∧
    ∀ m, s.admin? = some m → r.isAdmin m = true

theorem register_eq_ok_iff : (∃ r', r.register pair = .ok r') ↔ ¬ r.Taken pair := by
  unfold register Taken
  cases ho : r.owner? pair.device with
  | none => simp
  | some owner =>
    by_cases he : owner = pair.member
    · simp [he]
    · simp [he]

theorem register_eq_error (h : r.register pair = .error cause) :
    r.Taken pair ∧ ∃ owner, cause = .deviceTaken pair.device owner := by
  unfold register at h
  split at h
  · cases h
  · next owner ho =>
    split at h
    · cases h
    · next hne => exact ⟨⟨owner, ho, hne⟩, owner, (Except.error.inj h).symm⟩

/-- A pair that someone vouches for is registered when that member is known. -/
theorem ok_of_vouched
    (h : (if r.isMember m then r.register pair else .error (.unknownMember m)) = .ok r') :
    r.isMember m = true ∧ r.register pair = .ok r' := by
  split at h
  · next hm => exact ⟨hm, h⟩
  · cases h

theorem error_of_vouched
    (h : (if r.isMember m then r.register pair else .error (.unknownMember m)) = .error cause) :
    (cause.isMissingDependency = true ∧ ¬ r.isMember m = true) ∨
      (cause.isMissingDependency = false ∧ (∀ m, cause ≠ .misdirected m) ∧
        r.isMember m = true ∧ r.Taken pair) := by
  split at h
  · next hm =>
    obtain ⟨ht, owner, rfl⟩ := register_eq_error h
    exact Or.inr ⟨rfl, by simp, hm, ht⟩
  · next hm =>
    obtain rfl := Except.error.inj h
    exact Or.inl ⟨rfl, hm⟩

/-- A statement that is enrolled registers its pair first and makes its admin then. -/
theorem enrol_ok (h : r.enrol author s = .ok r') :
    r.Enabled author s ∧ ¬ r.Refused s ∧ ∃ r₁,
      (s.pair? = none ∧ r₁ = r ∨ ∃ pair, s.pair? = some pair ∧ r.register pair = .ok r₁) ∧
      (s.admin? = none ∧ r' = r₁ ∨ ∃ m, s.admin? = some m ∧ r' = r₁.promote m) := by
  cases s with
  | announced pair =>
    simp only [enrol] at h
    split at h
    · cases h
    · next hnew =>
      cases hr : r.register pair with
      | error cause => rw [hr] at h; cases h
      | ok r₁ =>
        rw [hr] at h
        refine ⟨trivial, fun hx => hx.elim hnew (register_eq_ok_iff.1 ⟨r₁, hr⟩), r₁, ?_, ?_⟩
        · exact Or.inr ⟨pair, rfl, hr⟩
        · exact Or.inr ⟨pair.member, rfl, (Except.ok.inj h).symm⟩
  | joined pair inviter =>
    obtain ⟨hm, hr⟩ := ok_of_vouched h
    exact ⟨hm, register_eq_ok_iff.1 ⟨r', hr⟩, r', Or.inr ⟨pair, rfl, hr⟩, Or.inl ⟨rfl, rfl⟩⟩
  | extended pair =>
    obtain ⟨hm, hr⟩ := ok_of_vouched h
    exact ⟨hm, register_eq_ok_iff.1 ⟨r', hr⟩, r', Or.inr ⟨pair, rfl, hr⟩, Or.inl ⟨rfl, rfl⟩⟩
  | sent recipient chainId chain =>
    exact ⟨trivial, not_false, r, Or.inl ⟨rfl, rfl⟩, Or.inl ⟨rfl, (Except.ok.inj h).symm⟩⟩
  | granted member =>
    simp only [enrol] at h
    split at h
    · cases h
    · next granter ho =>
      split at h
      · cases h
      · next ha =>
        split at h
        · cases h
        · next hm =>
          refine ⟨⟨granter, ho, by simpa using ha, by simpa using hm⟩, not_false, r, ?_, ?_⟩
          · exact Or.inl ⟨rfl, rfl⟩
          · exact Or.inr ⟨member, rfl, (Except.ok.inj h).symm⟩

/-- A statement waits for more of the log, or cannot be true beside what was said before. -/
theorem enrol_error (h : r.enrol author s = .error cause) :
    (cause.isMissingDependency = true ∧ ¬ r.Enabled author s) ∨
      (cause.isMissingDependency = false ∧ (∀ m, cause ≠ .misdirected m) ∧
        r.Enabled author s ∧ r.Refused s) := by
  cases s with
  | announced pair =>
    simp only [enrol] at h
    split at h
    · next ha =>
      obtain rfl := Except.error.inj h
      exact Or.inr ⟨rfl, by simp, trivial, Or.inl ha⟩
    · cases hr : r.register pair with
      | ok r₁ => rw [hr] at h; cases h
      | error cause =>
        rw [hr] at h
        obtain rfl := Except.error.inj h
        obtain ⟨ht, owner, rfl⟩ := register_eq_error hr
        exact Or.inr ⟨rfl, by simp, trivial, Or.inr ht⟩
  | joined pair inviter => exact error_of_vouched h
  | extended pair => exact error_of_vouched h
  | sent recipient chainId chain => cases h
  | granted member =>
    simp only [enrol] at h
    left
    split at h
    · next ho =>
      obtain rfl := Except.error.inj h
      refine ⟨rfl, ?_⟩
      rintro ⟨granter, hg, -⟩
      rw [ho] at hg
      cases hg
    · next granter ho =>
      split at h
      · next ha =>
        obtain rfl := Except.error.inj h
        refine ⟨rfl, ?_⟩
        rintro ⟨g, hg, hadmin, -⟩
        rw [ho] at hg
        obtain rfl := Option.some.inj hg
        simp [hadmin] at ha
      · split at h
        · next hm =>
          obtain rfl := Except.error.inj h
          refine ⟨rfl, ?_⟩
          rintro ⟨-, -, -, hmem⟩
          simp [hmem] at hm
        · cases h

/-- A statement is enrolled when all that it refers to is known and nothing speaks against it. -/
theorem exists_enrol (he : r.Enabled author s) (hr : ¬ r.Refused s) :
    ∃ r', r.enrol author s = .ok r' := by
  cases h : r.enrol author s with
  | ok r' => exact ⟨r', rfl⟩
  | error cause =>
    rcases enrol_error h with ⟨-, hne⟩ | ⟨-, -, -, hre⟩
    · exact absurd he hne
    · exact absurd hre hr

/-! ## What a statement adds -/

theorem owner?_of_register (h : r.register pair = .ok r') :
    r'.owner? d = some m ↔ r.owner? d = some m ∨ pair = ⟨m, d⟩ := by
  rcases register_cases h with ⟨hfree, rfl⟩ | ⟨hold, rfl⟩
  · rw [owner?_insert]
    split
    · next hd =>
      subst hd
      simp [hfree, MemberDevice.ext_iff]
    · next hd => simp [MemberDevice.ext_iff, Ne.symm hd]
  · constructor
    · exact Or.inl
    · rintro (hd | rfl)
      · exact hd
      · exact hold

theorem isAdmin_of_register (h : r.register pair = .ok r') : r'.isAdmin m = r.isAdmin m := by
  rcases register_cases h with ⟨-, rfl⟩ | ⟨-, rfl⟩ <;> rfl

theorem owner?_of_enrol (h : r.enrol author s = .ok r') :
    r'.owner? d = some m ↔ r.owner? d = some m ∨ s.pair? = some ⟨m, d⟩ := by
  obtain ⟨-, -, r₁, hpair, hadmin⟩ := enrol_ok h
  have h₁ : r'.owner? d = r₁.owner? d := by
    rcases hadmin with ⟨-, rfl⟩ | ⟨a, -, rfl⟩
    · rfl
    · exact owner?_promote
  rw [h₁]
  rcases hpair with ⟨hs, rfl⟩ | ⟨pair, hs, hr⟩
  · simp [hs]
  · rw [owner?_of_register hr, hs, Option.some.injEq]

theorem isAdmin_of_enrol (h : r.enrol author s = .ok r') :
    r'.isAdmin m = true ↔ r.isAdmin m = true ∨ s.admin? = some m := by
  obtain ⟨-, -, r₁, hpair, hadmin⟩ := enrol_ok h
  have h₁ : r₁.isAdmin m = r.isAdmin m := by
    rcases hpair with ⟨-, rfl⟩ | ⟨pair, -, hr⟩
    · rfl
    · exact isAdmin_of_register hr
  rw [← h₁]
  rcases hadmin with ⟨hs, rfl⟩ | ⟨a, hs, rfl⟩
  · simp [hs]
  · rw [isAdmin_promote, hs, Option.some.injEq]
    exact or_congr_right eq_comm

/-- A device that a statement brings in is one that it may bring in. -/
theorem owner?_cases_of_enrol (h : r.enrol author s = .ok r') (hd : r'.owner? d = some m) :
    r.owner? d = some m ∨ s = .announced ⟨m, d⟩ ∨
      (∃ inviter, s = .joined ⟨m, d⟩ inviter ∧ r.isMember inviter = true) ∨
      s = .extended ⟨m, d⟩ ∧ r.isMember m = true := by
  rcases (owner?_of_enrol h).1 hd with hold | hnew
  · exact Or.inl hold
  · have henabled := (enrol_ok h).1
    right
    cases s with
    | announced pair =>
      obtain rfl := Option.some.inj hnew
      exact Or.inl rfl
    | joined pair inviter =>
      obtain rfl := Option.some.inj hnew
      exact Or.inr (Or.inl ⟨inviter, rfl, henabled⟩)
    | extended pair =>
      obtain rfl := Option.some.inj hnew
      exact Or.inr (Or.inr ⟨rfl, henabled⟩)
    | sent recipient chainId chain => cases hnew
    | granted member => cases hnew

/-- An admin that a statement brings in is one that it may make. -/
theorem isAdmin_cases_of_enrol (h : r.enrol author s = .ok r') (hm : r'.isAdmin m = true) :
    r.isAdmin m = true ∨ (∃ device, s = .announced ⟨m, device⟩) ∨
      s = .granted m ∧ ∃ granter, r.owner? author = some granter ∧ r.isAdmin granter = true ∧
        r.isMember m = true := by
  rcases (isAdmin_of_enrol h).1 hm with hold | hnew
  · exact Or.inl hold
  · have henabled := (enrol_ok h).1
    right
    cases s with
    | announced pair =>
      obtain rfl := Option.some.inj hnew
      exact Or.inl ⟨pair.device, rfl⟩
    | granted member =>
      obtain rfl := Option.some.inj hnew
      exact Or.inr ⟨rfl, henabled⟩
    | joined pair inviter => cases hnew
    | extended pair => cases hnew
    | sent recipient chainId chain => cases hnew

theorem holds_of_enrol (h : r.enrol author s = .ok r') : r'.Holds s :=
  ⟨fun _ hp => (owner?_of_enrol h).2 (Or.inr hp), fun _ hm => (isAdmin_of_enrol h).2 (Or.inr hm)⟩

theorem Consistent.enrol (h : r.Consistent) (hr : r.enrol author s = .ok r') :
    r'.Consistent := by
  obtain ⟨he, -, r₁, hpair, hadmin⟩ := enrol_ok hr
  have h₁ : r₁.Consistent := by
    rcases hpair with ⟨-, rfl⟩ | ⟨pair, -, hreg⟩
    · exact h
    · exact h.register hreg
  rcases hadmin with ⟨-, rfl⟩ | ⟨m, hs, rfl⟩
  · exact h₁
  · apply h₁.promote
    -- the new admin owns the device of the announcement, or was a member before
    cases s with
    | announced pair =>
      obtain rfl := Option.some.inj hs
      obtain ⟨hs, -⟩ | ⟨_, hs, hreg⟩ := hpair
      · cases hs
      · obtain rfl := Option.some.inj hs
        exact h₁.isMember_iff.2 ⟨_, (owner?_of_register hreg).2 (Or.inr rfl)⟩
    | granted member =>
      obtain rfl := Option.some.inj hs
      obtain ⟨-, rfl⟩ | ⟨_, hs, -⟩ := hpair
      · obtain ⟨-, -, -, hm⟩ := he
        exact hm
      · cases hs
    | joined pair inviter => cases hs
    | extended pair => cases hs
    | sent recipient chainId chain => cases hs

/-! ## Nothing is lost -/

/-- A roster has all that another one has, in the same places. -/
structure Extends (r r' : Roster) : Prop where
  /-- A device stays under its member. -/
  byDevice : ∀ {d pair}, r.byDevice.get? d = some pair → r'.byDevice.get? d = some pair
  /-- The devices of a member grow at their end. -/
  pairsUnder : ∀ m, r.pairsUnder m <+: r'.pairsUnder m
  isMember : ∀ {m}, r.isMember m = true → r'.isMember m = true
  isAdmin : ∀ {m}, r.isAdmin m = true → r'.isAdmin m = true

theorem Extends.refl (r : Roster) : r.Extends r where
  byDevice := id
  pairsUnder _ := List.prefix_refl _
  isMember := id
  isAdmin := id

theorem Extends.trans (h : r.Extends r') (h' : r'.Extends r'') : r.Extends r'' where
  byDevice hd := h'.byDevice (h.byDevice hd)
  pairsUnder m := (h.pairsUnder m).trans (h'.pairsUnder m)
  isMember hm := h'.isMember (h.isMember hm)
  isAdmin hm := h'.isAdmin (h.isAdmin hm)

theorem extends_insert (free : r.owner? pair.device = none) : r.Extends (r.insert pair) where
  byDevice {d q} hd := by
    have hne : d ≠ pair.device := by
      rintro rfl
      rw [owner?, hd] at free
      cases free
    rw [insert, Table.get?_put_of_ne _ _ hne]
    exact hd
  pairsUnder m := by
    rw [pairsUnder_insert]
    split
    · exact List.prefix_append _ _
    · exact List.prefix_refl _
  isMember hm := isMember_insert.2 (Or.inr hm)
  isAdmin := id

theorem extends_promote : r.Extends (r.promote m) where
  byDevice hd := by rwa [byDevice_promote]
  pairsUnder a := by simpa only [pairsUnder_promote] using List.prefix_refl (r.pairsUnder a)
  isMember hm := by rwa [isMember_promote]
  isAdmin ha := isAdmin_promote.2 (Or.inl ha)

theorem extends_register (h : r.register pair = .ok r') : r.Extends r' := by
  rcases register_cases h with ⟨hfree, rfl⟩ | ⟨-, rfl⟩
  · exact extends_insert hfree
  · exact Extends.refl r'

theorem extends_enrol (h : r.enrol author s = .ok r') : r.Extends r' := by
  obtain ⟨-, -, r₁, hpair, hadmin⟩ := enrol_ok h
  have h₁ : r.Extends r₁ := by
    rcases hpair with ⟨-, rfl⟩ | ⟨pair, -, hr⟩
    · exact Extends.refl r₁
    · exact extends_register hr
  rcases hadmin with ⟨-, rfl⟩ | ⟨a, -, rfl⟩
  · exact h₁
  · exact h₁.trans extends_promote

theorem Extends.owner? (h : r.Extends r') (hd : r.owner? d = some m) : r'.owner? d = some m := by
  obtain ⟨pair, hp, rfl⟩ := owner?_eq_some_iff.1 hd
  exact owner?_eq_some_iff.2 ⟨pair, h.byDevice hp, rfl⟩

/-- Whoever belongs to one roster belongs to another one, in whatever order. -/
structure Within (r r' : Roster) : Prop where
  owner? : ∀ {d m}, r.owner? d = some m → r'.owner? d = some m
  isMember : ∀ {m}, r.isMember m = true → r'.isMember m = true
  isAdmin : ∀ {m}, r.isAdmin m = true → r'.isAdmin m = true

theorem Extends.within (h : r.Extends r') : r.Within r' := ⟨h.owner?, h.isMember, h.isAdmin⟩

/-- Members are who owns a device, so devices and admins are enough. -/
theorem Consistent.within (h : r.Consistent) (h' : r'.Consistent)
    (owner : ∀ d m, r.owner? d = some m → r'.owner? d = some m)
    (admin : ∀ m, r.isAdmin m = true → r'.isAdmin m = true) : r.Within r' where
  owner? := owner _ _
  isMember hm := by
    obtain ⟨d, hd⟩ := h.isMember_iff.1 hm
    exact h'.isMember_iff.2 ⟨d, owner d _ hd⟩
  isAdmin := admin _

theorem Enabled.mono (hs : r.Enabled author s) (h : r.Within r') : r'.Enabled author s := by
  cases s with
  | announced pair => trivial
  | joined pair inviter => exact h.isMember hs
  | extended pair => exact h.isMember hs
  | sent recipient chainId chain => trivial
  | granted member =>
    obtain ⟨granter, ho, ha, hm⟩ := hs
    exact ⟨granter, h.owner? ho, h.isAdmin ha, h.isMember hm⟩

theorem Holds.mono (hs : r.Holds s) (h : r.Within r') : r'.Holds s :=
  ⟨fun pair hp => h.owner? (hs.1 pair hp), fun m hm => h.isAdmin (hs.2 m hm)⟩

end Roster

end SecureGroup.Metadata
