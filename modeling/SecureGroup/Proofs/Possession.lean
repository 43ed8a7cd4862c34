import SecureGroup.Proofs.Provenance

/-!
# Who puts a device into the group

A device comes into a roster by one notice: before it the device was nobody's, and after it the
device is its member's (`Notice.Registers`).  Every registered device has exactly one such notice
(`Record.exists_registers`, `Notice.Registers.unique`), in which the member has signed for the
device.  Whether the device wrote the entry itself is checked of announcements only.  So a device is
in the group by its own hand when every entry that adds a device is from that device
(`Reached.registered_by`), and otherwise a member can take a device that never wrote anything
(`device_taken_unheard`).
-/

namespace SecureGroup.Metadata

variable [Suite] {self : Participant} {reader : Log.Reader} {log : List Log.Entry}
  {told before before' rest rest' : List Notice} {r r' : Roster} {i : Index} {n n' : Notice}
  {m d : PublicKey} {pair : MemberDevice}

/-! ## Rosters along the notices -/

theorem Roster.extends_follow (self : Participant) (r : Roster) (n : Notice) :
    r.Extends (r.follow self n) := by
  unfold follow
  split
  · exact Extends.refl r
  · split
    · exact Extends.refl r
    · next henrol => exact extends_enrol henrol

/-- Further notices take no device away. -/
theorem Roster.extends_after (self : Participant) (told more : List Notice) :
    (after self told).Extends (after self (told ++ more)) := by
  rw [after, after, List.foldl_append]
  generalize told.foldl (follow self) empty = r
  induction more generalizing r with
  | nil => exact Extends.refl r
  | cons n rest ih => exact (extends_follow self r n).trans (ih (r.follow self n))

/-! ## The notice of a device -/

/-- A notice, after some others, puts a device that was nobody's under a member. -/
def Notice.Registers (self : Participant) (before : List Notice) (n : Notice)
    (pair : MemberDevice) : Prop :=
  (Roster.after self before).owner? pair.device = none ∧
    (Roster.after self (before ++ [n])).owner? pair.device = some pair.member

/-- No notice of a device comes after another one. -/
theorem Notice.Registers.not_later (h : n.Registers self before pair)
    (h' : n'.Registers self before' pair) : ¬ before ++ [n] <+: before' := by
  rintro ⟨more, rfl⟩
  have hkept := (Roster.extends_after self (before ++ [n]) more).owner? h.2
  rw [h'.1] at hkept
  cases hkept

theorem Notice.Registers.unique (h : n.Registers self before pair)
    (h' : n'.Registers self before' pair)
    (split : before ++ n :: rest = before' ++ n' :: rest') : before = before' ∧ n = n' := by
  rcases List.append_eq_append_iff.1 split with ⟨more, hbefore, hrest⟩ | ⟨more, hbefore, hrest⟩
  · cases more with
    | nil =>
      rw [List.append_nil] at hbefore
      exact ⟨hbefore.symm, (List.cons.inj hrest).1⟩
    | cons x tail =>
      obtain ⟨rfl, -⟩ := List.cons.inj hrest
      exact absurd ⟨tail, by rw [hbefore]; simp⟩ (h.not_later h')
  · cases more with
    | nil =>
      rw [List.append_nil] at hbefore
      exact ⟨hbefore, (List.cons.inj hrest).1.symm⟩
    | cons x tail =>
      obtain ⟨rfl, -⟩ := List.cons.inj hrest
      exact absurd ⟨tail, by rw [hbefore]; simp⟩ (h'.not_later h)

/-- By what right a notice puts a device under a member: the group announces the member and the
device wrote the entry, or a member lets the member join, or the member is known already. -/
def Notice.Entitles (self : Participant) (before : List Notice) (n : Notice)
    (pair : MemberDevice) : Prop :=
  n.event.Announces self n.sender pair ∨
    (∃ inviter, n.event.Invites self inviter pair ∧
      (Roster.after self before).isMember inviter = true) ∨
    n.event.AddsDevice self pair ∧ (Roster.after self before).isMember pair.member = true

theorem Record.exists_registers (h : Record self reader log told r) (hd : r.owner? d = some m) :
    ∃ before n after, told = before ++ n :: after ∧ n.Registers self before ⟨m, d⟩ ∧
      n.Entitles self before ⟨m, d⟩ := by
  induction h with
  | empty => cases hd
  | @told told r r' c prior offered enrolled ih =>
    have hsaid := offered.statement
    have hroster := (prior.told offered enrolled).roster_eq
    cases ho : r.owner? d with
    | some owner =>
      -- the device was under this very member before
      have hkept := (Roster.extends_enrol enrolled).owner? ho
      obtain rfl : owner = m := Option.some.inj (hkept.symm.trans hd)
      obtain ⟨before, n, after, rfl, hregisters, hentitles⟩ := ih ho
      exact ⟨before, n, after ++ [c.notice], by simp, hregisters, hentitles⟩
    | none =>
      have hregisters : c.notice.Registers self told ⟨m, d⟩ := by
        refine ⟨?_, ?_⟩
        · rw [← prior.roster_eq]
          exact ho
        · rw [← hroster]
          exact hd
      refine ⟨told, c.notice, [], rfl, hregisters, ?_⟩
      rcases Roster.owner?_cases_of_enrol enrolled hd with hold | hs | ⟨inviter, hs, hinviter⟩ |
        ⟨hs, hmember⟩
      · rw [ho] at hold
        cases hold
      · rw [hs] at hsaid
        exact Or.inl (Event.statement_eq_announced_iff.1 hsaid)
      · rw [hs] at hsaid
        rw [prior.roster_eq] at hinviter
        exact Or.inr (Or.inl ⟨inviter, Event.statement_eq_joined_iff.1 hsaid, hinviter⟩)
      · rw [hs] at hsaid
        rw [prior.roster_eq] at hmember
        exact Or.inr (Or.inr ⟨Event.statement_eq_extended_iff.1 hsaid, hmember⟩)

theorem Notice.Entitles.signsDevice (h : n.Entitles self before pair) :
    n.event.SignsDevice self pair := by
  rcases h with hannounces | ⟨inviter, hinvites, -⟩ | ⟨hadds, -⟩
  · exact hannounces.1
  · exact hinvites.1
  · exact hadds.1

/-! ## Devices that speak for themselves -/

/-- Every entry that adds a device is from that device. -/
def SelfAdded (self : Participant) (reader : Log.Reader) (log : List Log.Entry) : Prop :=
  ∀ e ∈ log, ∀ opened event, Progress.openEntry reader e = .ok (opened, event) →
    ∀ pair, event.SignsDevice self pair → opened.sender = pair.device

/-- After any batches of any entries, every registered device was put into the group by exactly one
of them.  That entry names the pair and has the member's signature for the device; it is from the
device itself if it is the announcement of the member, and in any case when every entry that adds a
device is from that device. -/
theorem Reached.registered_by (h : Reached self reader log told i)
    (hd : i.state.roster.owner? d = some m) :
    ∃ before n after, told = before ++ n :: after ∧ n.Registers self before ⟨m, d⟩ ∧
      (∀ before' n' after', told = before' ++ n' :: after' → n'.Registers self before' ⟨m, d⟩ →
        before' = before ∧ n' = n) ∧
      n.Delivered reader log ∧ n.event.SignsDevice self ⟨m, d⟩ ∧ n.Entitles self before ⟨m, d⟩ ∧
      (n.event.Announces self n.sender ⟨m, d⟩ → n.sender = d) ∧
      (SelfAdded self reader log → n.sender = d) := by
  obtain ⟨before, n, after, rfl, hregisters, hentitles⟩ := h.record.exists_registers hd
  have hdelivered : n.Delivered reader log := h.record.delivered n (by simp)
  refine ⟨before, n, after, rfl, hregisters, ?_, hdelivered, hentitles.signsDevice, hentitles,
    fun hannounces => hannounces.2.1, fun hself => ?_⟩
  · intro before' n' after' hsplit hregisters'
    exact hregisters'.unique hregisters hsplit.symm
  · obtain ⟨e, he, opened, ho, -, hsender⟩ := hdelivered
    rw [hsender]
    exact hself e he opened n.event ho ⟨m, d⟩ hentitles.signsDevice

end SecureGroup.Metadata

namespace SecureGroup.Metadata

attribute [local instance] Suite.plain

open Plain

theorem registered_by_joinedEarly :
    let batch := (Index.empty (chains 2)).update (participant 1 2) reader joinedEarly
    batch.index.state.roster.owner? (key 4).pub = some (key 3).pub ∧
      ∃ before n after, batch.notices = before ++ n :: after ∧
        n.Registers (participant 1 2) before ⟨(key 3).pub, (key 4).pub⟩ ∧
        n.event.SignsDevice (participant 1 2) ⟨(key 3).pub, (key 4).pub⟩ := by
  intro batch
  have hreached : Reached (participant 1 2) reader _ _ batch.index :=
    .update joinedEarly (.empty (chains 2))
  have howner : batch.index.state.roster.owner? (key 4).pub = some (key 3).pub := by decide +kernel
  obtain ⟨before, n, after, hsplit, hregisters, -, -, hsigns, -⟩ :=
    Reached.registered_by hreached howner
  exact ⟨howner, before, n, after, hsplit, hregisters, hsigns⟩

/-- The group announces a member, whose device then writes that a device of someone else is the
member's.  That device is registered, although it wrote no entry of the log; when its own member
lets it join, it is refused. -/
theorem device_taken_unheard :
    let taken := [entry 2 (announced 1 2), entry 2 (.deviceAdded (key 1).pub.bytes.toList
      (key 9).pub.bytes.toList ((key 1).signDevice group.id (key 9).pub) none)]
    let batch := (Index.empty (chains 2)).update (participant 1 2) reader taken
    let later := batch.index.update (participant 1 2) reader [entry 9 (joined 1 8 9)]
    Reached (participant 1 2) reader taken batch.notices batch.index ∧
      batch.index.state.roster.owner? (key 9).pub = some (key 1).pub ∧
      (∀ e ∈ taken, ∀ opened, reader.read e = .ok opened → opened.sender ≠ (key 9).pub) ∧
      later.index.state.roster.owner? (key 9).pub = some (key 1).pub ∧
      later.index.state.roster.isMember (key 8).pub = false := by
  intro taken batch later
  have hreached :
      Reached (participant 1 2) reader ([] ++ taken) ([] ++ batch.notices) batch.index :=
    .update taken (.empty (chains 2))
  have hsenders : ∀ e ∈ taken, (reader.read e).toOption.map (·.sender) = some (key 2).pub := by
    decide +kernel
  have hend : batch.index.state.roster.owner? (key 9).pub = some (key 1).pub ∧
      later.index.state.roster.owner? (key 9).pub = some (key 1).pub ∧
      later.index.state.roster.isMember (key 8).pub = false := by
    decide +kernel
  refine ⟨hreached, hend.1, ?_, hend.2⟩
  intro e he opened ho hsender
  have h := hsenders e he
  rw [ho, show (Except.ok opened : Except Error Log.Opened).toOption = some opened from rfl,
    Option.map_some, hsender] at h
  exact absurd h (by decide +kernel)

end SecureGroup.Metadata
