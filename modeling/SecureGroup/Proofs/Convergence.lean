import SecureGroup.Proofs.Closure

/-!
# When two arrangements agree

Two indexes that take the same entries in different orders show the same, unless one of them drops
an entry that is in force in the other (`snapshot_eq_iff_of_perm`).  What is dropped was refused
because its device is another member's, or because the member that it announces is an admin already
(`Reached.refused_of_dropped`), so entries that do not dispute always lead to the same.  Others need
not, even when every sender's entries keep their order: two members that claim one device end with
the one that came first (`arrangements_diverge`).
-/

namespace SecureGroup.Metadata

variable [Suite] {self : Participant} {reader : Log.Reader} {l l' : List Log.Entry}
  {told told' more : List Notice} {r : Roster} {i j : Index} {c : Candidate}

/-- An index is done with an entry that is not in force. -/
def Index.Dropped (i : Index) (c : Candidate) : Prop :=
  c.hash ∈ i.handled ∧ ¬ i.state.roster.Holds c.statement

/-- One index dropped what is in force in another one. -/
def Index.Overrides (i j : Index) (c : Candidate) : Prop :=
  i.Dropped c ∧ j.state.roster.Holds c.statement

/-- The device that wrote an entry. -/
def sender? (reader : Log.Reader) (e : Log.Entry) : Option PublicKey :=
  (Progress.openEntry reader e).toOption.map (·.1.sender)

/-! ## What is dropped -/

omit [Suite] in
theorem Roster.Refused.mono {r' : Roster} {said : Statement} (h : r.Refused said)
    (hr : r.Within r') : r'.Refused said := by
  have htaken : ∀ pair, r.Taken pair → r'.Taken pair := by
    rintro pair ⟨owner, ho, hne⟩
    exact ⟨owner, hr.owner? ho, hne⟩
  cases said with
  | announced pair => exact h.imp hr.isAdmin (htaken pair)
  | joined pair inviter => exact htaken pair h
  | extended pair => exact htaken pair h
  | sent recipient chainId chain => exact h
  | granted member => exact h

/-- What is dropped was refused: the device is another member's, or the member was announced. -/
theorem Reached.refused_of_dropped (h : Reached self reader l told i) (hd : OnePayload l)
    (hc : Offered self reader l c) (hdrop : i.Dropped c) :
    i.state.roster.Refused c.statement := by
  have hall : ∀ c, Offered self reader l c → c.hash ∈ i.handled →
      i.state.roster.Holds c.statement ∨ i.state.roster.Refused c.statement := by
    refine h.invariant (P := fun _ i => ∀ c, Offered self reader l c → c.hash ∈ i.handled →
      i.state.roster.Holds c.statement ∨ i.state.roster.Refused c.statement) ?_ ?_ ?_
    · exact fun keys c _ hm => by cases hm
    · exact fun keys hi => hi
    · intro told i j more _ hi hmove c hc hm
      have hwithin := hmove.extends.roster.within
      rcases hmove.mem_handled_cases hd hc hm with hold | ⟨-, -, hor⟩
      · exact (hi c hc hold).imp (·.mono hwithin) (·.mono hwithin)
      · exact hor.imp_right (·.mono hwithin)
  exact (hall c hc hdrop.1).resolve_left hdrop.2

/-! ## The same roster -/

/-- A roster goes no further than one that drops nothing of it. -/
theorem Record.within (h : Record self reader l told r) (hj : Reached self reader l' told' j)
    (sub : ∀ e ∈ l, e ∈ l') (hd : OnePayload l') (hr : r.Extends i.state.roster)
    (hfree : ∀ c, Offered self reader l c → ¬ j.Overrides i c) : r.Within j.state.roster := by
  induction h with
  | empty => exact ⟨fun ho => (by cases ho), fun hm => (by cases hm), fun ha => (by cases ha)⟩
  | @told told r r' c before offered enrolled ih =>
    have hwithin := ih ((Roster.extends_enrol enrolled).trans hr)
    -- the entry has its references in the other index, which therefore is done with it
    have hen := (Roster.enrol_ok enrolled).1.mono hwithin
    have hhandled := hj.mem_handled_of_enabled hd (offered.mono sub) hen
    have hholds : j.state.roster.Holds c.statement := by
      by_contra hnot
      exact hfree c offered ⟨⟨hhandled, hnot⟩, (Roster.holds_of_enrol enrolled).mono hr.within⟩
    refine (before.consistent.enrol enrolled).within hj.consistent ?_ ?_
    · intro d m ho
      rcases (Roster.owner?_of_enrol enrolled).1 ho with hold | hnew
      · exact hwithin.owner? hold
      · exact hholds.1 _ hnew
    · intro m ha
      rcases (Roster.isAdmin_of_enrol enrolled).1 ha with hold | hnew
      · exact hwithin.isAdmin hold
      · exact hholds.2 m hnew

/-! ## The same snapshot -/

omit [Suite] in
theorem State.totalOrder_sent : TotalOrder fun a b : PublicKey × UInt64 =>
    if a.1 = b.1 then decide (a.2 ≤ b.2) else a.1.le b.1 :=
  PublicKey.totalOrder_le.lex totalOrder_word_le

namespace Reached

variable (h : Reached self reader l told i) (h' : Reached self reader l' told' j)
  (same : ∀ e, e ∈ l ↔ e ∈ l') (hd : OnePayload l)

include h h' same hd

/-- What this device sent does not depend on the order. -/
theorem sortedSent_eq : i.state.sortedSent = j.state.sortedSent := by
  have hd' : OnePayload l' := hd.of_subset fun e => (same e).2
  apply State.totalOrder_sent.mergeSort_eq_iff.2
  rw [List.perm_ext_iff_of_nodup h.nodup_sent h'.nodup_sent]
  intro x
  rw [h.mem_sent_iff hd, h'.mem_sent_iff hd']
  constructor
  · rintro ⟨c, hc, hx⟩
    exact ⟨c, hc.mono fun e => (same e).1, hx⟩
  · rintro ⟨c, hc, hx⟩
    exact ⟨c, hc.mono fun e => (same e).2, hx⟩

theorem handled_subset (hw : i.state.roster.Within j.state.roster) : i.handled ⊆ j.handled := by
  have hd' : OnePayload l' := hd.of_subset fun e => (same e).2
  intro hash hm
  obtain ⟨e, he, hh, ho, hall⟩ := (h.mem_handled_iff hd).1 hm
  exact (h'.mem_handled_iff hd').2 ⟨e, (same e).1 he, hh, ho, fun c hc => (hall c hc).mono hw⟩

theorem snapshot_eq_of_within (hw : i.state.roster.Within j.state.roster)
    (hw' : j.state.roster.Within i.state.roster) : i.snapshot = j.snapshot := by
  have howner : i.state.roster.owner? = j.state.roster.owner? := by
    funext d
    apply Option.ext
    intro m
    exact ⟨hw.owner?, hw'.owner?⟩
  have hadmin : ∀ m, m ∈ i.state.roster.admins ↔ m ∈ j.state.roster.admins := by
    intro m
    rw [← Roster.isAdmin_iff, ← Roster.isAdmin_iff]
    exact ⟨hw.isAdmin, hw'.isAdmin⟩
  have hi := h.consistent.shows
  have hj := h'.consistent.shows
  rw [← howner] at hj
  have hunder : ∀ m, PublicKey.sort (i.state.roster.devicesUnder m) =
      PublicKey.sort (j.state.roster.devicesUnder m) := by
    intro m
    rw [PublicKey.sort_eq_iff, List.perm_ext_iff_of_nodup (hi.devicesUnder m) (hj.devicesUnder m)]
    intro d
    rw [h.consistent.mem_devicesUnder_iff, h'.consistent.mem_devicesUnder_iff, howner]
  have hmembers := hi.members.unique PublicKey.totalOrder_le hj.members
  have hdevices := hi.devices.unique PublicKey.totalOrder_le hj.devices
  have hadmins : i.state.roster.sortedAdmins = j.state.roster.sortedAdmins := by
    apply PublicKey.sort_eq_iff.2
    exact (List.perm_ext_iff_of_nodup h.consistent.nodup_admins h'.consistent.nodup_admins).2 hadmin
  have hsent := h.sortedSent_eq h' same hd
  have hhandled : i.handled.mergeSort EntryHash.le = j.handled.mergeSort EntryHash.le := by
    have hd' : OnePayload l' := hd.of_subset fun e => (same e).2
    have hsub' : j.handled ⊆ i.handled := h'.handled_subset h (fun e => (same e).symm) hd' hw'
    apply EntryHash.totalOrder_le.mergeSort_eq_iff.2
    rw [List.perm_ext_iff_of_nodup h.tidy.nodup_handled h'.tidy.nodup_handled]
    exact fun hash => ⟨fun hm => h.handled_subset h' same hd hw hm, fun hm => hsub' hm⟩
  simp only [Index.snapshot, hmembers, hdevices, hadmins, hsent, hhandled, hunder, howner]

/-- Indexes that reached the same entries show the same exactly when neither dropped what is in
force in the other. -/
theorem snapshot_eq_iff : i.snapshot = j.snapshot ↔
    ∀ c, Offered self reader l c → ¬ i.Overrides j c ∧ ¬ j.Overrides i c := by
  have hd' : OnePayload l' := hd.of_subset fun e => (same e).2
  constructor
  · intro heq c hc
    have hi := Index.snapshot_shows h.consistent
    have hj := Index.snapshot_shows h'.consistent
    rw [← heq] at hj
    -- the snapshot tells the devices and the admins, and these tell what is in force
    have howner : ∀ d m, i.state.roster.owner? d = some m ↔ j.state.roster.owner? d = some m :=
      fun d m => (hi.devices d m).symm.trans (hj.devices d m)
    have hadmin : ∀ m, i.state.roster.isAdmin m = true ↔ j.state.roster.isAdmin m = true :=
      fun m => (hi.admins.mem_iff m).symm.trans (hj.admins.mem_iff m)
    have hholds : i.state.roster.Holds c.statement ↔ j.state.roster.Holds c.statement := by
      simp only [Roster.Holds, howner, hadmin]
    exact ⟨fun hover => hover.1.2 (hholds.2 hover.2), fun hover => hover.1.2 (hholds.1 hover.2)⟩
  · intro hfree
    refine h.snapshot_eq_of_within h' same hd ?_ ?_
    · exact h.record.within h' (fun e => (same e).1) hd' (Roster.Extends.refl _)
        fun c hc => (hfree c hc).2
    · exact h'.record.within h (fun e => (same e).2) hd (Roster.Extends.refl _)
        fun c hc => (hfree c (hc.mono fun e => (same e).2)).1

end Reached

/-- Two arrangements of the same entries, each taken as one batch, agree on what this device sent,
whether or not they keep the order of each sender.  They show the same exactly when neither drops
what is in force in the other, and they always do when the entries do not dispute. -/
theorem snapshot_eq_iff_of_perm (keys keys' : ChainKeys) (perm : l.Perm l') (hd : OnePayload l) :
    let i := ((Index.empty keys).update self reader l).index
    let j := ((Index.empty keys').update self reader l').index
    i.snapshot.sent = j.snapshot.sent ∧
      (i.snapshot = j.snapshot ↔
        ∀ c, Offered self reader l c → ¬ i.Overrides j c ∧ ¬ j.Overrides i c) ∧
      (Unambiguous reader l → i.snapshot = j.snapshot) := by
  have h : Reached self reader l _ _ := .update l (.empty keys)
  have h' : Reached self reader l' _ _ := .update l' (.empty keys')
  have same : ∀ e, e ∈ l ↔ e ∈ l' := fun e => perm.mem_iff
  have hiff := h.snapshot_eq_iff h' same hd
  refine ⟨h.sortedSent_eq h' same hd, hiff, ?_⟩
  intro hu
  have hu' := hu.of_subset fun e => (same e).2
  apply hiff.2
  intro c hc
  constructor
  · rintro ⟨⟨hm, hnot⟩, -⟩
    exact hnot (h.inForce hu.compatible c hc hm)
  · rintro ⟨⟨hm, hnot⟩, -⟩
    exact hnot (h'.inForce hu'.compatible c (hc.mono fun e => (same e).1) hm)

end SecureGroup.Metadata

namespace SecureGroup.Metadata

attribute [local instance] Suite.plain

open Plain

theorem onePayload_joinedEarly : OnePayload joinedEarly := by decide +kernel

theorem snapshot_eq_iff_joinedEarly :
    let i := ((Index.empty (chains 2)).update (participant 1 2) reader joinedEarly).index
    let j := ((Index.empty (chains 2)).update (participant 1 2) reader joinedEarly.reverse).index
    OnePayload joinedEarly ∧ (i.snapshot = j.snapshot ↔
      ∀ c, Offered (participant 1 2) reader joinedEarly c →
        ¬ i.Overrides j c ∧ ¬ j.Overrides i c) := by
  have hperm : joinedEarly.Perm joinedEarly.reverse := (List.reverse_perm joinedEarly).symm
  exact ⟨onePayload_joinedEarly,
    (snapshot_eq_iff_of_perm (chains 2) (chains 2) hperm onePayload_joinedEarly).2.1⟩

/-- Two members claim one device.  It goes to the one whose entry comes first, although the entries
are from different senders. -/
theorem arrangements_diverge :
    let l := [entry 2 (announced 1 2), entry 5 (joined 1 3 7), entry 6 (joined 1 4 7)]
    let l' := [entry 2 (announced 1 2), entry 6 (joined 1 4 7), entry 5 (joined 1 3 7)]
    l.Perm l' ∧
      (∀ s, l.filter (sender? reader · = some s) = l'.filter (sender? reader · = some s)) ∧
      ((Index.empty (chains 2)).update (participant 1 2) reader l).index.snapshot ≠
        ((Index.empty (chains 2)).update (participant 1 2) reader l').index.snapshot := by
  intro l l'
  refine ⟨(List.Perm.swap _ _ _).cons _, ?_, ?_⟩
  · intro s
    have h5 : sender? reader (entry 5 (joined 1 3 7)) = some (key 5).pub := by decide +kernel
    have h6 : sender? reader (entry 6 (joined 1 4 7)) = some (key 6).pub := by decide +kernel
    have hne : (key 6).pub ≠ (key 5).pub := by decide +kernel
    simp only [l, l', List.filter_cons, List.filter_nil, h5, h6, Option.some.injEq,
      decide_eq_true_eq]
    by_cases hs : (key 5).pub = s
    · subst hs
      simp only [hne, if_true, if_false]
    · simp only [hs, if_false]
  · intro heq
    have h : Reached (participant 1 2) reader l _ _ := .update l (.empty (chains 2))
    have h' : Reached (participant 1 2) reader l' _ _ := .update l' (.empty (chains 2))
    have hi := (Index.snapshot_shows h.consistent).devices (key 7).pub (key 3).pub
    have hj := (Index.snapshot_shows h'.consistent).devices (key 7).pub (key 3).pub
    rw [heq] at hi
    exact absurd (hj.1 (hi.2 (by decide +kernel))) (by decide +kernel)

end SecureGroup.Metadata
