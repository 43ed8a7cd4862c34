import SecureGroup.Proofs.Order
import SecureGroup.Proofs.Reached

/-!
# What an index shows

Members and devices are kept in two maps and shown by many questions.  `Roster.Shows` says that all
of them are answered from one relation, which says whose each device is; a consistent roster shows
the relation of its devices (`Consistent.shows`).  `Index.Extends` says what further entries may not
change.  Both hold of every reached index (`Reached.shows_one_relation`).
-/

namespace SecureGroup.Metadata

namespace Roster

variable {r : Roster} {m d : PublicKey} {pair : MemberDevice}

/-- All that can be asked of a roster is answered from one relation of members and devices. -/
structure Shows (r : Roster) (owns : PublicKey → PublicKey → Prop) : Prop where
  /-- A device has one member. -/
  unique : ∀ m m' d, owns m d → owns m' d → m = m'
  byDevice : ∀ d pair, r.byDevice.get? d = some pair ↔ pair.device = d ∧ owns pair.member d
  byMember : ∀ m pair, pair ∈ r.pairsUnder m ↔ pair.member = m ∧ owns m pair.device
  /-- A member has a device, and none twice. -/
  isMember : ∀ m, r.isMember m = true ↔ ∃ d, owns m d
  devicesUnder : ∀ m, (r.devicesUnder m).Nodup
  /-- Admins are members. -/
  isAdmin : ∀ m, r.isAdmin m = true → ∃ d, owns m d
  members : Lists PublicKey.le (fun m => ∃ d, owns m d) r.members
  devices : Lists PublicKey.le (fun d => ∃ m, owns m d) r.devices
  sortedPairs : Lists MemberDevice.le (fun pair => owns pair.member pair.device) r.sortedPairs
  memberCount : r.memberCount = r.members.length
  deviceCount : r.deviceCount = r.devices.length
  memberOf : ∀ d m, r.memberOf d = .ok m ↔ owns m d
  memberOf_error : ∀ d e, r.memberOf d = .error e ↔ e = .unknownDevice d ∧ ∀ m, ¬ owns m d
  devicesOf : ∀ m ds, r.devicesOf m = .ok ds → ds ≠ [] ∧ ds.Nodup ∧ ∀ d, d ∈ ds ↔ owns m d
  devicesOf_error : ∀ m e, r.devicesOf m = .error e ↔ e = .unknownMember m ∧ ∀ d, ¬ owns m d

theorem isMember_iff_mem_keys : r.isMember m = true ↔ m ∈ r.byMember.keys :=
  Table.has_iff_mem_keys

theorem mem_keys_byDevice : d ∈ r.byDevice.keys ↔ ∃ m, r.owner? d = some m := by
  rw [← Table.has_iff_mem_keys, Table.has, Option.isSome_iff_exists]
  constructor
  · rintro ⟨pair, hp⟩
    exact ⟨pair.member, owner?_eq_some_iff.2 ⟨pair, hp, rfl⟩⟩
  · rintro ⟨m, hm⟩
    obtain ⟨pair, hp, -⟩ := owner?_eq_some_iff.1 hm
    exact ⟨pair, hp⟩

theorem Consistent.mem_pairs_iff (h : r.Consistent) :
    pair ∈ r.pairs ↔ r.owner? pair.device = some pair.member := by
  rw [pairs, Table.values, List.mem_map]
  constructor
  · rintro ⟨⟨d, q⟩, hq, rfl⟩
    have hd := Table.get?_eq_some_iff.2 hq
    obtain ⟨rfl, -⟩ := h.listed hd
    exact Roster.owner?_eq_some_iff.2 ⟨q, hd, rfl⟩
  · intro ho
    exact ⟨(pair.device, pair), Table.get?_eq_some_iff.1 (h.owner?_eq_some_iff.1 ho), rfl⟩

/-- The pairs are as many as their devices, and none is there twice. -/
theorem Consistent.nodup_pairs (h : r.Consistent) : r.pairs.Nodup := by
  have hdevices : r.pairs.map (·.device) = r.byDevice.keys := by
    rw [pairs, Table.values, Table.keys, List.map_map]
    apply List.map_congr_left
    rintro ⟨d, q⟩ hq
    exact (h.listed (Table.get?_eq_some_iff.2 hq)).1
  have hnodup : (r.pairs.map (·.device)).Nodup := by
    rw [hdevices]
    exact r.byDevice.nodup_keys
  exact hnodup.of_map _

theorem memberOf_eq_ok_iff : r.memberOf d = .ok m ↔ r.owner? d = some m := by
  unfold memberOf
  cases r.owner? d <;> simp

theorem Consistent.shows (h : r.Consistent) : r.Shows fun m d => r.owner? d = some m where
  unique m m' d hm hm' := Option.some.inj (hm.symm.trans hm')
  byDevice d pair := by
    constructor
    · intro hp
      exact ⟨(h.listed hp).1, Roster.owner?_eq_some_iff.2 ⟨pair, hp, rfl⟩⟩
    · rintro ⟨rfl, ho⟩
      exact h.owner?_eq_some_iff.1 ho
  byMember m pair := h.mem_pairsUnder_iff
  isMember m := h.isMember_iff
  devicesUnder := h.nodup_devices
  isAdmin m hm := h.isMember_iff.1 (h.isMember_admin hm)
  members := by
    have hmem : ∀ m, m ∈ r.byMember.keys ↔ ∃ d, r.owner? d = some m := by
      intro m
      rw [← isMember_iff_mem_keys, h.isMember_iff]
    exact PublicKey.lists_sort r.byMember.nodup_keys hmem
  devices := PublicKey.lists_sort r.byDevice.nodup_keys fun _ => mem_keys_byDevice
  sortedPairs := MemberDevice.totalOrder_le.lists_mergeSort h.nodup_pairs fun _ => h.mem_pairs_iff
  memberCount := by
    rw [memberCount, members, PublicKey.sort, List.length_mergeSort, Table.keys, List.length_map,
      Table.size]
  deviceCount := by
    rw [deviceCount, devices, PublicKey.sort, List.length_mergeSort, Table.keys, List.length_map,
      Table.size]
  memberOf d m := memberOf_eq_ok_iff
  memberOf_error d e := by
    unfold memberOf
    cases r.owner? d <;> simp [eq_comm]
  devicesOf m ds hds := by
    unfold devicesOf at hds
    split at hds
    · next hm =>
      obtain rfl := Except.ok.inj hds
      have hne := h.pairsUnder_ne_nil hm
      exact ⟨by simpa [devicesUnder] using hne, h.nodup_devices m, fun d => h.mem_devicesUnder_iff⟩
    · cases hds
  devicesOf_error m e := by
    have hnot : (∀ d, ¬ r.owner? d = some m) ↔ ¬ r.isMember m = true := by
      rw [h.isMember_iff, not_exists]
    rw [hnot]
    unfold devicesOf
    split
    · next hm => simp [hm]
    · next hm => simp [hm, eq_comm]

end Roster

/-- What a snapshot shows is a relation of members and devices, and admins. -/
structure Snapshot.Shows (s : Snapshot) (owns : PublicKey → PublicKey → Prop)
    (admin : PublicKey → Prop) : Prop where
  members : ∀ m ds, (m, ds) ∈ s.members ↔ (∃ d, owns m d) ∧ Lists PublicKey.le (owns m) ds
  devices : ∀ d m, (d, m) ∈ s.devices ↔ owns m d
  admins : Lists PublicKey.le admin s.admins

variable [Suite] {self : Participant} {reader : Log.Reader} {log entries : List Log.Entry}
  {i j k : Index} {told : List Notice} {c : Candidate}

omit [Suite] in
theorem Index.snapshot_shows (h : i.state.roster.Consistent) :
    i.snapshot.Shows (fun m d => i.state.roster.owner? d = some m)
      fun m => i.state.roster.isAdmin m = true where
  members m ds := by
    have hlists : Lists PublicKey.le (fun d => i.state.roster.owner? d = some m)
        (PublicKey.sort (i.state.roster.devicesUnder m)) :=
      PublicKey.lists_sort (h.nodup_devices m) fun d => h.mem_devicesUnder_iff
    rw [Index.snapshot, List.mem_map]
    constructor
    · rintro ⟨m', hm, he⟩
      obtain ⟨rfl, rfl⟩ := Prod.mk.inj he
      exact ⟨(h.shows.members.mem_iff m').1 hm, hlists⟩
    · rintro ⟨hm, hds⟩
      refine ⟨m, (h.shows.members.mem_iff m).2 hm, ?_⟩
      rw [hlists.unique PublicKey.totalOrder_le hds]
  devices d m := by
    simp only [Index.snapshot, List.mem_filterMap, Option.map_eq_some_iff, Prod.mk.injEq]
    constructor
    · rintro ⟨d', -, m', ho, rfl, rfl⟩
      exact ho
    · intro ho
      exact ⟨d, (h.shows.devices.mem_iff d).2 ⟨m, ho⟩, m, ho, rfl, rfl⟩
  admins := PublicKey.lists_sort h.nodup_admins fun _ => Roster.isAdmin_iff.symm

/-! ## What stays -/

structure Index.Extends (i j : Index) : Prop where
  roster : i.state.roster.Extends j.state.roster
  sent : i.state.sent ⊆ j.state.sent
  handled : i.handled ⊆ j.handled

omit [Suite] in
theorem Index.Extends.refl (i : Index) : i.Extends i :=
  ⟨Roster.Extends.refl _, fun _ hx => hx, fun _ hx => hx⟩

omit [Suite] in
theorem Index.Extends.trans (h : i.Extends j) (h' : j.Extends k) : i.Extends k :=
  ⟨h.roster.trans h'.roster, fun _ hx => h'.sent (h.sent hx), fun _ hx => h'.handled (h.handled hx)⟩

theorem Move.extends (h : Move self reader log i j told) : i.Extends j where
  roster := by
    rcases h.roster_cases with ⟨-, hr⟩ | ⟨c, -, -, he⟩
    · rw [hr]
      exact Roster.Extends.refl _
    · exact Roster.extends_enrol he
  sent := by
    cases h with
    | invalid mem fresh opens invalid => exact fun _ hx => hx
    | tried offered fresh tries =>
      intro x hx
      rw [tries.state_eq, State.mem_sent_step]
      exact Or.inl hx
  handled := by
    cases h with
    | invalid mem fresh opens invalid => exact List.subset_cons_self _ _
    | tried offered fresh tries => exact tries.handled_subset

theorem Moves.extends (h : Moves self reader log i j told) : i.Extends j := by
  induction h with
  | refl => exact Index.Extends.refl _
  | snoc before last ih => exact ih.trans last.extends

/-! ## Every reached index -/

theorem Reached.consistent (h : Reached self reader log told i) : i.state.roster.Consistent := by
  refine h.invariant (P := fun _ i => i.state.roster.Consistent) ?_ ?_ ?_
  · exact fun keys => Roster.consistent_empty
  · exact fun keys hi => hi
  · intro told i j more _ hi hm
    rcases hm.roster_cases with ⟨-, hr⟩ | ⟨c, -, -, he⟩
    · rw [hr]
      exact hi
    · exact hi.enrol he

theorem Reached.nodup_sent (h : Reached self reader log told i) : i.state.sent.Nodup := by
  refine h.invariant (P := fun _ i => i.state.sent.Nodup) ?_ ?_ ?_
  · exact fun keys => List.nodup_nil
  · exact fun keys hi => hi
  · intro told i j more _ hi hm
    cases hm with
    | invalid mem fresh opens invalid => exact hi
    | tried offered fresh tries =>
      rw [tries.state_eq]
      exact State.nodup_sent_step _ _ _ hi

/-- After any batches an index shows one relation of members and devices, whatever it is asked, and
further entries only extend it. -/
theorem Reached.shows_one_relation (h : Reached self reader log told i) :
    i.state.roster.Shows (fun m d => i.state.roster.owner? d = some m) ∧
      i.snapshot.Shows (fun m d => i.state.roster.owner? d = some m)
        (fun m => i.state.roster.isAdmin m = true) ∧
      ∀ entries, i.Extends (i.update self reader entries).index := by
  refine ⟨h.consistent.shows, Index.snapshot_shows h.consistent, ?_⟩
  intro entries
  have hi := h.tidy.mono fun e he => List.mem_append_left entries he
  exact (Index.moves_update hi fun e he => List.mem_append_right log he).1.extends

end SecureGroup.Metadata

namespace SecureGroup.Metadata

attribute [local instance] Suite.plain

open Plain

theorem shows_one_relation_joinedEarly :
    let i := ((Index.empty (chains 2)).update (participant 1 2) reader joinedEarly).index
    i.state.roster.memberCount = 2 ∧ i.state.roster.isAdmin (key 1).pub = true ∧
      i.state.roster.Shows (fun m d => i.state.roster.owner? d = some m) ∧
      ∀ entries, i.Extends (i.update (participant 1 2) reader entries).index := by
  have hreached : Reached (participant 1 2) reader _ _ _ :=
    .update joinedEarly (.empty (chains 2))
  obtain ⟨hshows, -, hextends⟩ := Reached.shows_one_relation hreached
  exact ⟨by decide +kernel, by decide +kernel, hshows, hextends⟩

end SecureGroup.Metadata
