import SecureGroup.Proofs.Ratchet
import SecureGroup.Suite.Plain

/-!
# How far a look-up goes

A look-up moves states of its chain on, one position at a time, and the positions come from others:
they may be anything up to the last word.  `Ratchet.lookUp` is the look-up with its loops, which
also tells the states that it moves on (`Ratchet.lookUp_snd`).  However a ratchet was used, it keeps
the first state and one state for every 64 positions up to the furthest one, so a look-up moves on
no more states than it may skip, or 63 (`Ratchet.From.lookUp_bounded`).  It moves on only states
before the position that is asked for, so positions never wrap around.
-/

namespace SecureGroup

variable [Suite]

/-! ## Loops -/

namespace ChainKey

variable {c d : ChainKey} {counter : UInt64}

theorem climb_of_lt (h : c.counter < counter) :
    c.climb counter = (c :: (c.next.climb counter).1, (c.next.climb counter).2) := by
  rw [climb, if_pos h]

theorem climb_of_not_lt (h : ¬ c.counter < counter) : c.climb counter = ([], c) := by
  rw [climb, if_neg h]

/-- The loop ends where the state is advanced by the whole distance, and takes as many steps. -/
theorem climb_spec (c : ChainKey) (counter : UInt64) :
    (c.climb counter).2 = c.advanceTo counter ∧
      (c.climb counter).1.length = counter.toNat - c.counter.toNat := by
  unfold advanceTo
  induction hn : counter.toNat - c.counter.toNat generalizing c with
  | zero =>
    have hnot : ¬ c.counter < counter := by
      rw [UInt64.lt_iff_toNat_lt]
      omega
    rw [climb_of_not_lt hnot]
    exact ⟨rfl, rfl⟩
  | succ n ih =>
    have hlt : c.counter < counter := by
      rw [UInt64.lt_iff_toNat_lt]
      omega
    have hnext := toNat_counter_next hlt
    obtain ⟨hlast, hlength⟩ := ih c.next (by omega)
    rw [climb_of_lt hlt]
    exact ⟨hlast, congrArg Nat.succ hlength⟩

theorem lt_of_mem_climb (h : d ∈ (c.climb counter).1) : d.counter < counter := by
  induction c using climb.induct counter with
  | case1 c hlt _ _ _ ih =>
    rw [climb_of_lt hlt] at h
    rcases List.mem_cons.1 h with rfl | h
    · exact hlt
    · exact ih h
  | case2 c hnot =>
    rw [climb_of_not_lt hnot] at h
    cases h

end ChainKey

namespace Ratchet

variable {r : Ratchet} {c : ChainKey} {counter : UInt64} {maxSkipped : Nat}

theorem climb_of_lt (h : r.head.counter < counter) :
    r.climb counter = (r.head :: (r.step.climb counter).1, (r.step.climb counter).2) := by
  rw [climb, if_pos h]

theorem climb_of_not_lt (h : ¬ r.head.counter < counter) : r.climb counter = ([], r) := by
  rw [climb, if_neg h]

/-- The loop of a ratchet moves its furthest state on. -/
theorem climb_spec (r : Ratchet) (counter : UInt64) :
    (r.climb counter).1 = (r.head.climb counter).1 ∧
      (r.climb counter).2 = r.forward (counter.toNat - r.head.counter.toNat) := by
  induction hn : counter.toNat - r.head.counter.toNat generalizing r with
  | zero =>
    have hnot : ¬ r.head.counter < counter := by
      rw [UInt64.lt_iff_toNat_lt]
      omega
    rw [climb_of_not_lt hnot, ChainKey.climb_of_not_lt hnot]
    exact ⟨rfl, rfl⟩
  | succ n ih =>
    have hlt : r.head.counter < counter := by
      rw [UInt64.lt_iff_toNat_lt]
      omega
    have hnext := ChainKey.toNat_counter_next hlt
    obtain ⟨hmoved, hlast⟩ := ih r.step (by rw [head_step]; omega)
    rw [head_step] at hmoved
    rw [climb_of_lt hlt, ChainKey.climb_of_lt hlt]
    exact ⟨congrArg (r.head :: ·) hmoved, hlast⟩

/-- The loops find what is found at once. -/
theorem lookUp_snd (r : Ratchet) (counter : UInt64) (maxSkipped : Nat) :
    (r.lookUp counter maxSkipped).2 = r.keyAt counter maxSkipped := by
  unfold lookUp keyAt
  split
  · rfl
  · split
    · dsimp only
      split
      · rfl
      · rw [(r.climb_spec counter).2]
    · dsimp only
      rw [((r.nearest counter).climb_spec counter).1]

theorem lt_of_mem_lookUp (h : c ∈ (r.lookUp counter maxSkipped).1) : c.counter < counter := by
  unfold lookUp at h
  split at h
  · cases h
  · split at h
    · dsimp only at h
      split at h
      · cases h
      · rw [(r.climb_spec counter).1] at h
        exact ChainKey.lt_of_mem_climb h
    · exact ChainKey.lt_of_mem_climb h

/-! ## Kept states -/

namespace At

variable {start : ChainKey} {h : Nat}

/-- The position of a kept state is as far from the first one as it was advanced. -/
theorem toNat_counter_mark (hr : At start h r) {k : Nat} (hk : k ≤ h / interval) :
    (start.advance (interval * k)).counter.toNat = start.counter.toNat + interval * k := by
  have hle : interval * k ≤ h := (Nat.mul_le_mul_left interval hk).trans (Nat.mul_div_le h interval)
  have hfits := hr.fits
  exact ChainKey.toNat_counter_advance (by omega)

theorem checkpoints_eq (hr : At start h r) : r.checkpoints =
    (List.range (h / interval + 1)).map fun k =>
      ((start.advance (interval * k)).counter, start.advance (interval * k)) := by
  rw [checkpoints, hr.first, hr.marks, List.range_succ_eq_map, List.map_cons, List.map_cons,
    List.map_map, List.map_map]
  rfl

/-- States are kept at the positions that are a multiple of the interval after the first one, up to
the furthest one. -/
theorem mem_checkpoints_iff (hr : At start h r) {p : UInt64} : (p, c) ∈ r.checkpoints ↔
    ∃ k, p.toNat = start.counter.toNat + interval * k ∧ p ≤ r.head.counter ∧
      c = start.advance (interval * k) := by
  have hhead := hr.toNat_head
  rw [hr.checkpoints_eq, List.mem_map]
  constructor
  · rintro ⟨k, hk, hrow⟩
    obtain ⟨rfl, rfl⟩ := Prod.mk.inj hrow
    have hk : k ≤ h / interval := Nat.lt_succ_iff.1 (List.mem_range.1 hk)
    have hle : interval * k ≤ h :=
      (Nat.mul_le_mul_left interval hk).trans (Nat.mul_div_le h interval)
    have hmark := hr.toNat_counter_mark hk
    refine ⟨k, hmark, ?_, rfl⟩
    rw [UInt64.le_iff_toNat_le]
    omega
  · rintro ⟨k, hp, hle, rfl⟩
    rw [UInt64.le_iff_toNat_le] at hle
    have hk : k ≤ h / interval := by
      rw [Nat.le_div_iff_mul_le (by decide), Nat.mul_comm]
      omega
    refine ⟨k, List.mem_range.2 (Nat.lt_succ_iff.2 hk), ?_⟩
    have hcounter : (start.advance (interval * k)).counter = p := by
      rw [← UInt64.toNat_inj, hr.toNat_counter_mark hk, hp]
    rw [hcounter]

theorem pairwise_checkpoints (hr : At start h r) :
    r.checkpoints.Pairwise fun a b => a.1 < b.1 := by
  rw [hr.checkpoints_eq, List.pairwise_map]
  refine List.pairwise_lt_range.imp_of_mem fun {j k} hj hk hlt => ?_
  have hjmark := hr.toNat_counter_mark (Nat.lt_succ_iff.1 (List.mem_range.1 hj))
  have hkmark := hr.toNat_counter_mark (Nat.lt_succ_iff.1 (List.mem_range.1 hk))
  have hmul : interval * j < interval * k := Nat.mul_lt_mul_of_pos_left hlt (by decide)
  rw [UInt64.lt_iff_toNat_lt, hjmark, hkmark]
  omega

theorem le_head (hr : At start h r) : start.counter ≤ r.head.counter := by
  rw [UInt64.le_iff_toNat_le, hr.toNat_head]
  omega

theorem head_eq (hr : At start h r) :
    r.head = start.advance (r.head.counter.toNat - start.counter.toNat) := by
  rw [hr.toNat_head, Nat.add_sub_cancel_left]
  exact hr.head

/-- A look-up past the furthest state skips what it may, and one before it starts from a kept state
that is less than the interval away. -/
theorem length_lookUp (hr : At start h r) (counter : UInt64) (maxSkipped : Nat) :
    (r.lookUp counter maxSkipped).1.length ≤ max maxSkipped (interval - 1) := by
  have hfirst := hr.first
  have hhead := hr.toNat_head
  unfold lookUp
  split
  · exact Nat.zero_le _
  · next hfrom =>
    split
    · dsimp only
      split
      · exact Nat.zero_le _
      · next hnear =>
        rw [(r.climb_spec counter).1, (r.head.climb_spec counter).2]
        omega
    · next hback =>
      rw [UInt64.lt_iff_toNat_lt, hfirst] at hfrom
      rw [UInt64.le_iff_toNat_le] at hback
      obtain ⟨d, hd⟩ := Nat.exists_eq_add_of_le (Nat.not_lt.1 hfrom)
      have hle : d ≤ h := by omega
      have hmark := hr.toNat_counter_mark (Nat.div_le_div_right (c := interval) hle)
      have hrest : d - interval * (d / interval) < interval := by
        have hmod := Nat.mod_lt d (show 0 < interval by decide)
        have hsplit := Nat.div_add_mod d interval
        omega
      dsimp only
      rw [hr.nearest hle hd, ((start.advance _).climb_spec counter).2, hmark]
      omega

end At

/-! ## Main statement -/

/-- However a ratchet was used since it learned a first state, the states that it keeps are those at
a multiple of 64 positions after the first one, up to the furthest one, each advanced from the first
state; and so is the furthest one.  So a look-up of any position with any bound moves on no more
states than the bound or 63, and each of them is before that position and has a next one. -/
theorem From.lookUp_bounded {start : ChainKey} (hr : From start r) :
    (∀ p c, (p, c) ∈ r.checkpoints ↔ ∃ k, p.toNat = start.counter.toNat + 64 * k ∧
      p ≤ r.head.counter ∧ c = start.advance (64 * k)) ∧
    r.checkpoints.Pairwise (fun a b => a.1 < b.1) ∧
    (start.counter ≤ r.head.counter ∧
      r.head = start.advance (r.head.counter.toNat - start.counter.toNat)) ∧
    ∀ (counter : UInt64) (maxSkipped : Nat),
      (r.lookUp counter maxSkipped).2 = r.keyAt counter maxSkipped ∧
      (r.lookUp counter maxSkipped).1.length ≤ max maxSkipped 63 ∧
      ∀ c ∈ (r.lookUp counter maxSkipped).1,
        c.counter < counter ∧ c.next.counter.toNat = c.counter.toNat + 1 := by
  obtain ⟨h, hat⟩ := hr.at
  refine ⟨fun p c => hat.mem_checkpoints_iff, hat.pairwise_checkpoints,
    ⟨hat.le_head, hat.head_eq⟩, fun counter maxSkipped => ?_⟩
  refine ⟨r.lookUp_snd counter maxSkipped, hat.length_lookUp counter maxSkipped, fun c hc => ?_⟩
  have hlt := lt_of_mem_lookUp hc
  exact ⟨hlt, ChainKey.toNat_counter_next hlt⟩

end Ratchet

end SecureGroup

namespace SecureGroup.Ratchet

attribute [local instance] Suite.plain

/-- A ratchet that starts 70 positions before the last one there is and has gone up to it keeps two
states, and the position before the last one is five steps away from the second of them. -/
theorem lookUp_bounded_at_the_end :
    let start : ChainKey := ⟨7, .fit 32 [1], 0xffffffffffffffb9⟩
    let r := ((of start).keyAt 0xffffffffffffffff 100).2
    From start r ∧ r.head.counter = 0xffffffffffffffff ∧
      r.checkpoints.map (·.1) = [0xffffffffffffffb9, 0xfffffffffffffff9] ∧
      (r.lookUp 0xfffffffffffffffe 0).1.length = 5 ∧
      ∀ counter, (r.lookUp counter 0).1.length ≤ 63 := by
  intro start r
  have hr : From start r := .keyAt 0xffffffffffffffff 100 .of
  obtain ⟨-, -, -, hbound⟩ := hr.lookUp_bounded
  have hrun : r.head.counter = 0xffffffffffffffff ∧
      r.checkpoints.map (·.1) = [0xffffffffffffffb9, 0xfffffffffffffff9] ∧
      (r.nearest 0xfffffffffffffffe).counter = 0xfffffffffffffff9 ∧
      ¬ (0xfffffffffffffffe : UInt64) < r.first.counter := by
    decide +kernel
  obtain ⟨hhead, hkept, hnearest, hfrom⟩ := hrun
  refine ⟨hr, hhead, hkept, ?_, fun counter => (hbound counter 0).2.1⟩
  rw [lookUp, if_neg hfrom, hhead, if_neg (by decide)]
  dsimp only
  rw [((r.nearest _).climb_spec _).2, hnearest]
  rfl

end SecureGroup.Ratchet
