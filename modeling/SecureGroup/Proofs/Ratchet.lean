import Mathlib.Data.List.TakeWhile
import SecureGroup.ChainKeys

/-!
# What a ratchet can read

However a ratchet was used, it knows the first state that it learned, a mark every 64 positions
after it, and the furthest state (`Ratchet.At`).  So it gives the message key of every position from
the first on that is not too far past the furthest one, and it gives the key that the chain itself
has there (`Ratchet.At.keyAt_cases`).  What was looked up before decides only where the furthest
state is, and that never moves back (`ChainKeys.Reads.messageKey`).
-/

namespace SecureGroup

variable [Suite]

/-! ## Chains -/

namespace ChainKey

theorem advance_add (m n : Nat) (c : ChainKey) : advance (m + n) c = advance n (advance m c) := by
  induction m generalizing c with
  | zero => rw [Nat.zero_add]; rfl
  | succ m ih => rw [Nat.succ_add]; exact ih c.next

theorem next_advance (n : Nat) (c : ChainKey) : (advance n c).next = advance (n + 1) c :=
  (advance_add n 1 c).symm

theorem chainId_advance (n : Nat) (c : ChainKey) : (advance n c).chainId = c.chainId := by
  induction n generalizing c with
  | zero => rfl
  | succ n ih => exact ih c.next

theorem counter_advance (n : Nat) (c : ChainKey) :
    (advance n c).counter = c.counter + UInt64.ofNat n := by
  induction n generalizing c with
  | zero => exact (UInt64.add_zero _).symm
  | succ n ih =>
    rw [advance, ih, next, UInt64.add_assoc, UInt64.ofNat_add, UInt64.add_comm (UInt64.ofNat n)]
    rfl

/-- Positions are counted up as long as they fit a word. -/
theorem toNat_counter_advance {n : Nat} {c : ChainKey} (fits : c.counter.toNat + n < UInt64.size) :
    (advance n c).counter.toNat = c.counter.toNat + n := by
  rw [counter_advance, UInt64.toNat_add, UInt64.toNat_ofNat_of_lt' (by omega)]
  exact Nat.mod_eq_of_lt fits

end ChainKey

/-! ## The states that a ratchet keeps -/

namespace Ratchet

omit [Suite] in
/-- What a test takes of a numbered list, when it is passed below a bound and not from there on. -/
theorem takeWhile_map_range {α : Type} {f : Nat → α} {p : α → Bool} {m n : Nat} (hle : m ≤ n)
    (hp : ∀ j < n, (p (f j) = true ↔ j < m)) :
    ((List.range n).map f).takeWhile p = (List.range m).map f := by
  obtain ⟨k, rfl⟩ := Nat.exists_eq_add_of_le hle
  have hpos : ∀ a ∈ (List.range m).map f, p a = true := by
    intro a ha
    obtain ⟨j, hj, rfl⟩ := List.mem_map.1 ha
    have hj := List.mem_range.1 hj
    exact (hp j (by omega)).2 hj
  have hrest : ((List.range k).map fun j => f (m + j)).takeWhile p = [] := by
    cases k with
    | zero => rfl
    | succ k =>
      have hhead : ¬ p (f (m + 0)) = true := fun h => Nat.lt_irrefl m ((hp m (by omega)).1 h)
      rw [List.range_succ_eq_map, List.map_cons, List.takeWhile_cons_of_neg hhead]
  rw [List.range_add, List.map_append, List.takeWhile_append_of_pos hpos, List.map_map]
  exact (congrArg _ hrest).trans (List.append_nil _)

/-- The ratchet of a first state, with the furthest state so many positions after it. -/
structure At (start : ChainKey) (h : Nat) (r : Ratchet) : Prop where
  first : r.first = start
  head : r.head = start.advance h
  marks : r.marks = (List.range (h / interval)).map fun j => start.advance (interval * (j + 1))
  fits : start.counter.toNat + h < UInt64.size

variable {start : ChainKey} {h n d : Nat} {r : Ratchet} {counter : UInt64} {maxSkipped : Nat}

theorem at_of (start : ChainKey) : At start 0 (.of start) where
  first := rfl
  head := rfl
  marks := rfl
  fits := start.counter.toNat_lt

namespace At

theorem toNat_head (hr : At start h r) : r.head.counter.toNat = start.counter.toNat + h := by
  rw [hr.head, ChainKey.toNat_counter_advance hr.fits]

/-- A step leaves a mark exactly when it comes to a multiple of the interval. -/
theorem step (hr : At start h r) (fits : start.counter.toNat + (h + 1) < UInt64.size) :
    At start (h + 1) r.step := by
  have hhead : r.head.next = start.advance (h + 1) := by
    rw [hr.head, ChainKey.next_advance]
  have hdistance : r.head.next.counter.toNat - r.first.counter.toNat = h + 1 := by
    rw [hhead, ChainKey.toNat_counter_advance fits, hr.first]
    omega
  unfold Ratchet.step
  dsimp only
  rw [hdistance]
  split
  · next hmark =>
    have hdiv : (h + 1) / interval = h / interval + 1 := Nat.succ_div_of_mod_eq_zero hmark
    have hexact : h + 1 = interval * (h / interval + 1) := by
      rw [← hdiv, Nat.mul_div_cancel' (Nat.dvd_of_mod_eq_zero hmark)]
    refine ⟨hr.first, hhead, ?_, fits⟩
    show r.marks ++ [r.head.next] = _
    rw [hdiv, List.range_succ, List.map_append, hr.marks, hhead, List.map_singleton, ← hexact]
  · next hmark =>
    have hdiv : (h + 1) / interval = h / interval := Nat.succ_div_of_mod_ne_zero hmark
    refine ⟨hr.first, hhead, ?_, fits⟩
    rw [hdiv]
    exact hr.marks

theorem forward (hr : At start h r) (fits : start.counter.toNat + (h + n) < UInt64.size) :
    At start (h + n) (r.forward n) := by
  induction n generalizing h r with
  | zero => exact hr
  | succ n ih =>
    have hstep := hr.step (by omega)
    rw [show h + (n + 1) = h + 1 + n by omega] at fits ⊢
    exact ih hstep fits

/-- The state that is kept nearest before a position is at a multiple of the interval. -/
theorem nearest (hr : At start h r) (hd : d ≤ h)
    (hcounter : counter.toNat = start.counter.toNat + d) :
    r.nearest counter = start.advance (interval * (d / interval)) := by
  have hfits := hr.fits
  have hle : d / interval ≤ h / interval := Nat.div_le_div_right hd
  have hmark : ∀ j, j < h / interval →
      ((start.advance (interval * (j + 1))).counter ≤ counter ↔ j < d / interval) := by
    intro j hj
    have hbound : interval * (j + 1) ≤ h := by
      rw [Nat.mul_comm]
      exact (Nat.le_div_iff_mul_le (by decide)).1 hj
    rw [UInt64.le_iff_toNat_le, ChainKey.toNat_counter_advance (by omega), hcounter,
      Nat.add_le_add_iff_left, Nat.mul_comm, ← Nat.le_div_iff_mul_le (by decide), Nat.succ_le_iff]
  have htake : r.marks.takeWhile (·.counter ≤ counter) =
      (List.range (d / interval)).map fun j => start.advance (interval * (j + 1)) := by
    rw [hr.marks]
    exact takeWhile_map_range hle fun j hj => decide_eq_true_iff.trans (hmark j hj)
  rw [Ratchet.nearest, htake]
  cases hk : d / interval with
  | zero => exact hr.first
  | succ k => rw [List.range_succ, List.map_append, List.map_singleton, List.getLast?_append]; rfl

/-- What becomes of looking a position up: it is before the first known state, or its key is found
and the furthest state is not before it, or it is too far past the furthest state. -/
theorem keyAt_cases (hr : At start h r) (counter : UInt64) (maxSkipped : Nat) :
    (counter.toNat < start.counter.toNat ∧ r.keyAt counter maxSkipped = (.ok none, r)) ∨
      (∃ d, counter.toNat = start.counter.toNat + d ∧ d ≤ h + maxSkipped ∧
        (r.keyAt counter maxSkipped).1 = .ok (some (start.advance d).messageKey) ∧
        At start (max h d) (r.keyAt counter maxSkipped).2) ∨
      ∃ d, counter.toNat = start.counter.toNat + d ∧ h + maxSkipped < d ∧
        r.keyAt counter maxSkipped = (.error (.counterAhead counter.toNat (d - h)), r) := by
  by_cases hbefore : counter.toNat < start.counter.toNat
  · refine Or.inl ⟨hbefore, ?_⟩
    rw [Ratchet.keyAt, if_pos (UInt64.lt_iff_toNat_lt.2 (hr.first ▸ hbefore))]
  obtain ⟨d, hd⟩ := Nat.exists_eq_add_of_le (Nat.not_lt.1 hbefore)
  have hnot : ¬ counter < r.first.counter := by
    rw [UInt64.lt_iff_toNat_lt, hr.first]
    exact hbefore
  have hcounter := counter.toNat_lt
  refine Or.inr ?_
  rw [Ratchet.keyAt, if_neg hnot]
  by_cases hpast : h ≤ d
  · have hle : r.head.counter ≤ counter := by
      rw [UInt64.le_iff_toNat_le, hr.toNat_head]
      omega
    have hdistance : counter.toNat - r.head.counter.toNat = d - h := by
      rw [hr.toNat_head]
      omega
    rw [if_pos hle]
    dsimp only
    rw [hdistance]
    by_cases hfar : maxSkipped < d - h
    · rw [if_pos hfar]
      exact Or.inr ⟨d, hd, by omega, rfl⟩
    · have hforward := hr.forward (n := d - h) (by unfold UInt64.size; omega)
      rw [Nat.add_sub_cancel' hpast] at hforward
      rw [if_neg hfar]
      refine Or.inl ⟨d, hd, by omega, ?_, ?_⟩
      · rw [hforward.head]
      · rw [Nat.max_eq_right hpast]
        exact hforward
  · have hle : ¬ r.head.counter ≤ counter := by
      rw [UInt64.le_iff_toNat_le, hr.toNat_head]
      omega
    have hfits := hr.fits
    have hmul : interval * (d / interval) ≤ d := Nat.mul_div_le d interval
    rw [if_neg hle]
    refine Or.inl ⟨d, hd, by omega, ?_, ?_⟩
    · -- the steps from the nearest kept state are those that are left
      have hrest : counter.toNat - (start.advance (interval * (d / interval))).counter.toNat =
          d - interval * (d / interval) := by
        rw [ChainKey.toNat_counter_advance (by omega)]
        omega
      rw [hr.nearest (by omega) hd, ChainKey.advanceTo, hrest, ← ChainKey.advance_add,
        Nat.add_sub_cancel' hmul]
    · rw [Nat.max_eq_left (by omega)]
      exact hr

/-- No look-up moves the furthest state back. -/
theorem keyAt (hr : At start h r) (counter : UInt64) (maxSkipped : Nat) :
    ∃ h', h ≤ h' ∧ At start h' (r.keyAt counter maxSkipped).2 := by
  rcases hr.keyAt_cases counter maxSkipped with ⟨-, hk⟩ | ⟨d, -, -, -, hr'⟩ | ⟨d, -, -, hk⟩
  · exact ⟨h, Nat.le_refl h, by rwa [hk]⟩
  · exact ⟨max h d, Nat.le_max_left h d, hr'⟩
  · exact ⟨h, Nat.le_refl h, by rwa [hk]⟩

end At

/-- The ratchets that a first known state leads to by any look-ups. -/
inductive From (start : ChainKey) : Ratchet → Prop
  | of : From start (.of start)
  | keyAt {r : Ratchet} (counter : UInt64) (maxSkipped : Nat) (before : From start r) :
      From start (r.keyAt counter maxSkipped).2

theorem From.at (hr : From start r) : ∃ h, At start h r := by
  induction hr with
  | of => exact ⟨0, at_of start⟩
  | keyAt counter maxSkipped before ih =>
    obtain ⟨h, hr⟩ := ih
    obtain ⟨h', -, hr'⟩ := hr.keyAt counter maxSkipped
    exact ⟨h', hr'⟩

end Ratchet

/-! ## The chains that keys hold -/

namespace ChainKeys

/-- The keys hold a chain of a device from a first known state on, whatever was looked up in it. -/
def Holds (k : ChainKeys) (device : PublicKey) (start : ChainKey) : Prop :=
  ∃ r, k.ratchet? device start.chainId = some r ∧ Ratchet.From start r

/-- The keys hold a chain, and so far they have gone so many positions past its first known
state. -/
def Reads (k : ChainKeys) (device : PublicKey) (start : ChainKey) (h : Nat) : Prop :=
  ∃ r, k.ratchet? device start.chainId = some r ∧ Ratchet.At start h r

variable {k : ChainKeys} {device other : PublicKey} {start : ChainKey} {h d : Nat}
  {chainId counter : UInt64}

theorem Holds.reads (hk : k.Holds device start) : ∃ h, k.Reads device start h := by
  obtain ⟨r, hr, hfrom⟩ := hk
  obtain ⟨h, hat⟩ := hfrom.at
  exact ⟨h, r, hr, hat⟩

omit [Suite] in
theorem ratchet?_put (k : ChainKeys) (device other : PublicKey) (chainId id : UInt64)
    (r : Ratchet) : (k.put other id r).ratchet? device chainId =
      if (device, chainId) = (other, id) then some r else k.ratchet? device chainId := by
  unfold ratchet? put
  split
  · next heq => rw [heq, Table.get?_put_self]
  · next hne => exact Table.get?_put_of_ne _ _ hne

/-- A chain that was not known is held from the state on that is learned. -/
theorem holds_register (hk : k.ratchet? device start.chainId = none) :
    (k.register device start).2.Holds device start := by
  unfold register
  rw [hk]
  exact ⟨.of start, by rw [if_pos rfl, ratchet?_put, if_pos rfl], .of⟩

theorem ratchet?_messageKey {r : Ratchet} (hr : k.ratchet? device chainId = some r)
    (other : PublicKey) (id counter : UInt64) :
    (k.messageKey other id counter).2.ratchet? device chainId = some r ∨
      (k.messageKey other id counter).2.ratchet? device chainId =
        some (r.keyAt counter k.maxSkipped).2 := by
  unfold messageKey
  split
  · exact Or.inl hr
  · next r' hr' =>
    dsimp only
    rw [ratchet?_put]
    split
    · next heq =>
      obtain ⟨rfl, rfl⟩ := Prod.mk.inj heq
      obtain rfl := Option.some.inj (hr.symm.trans hr')
      exact Or.inr rfl
    · exact Or.inl hr

theorem maxSkipped_messageKey (k : ChainKeys) (device : PublicKey) (chainId counter : UInt64) :
    (k.messageKey device chainId counter).2.maxSkipped = k.maxSkipped := by
  unfold messageKey
  split <;> rfl

theorem own_messageKey (k : ChainKeys) (device : PublicKey) (chainId counter : UInt64) :
    (k.messageKey device chainId counter).2.own = k.own := by
  unfold messageKey
  split <;> rfl

theorem Holds.messageKey (hk : k.Holds device start) (other : PublicKey) (id counter : UInt64) :
    (k.messageKey other id counter).2.Holds device start := by
  obtain ⟨r, hr, hfrom⟩ := hk
  rcases ratchet?_messageKey hr other id counter with hr' | hr'
  · exact ⟨r, hr', hfrom⟩
  · exact ⟨_, hr', .keyAt counter k.maxSkipped hfrom⟩

theorem Reads.messageKey (hk : k.Reads device start h) (other : PublicKey) (id counter : UInt64) :
    ∃ h', h ≤ h' ∧ (k.messageKey other id counter).2.Reads device start h' := by
  obtain ⟨r, hr, hat⟩ := hk
  rcases ratchet?_messageKey hr other id counter with hr' | hr'
  · exact ⟨h, Nat.le_refl h, r, hr', hat⟩
  · obtain ⟨h', hle, hat'⟩ := hat.keyAt counter k.maxSkipped
    exact ⟨h', hle, _, hr', hat'⟩

/-- Positions before the first known state cannot be read. -/
theorem Reads.messageKey_of_lt (hk : k.Reads device start h)
    (hc : counter.toNat < start.counter.toNat) :
    (k.messageKey device start.chainId counter).1 = .ok none ∧
      (k.messageKey device start.chainId counter).2.Reads device start h := by
  obtain ⟨r, hr, hat⟩ := hk
  rcases hat.keyAt_cases counter k.maxSkipped with ⟨-, hkey⟩ | ⟨d, hd, -⟩ | ⟨d, hd, -⟩
  · unfold ChainKeys.messageKey
    rw [hr]
    dsimp only
    rw [hkey]
    refine ⟨rfl, r, ?_, hat⟩
    rw [ratchet?_put, if_pos rfl]
  · omega
  · omega

/-- Every position from the first known state on can be read, as long as it is not too far past the
furthest one. -/
theorem Reads.messageKey_of_le (hk : k.Reads device start h) (hd : d ≤ h + k.maxSkipped)
    (hc : counter.toNat = start.counter.toNat + d) :
    (k.messageKey device start.chainId counter).1 = .ok (some (start.advance d).messageKey) ∧
      (k.messageKey device start.chainId counter).2.Reads device start (max h d) := by
  obtain ⟨r, hr, hat⟩ := hk
  rcases hat.keyAt_cases counter k.maxSkipped with ⟨hlt, -⟩ | ⟨d', hd', -, hkey, hat'⟩ |
    ⟨d', hd', hfar, -⟩
  · omega
  · obtain rfl : d' = d := by omega
    unfold ChainKeys.messageKey
    rw [hr]
    refine ⟨hkey, _, ?_, hat'⟩
    dsimp only
    rw [ratchet?_put, if_pos rfl]
  · omega

/-- A position that is too far past the furthest one is refused, and nothing is learned from it. -/
theorem Reads.messageKey_of_far (hk : k.Reads device start h) (hd : h + k.maxSkipped < d)
    (hc : counter.toNat = start.counter.toNat + d) :
    (k.messageKey device start.chainId counter).1 =
        .error (.counterAhead counter.toNat (d - h)) ∧
      (k.messageKey device start.chainId counter).2.Reads device start h := by
  obtain ⟨r, hr, hat⟩ := hk
  rcases hat.keyAt_cases counter k.maxSkipped with ⟨hlt, -⟩ | ⟨d', hd', hnear, -⟩ |
    ⟨d', hd', -, hkey⟩
  · omega
  · omega
  · obtain rfl : d' = d := by omega
    unfold ChainKeys.messageKey
    rw [hr]
    dsimp only
    rw [hkey]
    refine ⟨rfl, r, ?_, hat⟩
    rw [ratchet?_put, if_pos rfl]

theorem Reads.messageKey_of_ne (hk : k.Reads device start h)
    (hne : (device, start.chainId) ≠ (other, chainId)) :
    (k.messageKey other chainId counter).2.Reads device start h := by
  obtain ⟨r, hr, hat⟩ := hk
  refine ⟨r, ?_, hat⟩
  unfold ChainKeys.messageKey
  split
  · exact hr
  · dsimp only
    rw [ratchet?_put, if_neg hne]
    exact hr

theorem reads_register (hk : k.ratchet? device start.chainId = none) :
    (k.register device start).2.Reads device start 0 := by
  unfold register
  rw [hk]
  exact ⟨.of start, by rw [if_pos rfl, ratchet?_put, if_pos rfl], Ratchet.at_of start⟩

/-- The keys of a device that sends on a chain hold that chain. -/
theorem reads_ofChain (device : PublicKey) (chain : ChainKey) (maxSkipped : Nat) :
    (ofChain device chain maxSkipped).Reads device chain 0 :=
  ⟨.of chain, Table.get?_put_self _ _ _, Ratchet.at_of chain⟩

end ChainKeys

end SecureGroup
