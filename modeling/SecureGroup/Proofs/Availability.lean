import SecureGroup.Proofs.Derivation

/-!
# How long a key can be found

A key that was found is the key of its position for good: whatever is asked of the keys of a device
later, a look-up there finds the same key or is refused as too far ahead
(`ChainKeys.messageKey_later`).  It is found as long as no earlier state of the chain is given.
Such a state gives all that the later one gave, but the look-ups start over with it: a position that
is too far from it is refused until the positions before are looked up in order
(`ChainKeys.unavailable_after_earlier`).
-/

namespace SecureGroup

variable [Suite]

/-- A state is reached from another one, at positions that a word can count. -/
def ChainKey.Reaches (s c : ChainKey) : Prop :=
  ∃ d, s.counter.toNat + d < UInt64.size ∧ s.advance d = c

theorem ChainKey.Reaches.le {s c : ChainKey} (h : s.Reaches c) :
    s.counter.toNat ≤ c.counter.toNat := by
  obtain ⟨d, hfits, rfl⟩ := h
  rw [toNat_counter_advance hfits]
  exact Nat.le_add_right _ d

namespace ChainKeys

/-- Look-ups of so many positions after one, in order. -/
def catchUp (device : PublicKey) (chainId : UInt64) (far d : Nat) : List Call :=
  (List.range d).map fun i => .messageKey device chainId (UInt64.ofNat (far + i + 1))

variable {k : ChainKeys} {ownDevice device : PublicKey} {own s : ChainKey} {maxSkipped h d : Nat}
  {calls : List Call} {chainId n : UInt64} {key : Octets 32}

/-- A key that is found is that of the chain, at a position from the first known state on. -/
theorem Reads.of_found (hk : k.Reads device s h)
    (found : (k.messageKey device s.chainId n).1 = .ok (some key)) :
    ∃ d, n.toNat = s.counter.toNat + d ∧ (s.advance d).messageKey = key := by
  by_cases hbefore : n.toNat < s.counter.toNat
  · rw [(hk.messageKey_of_lt hbefore).1] at found
    cases found
  obtain ⟨d, hd⟩ := Nat.exists_eq_add_of_le (Nat.not_lt.1 hbefore)
  refine ⟨d, hd, ?_⟩
  by_cases hnear : d ≤ h + k.maxSkipped
  · rw [(hk.messageKey_of_le hnear hd).1] at found
    exact Option.some.inj (Except.ok.inj found)
  · rw [(hk.messageKey_of_far (Nat.not_le.1 hnear) hd).1] at found
    cases found

/-- A position that is too far past the furthest one is refused, and the keys stay as they are. -/
theorem Reads.eq_refused (hk : k.Reads device s h) (far : h + k.maxSkipped < d)
    (hn : n.toNat = s.counter.toNat + d) :
    k.messageKey device s.chainId n =
      (.error (.counterAhead n.toNat (n.toNat - (s.counter.toNat + h))), k) := by
  have herror := (hk.messageKey_of_far far hn).1
  have hdistance : d - h = n.toNat - (s.counter.toNat + h) := by omega
  rw [hdistance] at herror
  exact Prod.ext herror (messageKey_unchanged k _ _ _ (by simp [herror]))

/-- Whoever looks the positions after the furthest one up in order gets as far as he likes. -/
theorem Reads.catchUp (hk : k.Reads device s h) (skips : 0 < k.maxSkipped)
    (fits : s.counter.toNat + (h + d) < UInt64.size) :
    (k.afterAll (catchUp device s.chainId (s.counter.toNat + h) d)).Reads device s (h + d) := by
  induction d with
  | zero => exact hk
  | succ d ih =>
    have hreads := ih (by omega)
    have hmax := maxSkipped_afterAll k (ChainKeys.catchUp device s.chainId (s.counter.toNat + h) d)
    have hcounter : (UInt64.ofNat (s.counter.toNat + h + d + 1)).toNat =
        s.counter.toNat + (h + (d + 1)) := by
      rw [UInt64.toNat_ofNat_of_lt' (by omega)]
      omega
    have hnext := (hreads.messageKey_of_le (by omega) hcounter).2
    rw [Nat.max_eq_right (by omega)] at hnext
    rw [ChainKeys.catchUp, List.range_succ, List.map_append, List.map_singleton, afterAll_concat]
    exact hnext

/-- A position is found once those from the furthest one up to it were looked up in order. -/
theorem Reads.found_after_catchUp (hk : k.Reads device s h) (skips : 0 < k.maxSkipped)
    (hn : n.toNat = s.counter.toNat + d) :
    ((k.afterAll (ChainKeys.catchUp device s.chainId (s.counter.toNat + h)
      (n.toNat - (s.counter.toNat + h)))).messageKey device s.chainId n).1 =
        .ok (some (s.advance d).messageKey) := by
  have hword : n.toNat < UInt64.size := n.toNat_lt
  have hfits : s.counter.toNat + h < UInt64.size := hk.choose_spec.2.fits
  obtain ⟨rest, hrest⟩ : ∃ rest, rest = n.toNat - (s.counter.toNat + h) := ⟨_, rfl⟩
  have hcaught := hk.catchUp (d := rest) skips (by omega)
  rw [← hrest]
  exact (hcaught.messageKey_of_le (by omega) hn).1

theorem start?_of_found
    (found : (((ofChain ownDevice own maxSkipped).afterAll calls).messageKey device chainId n).1 =
      .ok (some key)) : ∃ s, start? ownDevice own calls device chainId = some s := by
  cases hstart : start? ownDevice own calls device chainId with
  | some s => exact ⟨s, rfl⟩
  | none =>
    have hfirst := first?_afterAll ownDevice own maxSkipped calls device chainId
    rw [hstart, first?, Option.map_eq_none_iff] at hfirst
    rw [ChainKeys.messageKey, hfirst] at found
    cases found

/-- Among more states of one chain, the least one still reaches the one that was the least. -/
theorem start?_reaches (hstart : start? ownDevice own calls device chainId = some s)
    (more : List Call) (same : ∀ c, .register device c ∈ more → c.chainId = chainId →
      s.Reaches c ∨ c.Reaches s) :
    ∃ least, start? ownDevice own (calls ++ more) device chainId = some least ∧
      least.Reaches s := by
  induction more using List.reverseRecOn with
  | nil =>
    rw [List.append_nil]
    exact ⟨s, hstart, 0, s.counter.toNat_lt, rfl⟩
  | append_singleton more call ih =>
    obtain ⟨least, hleast, hreaches⟩ := ih fun c hc => same c (List.mem_append_left _ hc)
    rw [← List.append_assoc]
    cases hgiven : call.given? device chainId with
    | none => exact ⟨least, (start?_concat_of_none hgiven).trans hleast, hreaches⟩
    | some c =>
      obtain ⟨rfl, hid⟩ := Call.given?_eq_some_iff.1 hgiven
      rw [start?_concat_of_given hgiven, hleast, earlier]
      split
      · next hless =>
        refine ⟨c, rfl, (same c (by simp) hid).resolve_left fun hafter => ?_⟩
        have hlt := UInt64.lt_iff_toNat_lt.1 hless
        have hle := hreaches.le
        have hle' := hafter.le
        omega
      · exact ⟨least, rfl, hreaches⟩

/-! ## Main statement -/

/-- A key was found, and anything may be asked of the keys afterwards, as long as the states that
are given for the chain are of one chain with the state from which it was known.

* The key is found again as long as the position is not too far past the furthest one that was
  derived since the least state was given, and it is refused as too far ahead otherwise.
* If no earlier state was given in between, it is not past the furthest one.
* If an earlier state was given, it is found again once the positions before are looked up in
  order, as long as a look-up may skip any. -/
theorem messageKey_later
    (found : (((ofChain ownDevice own maxSkipped).afterAll calls).messageKey device chainId n).1 =
      .ok (some key))
    (more : List Call)
    (same : ∀ s, start? ownDevice own calls device chainId = some s →
      ∀ c, .register device c ∈ more → c.chainId = chainId → s.Reaches c ∨ c.Reaches s) :
    let later := calls ++ .messageKey device chainId n :: more
    let k := (ofChain ownDevice own maxSkipped).afterAll later
    ∃ least far, start? ownDevice own later device chainId = some least ∧
      Furthest ownDevice own maxSkipped later device least far ∧
      ((k.messageKey device chainId n).1 = .ok (some key) ↔ n.toNat ≤ far + maxSkipped) ∧
      (far + maxSkipped < n.toNat → k.messageKey device chainId n =
        (.error (.counterAhead n.toNat (n.toNat - far)), k)) ∧
      (start? ownDevice own calls device chainId = some least → n.toNat ≤ far) ∧
      (0 < maxSkipped →
        ((k.afterAll (catchUp device chainId far (n.toNat - far))).messageKey device chainId n).1 =
          .ok (some key)) := by
  intro later k
  obtain ⟨s, hstart⟩ := start?_of_found found
  obtain ⟨_, hbefore⟩ :
      ∃ h, ((ofChain ownDevice own maxSkipped).afterAll calls).Reads device s h :=
    (reads_afterAll hstart).imp fun _ hboth => hboth.1
  obtain rfl := chainId_of_start? hstart
  obtain ⟨d, hd, hkey⟩ := hbefore.of_found found
  -- the look-up gives no state, so only the later calls can change the least one
  obtain ⟨least, hleast, e, hfits, he⟩ : ∃ least, start? ownDevice own later device s.chainId =
      some least ∧ least.Reaches s := by
    have hlookup : start? ownDevice own (calls ++ [.messageKey device s.chainId n]) device
        s.chainId = some s := (start?_concat_of_none rfl).trans hstart
    have hreaches := start?_reaches hlookup more (same s hstart)
    rwa [List.append_assoc] at hreaches
  have hid : least.chainId = s.chainId := chainId_of_start? hleast
  obtain ⟨h, hreads, hfar⟩ : ∃ h, k.Reads device least h ∧
      Furthest ownDevice own maxSkipped later device least (least.counter.toNat + h) :=
    reads_afterAll hleast
  have hmax : k.maxSkipped = maxSkipped := maxSkipped_afterAll _ later
  have hcounter : s.counter.toNat = least.counter.toNat + e := by
    rw [← he, ChainKey.toNat_counter_advance hfits]
  have hn : n.toNat = least.counter.toNat + (e + d) := by omega
  have hsame : (least.advance (e + d)).messageKey = key := by
    rw [ChainKey.advance_add, he, hkey]
  have hnear : e + d ≤ h + k.maxSkipped →
      (k.messageKey device s.chainId n).1 = .ok (some key) := by
    intro hle
    rw [← hsame, ← hid]
    exact (hreads.messageKey_of_le hle hn).1
  have hpast : h + k.maxSkipped < e + d → k.messageKey device s.chainId n =
      (.error (.counterAhead n.toNat (n.toNat - (least.counter.toNat + h))), k) := by
    intro hlt
    rw [← hid]
    exact hreads.eq_refused hlt hn
  refine ⟨least, least.counter.toNat + h, hleast, hfar, ⟨fun hfound => ?_, fun hle => ?_⟩,
    fun hlt => hpast (by omega), fun hsome => ?_, fun hpos => ?_⟩
  · by_contra hlt
    rw [hpast (by omega)] at hfound
    cases hfound
  · exact hnear (by omega)
  · obtain rfl := Option.some.inj (hstart.symm.trans hsome)
    exact hfar.derived_le _ ⟨calls, more, n, key, rfl, hstart, rfl, found⟩
  · rw [← hsame, ← hid]
    exact hreads.found_after_catchUp (hmax.symm ▸ hpos) hn

end ChainKeys

end SecureGroup

/-! ## An earlier state of a chain -/

namespace SecureGroup.Plain

attribute [local instance] Suite.plain

def early : ChainKey := ⟨1, .fit 32 [], 0⟩

def late : ChainKey := early.advance 2

/-- The keys of a device that skips one position. -/
def skipsOne : ChainKeys := .ofChain (key 2).pub ⟨0, .fit 32 [], 0⟩ 1

theorem early_reaches_late : early.Reaches late := ⟨2, by decide, rfl⟩

end SecureGroup.Plain

namespace SecureGroup.ChainKeys

attribute [local instance] Suite.plain

open Plain

/-- A device that skips one position learns a chain at its third position and looks it up.  When it
is then given the first state of that chain, the position that it could read before is too far
ahead; it is found again after the positions before it were looked up. -/
theorem messageKey_later_caught_up :
    let k := skipsOne.afterAll
      [.register (key 3).pub late, .messageKey (key 3).pub 1 2, .register (key 3).pub early]
    (k.messageKey (key 3).pub 1 2).1 = .error (.counterAhead 2 2) ∧
      ((k.afterAll (catchUp (key 3).pub 1 0 2)).messageKey (key 3).pub 1 2).1 =
        .ok (some late.messageKey) := by
  intro k
  have hrefused : (k.messageKey (key 3).pub 1 2).1 = .error (.counterAhead 2 2) := by
    decide +kernel
  have hbefore : ((skipsOne.afterAll [.register (key 3).pub late]).messageKey (key 3).pub 1 2).1 =
      .ok (some late.messageKey) := by decide +kernel
  obtain ⟨-, far, -, -, hfound, -, -, hcaught⟩ :=
    messageKey_later hbefore [.register (key 3).pub early] (by
      intro s hs c hc _
      obtain rfl : late = s := Option.some.inj (Eq.trans (by decide +kernel) hs)
      simp only [List.mem_singleton, Call.register.injEq, true_and] at hc
      exact Or.inr (hc ▸ early_reaches_late))
  have hfar : far = 0 := by
    by_contra hne
    have hle : (2 : UInt64).toNat ≤ far + 1 := by
      rw [show (2 : UInt64).toNat = 2 from rfl]
      omega
    have := hrefused.symm.trans (hfound.2 hle)
    cases this
  subst hfar
  exact ⟨hrefused, hcaught (by decide)⟩

/-- A key that was found is not found any more once an earlier state of the same chain is given,
although that state can be advanced to the position. -/
theorem unavailable_after_earlier :
    let known := skipsOne.afterAll [.register (key 3).pub late]
    let found := known.messageKey (key 3).pub 1 2
    let given := found.2.register (key 3).pub early
    early.Reaches late ∧ found.1 = .ok (some late.messageKey) ∧ given.1 = true ∧
      (given.2.messageKey (key 3).pub 1 2).1 = .error (.counterAhead 2 2) ∧
      (early.advance 2).messageKey = late.messageKey := by
  exact ⟨early_reaches_late, by decide +kernel, by decide +kernel, by decide +kernel, rfl⟩

end SecureGroup.ChainKeys
