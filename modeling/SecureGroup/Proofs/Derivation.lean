import Mathlib.Data.List.MinMax
import SecureGroup.Proofs.Secrets

/-!
# Keys are those of the chain

A device looks keys up through ratchets, which keep marks, move a furthest state on and are
replaced when an earlier state is learned.  Nothing of this can be seen in the keys: whatever was
asked of the keys of a device, a look-up gives the key that is derived step by step from the
earliest state that was ever given for the chain (`ChainKeys.messageKey_afterAll`).  With `CK` the
key of that state, `CK_0 = CK`, the steps are

    CK_{n+1} = derive CK_n "groupsync-chain-key"      MK_n = derive CK_n "groupsync-message-key"

and a look-up `n` positions after the state gives `MK_n`.  Only how far a look-up may go depends on
the positions that were derived before, and a look-up that finds no key leaves the keys as they are.
-/

namespace SecureGroup

variable [Suite]

/-- The chain key so many derivations after a chain key. -/
def chainKeyAfter (key : Octets 32) : Nat → Octets 32
  | 0 => key
  | n + 1 => Suite.derive (chainKeyAfter key n).toList (Bytes.ofString "groupsync-chain-key")

/-- The message key that belongs to the chain key so many derivations after a chain key. -/
def messageKeyAfter (key : Octets 32) (n : Nat) : Octets 32 :=
  Suite.derive (chainKeyAfter key n).toList (Bytes.ofString "groupsync-message-key")

theorem ChainKey.key_advance (s : ChainKey) (n : Nat) :
    (s.advance n).key = chainKeyAfter s.key n := by
  induction n with
  | zero => rfl
  | succ n ih => rw [← next_advance, chainKeyAfter, ← ih]; rfl

theorem ChainKey.messageKey_advance (s : ChainKey) (n : Nat) :
    (s.advance n).messageKey = messageKeyAfter s.key n := by
  rw [messageKey, key_advance]
  rfl

theorem Ratchet.keyAt_unchanged (r : Ratchet) (counter : UInt64) (maxSkipped : Nat)
    (hnot : ∀ key, (r.keyAt counter maxSkipped).1 ≠ .ok (some key)) :
    (r.keyAt counter maxSkipped).2 = r := by
  unfold keyAt at hnot ⊢
  dsimp only at hnot ⊢
  split
  · rfl
  · next hfirst =>
    rw [if_neg hfirst] at hnot
    split
    · next hhead =>
      rw [if_pos hhead] at hnot
      split
      · rfl
      · next hnear =>
        rw [if_neg hnear] at hnot
        exact absurd rfl (hnot _)
    · rfl

namespace ChainKeys

/-! ## Calls -/

/-- What can be asked of the keys of a device. -/
inductive Call
  | register (device : PublicKey) (chain : ChainKey)
  | messageKey (device : PublicKey) (chainId counter : UInt64)
  | nextOwn
  | skipOwnTo (counter : UInt64)

def after (k : ChainKeys) : Call → ChainKeys
  | .register device chain => (k.register device chain).2
  | .messageKey device chainId counter => (k.messageKey device chainId counter).2
  | .nextOwn => k.nextOwn.2
  | .skipOwnTo counter => k.skipOwnTo counter

def afterAll (k : ChainKeys) (calls : List Call) : ChainKeys := calls.foldl after k

/-- The state that a call gives for a chain. -/
def Call.given? (device : PublicKey) (chainId : UInt64) : Call → Option ChainKey
  | .register other chain => if (device, chainId) = (other, chain.chainId) then some chain else none
  | _ => none

/-- The states that were given for a chain, in their order: the sending chain at the start, if it is
that chain, and what was registered. -/
def given (ownDevice : PublicKey) (own : ChainKey) (calls : List Call) (device : PublicKey)
    (chainId : UInt64) : List ChainKey :=
  (Call.register ownDevice own :: calls).filterMap (Call.given? device chainId)

/-- The state with the least position among those that were given for a chain, and the first one of
these. -/
def start? (ownDevice : PublicKey) (own : ChainKey) (calls : List Call) (device : PublicKey)
    (chainId : UInt64) : Option ChainKey :=
  (given ownDevice own calls device chainId).argmin (·.counter.toNat)

/-- A position of a chain was derived since a state is the least that was given: a look-up found its
key when that state had been given, and none before it. -/
def DerivedSince (ownDevice : PublicKey) (own : ChainKey) (maxSkipped : Nat) (calls : List Call)
    (device : PublicKey) (s : ChainKey) (n : Nat) : Prop :=
  ∃ before rest counter key, calls = before ++ .messageKey device s.chainId counter :: rest ∧
    start? ownDevice own before device s.chainId = some s ∧ counter.toNat = n ∧
    (((ofChain ownDevice own maxSkipped).afterAll before).messageKey device s.chainId counter).1 =
      .ok (some key)

/-- The furthest position that is known of a chain since a state is the least that was given. -/
structure Furthest (ownDevice : PublicKey) (own : ChainKey) (maxSkipped : Nat) (calls : List Call)
    (device : PublicKey) (s : ChainKey) (far : Nat) : Prop where
  known : far = s.counter.toNat ∨ DerivedSince ownDevice own maxSkipped calls device s far
  start_le : s.counter.toNat ≤ far
  derived_le : ∀ n, DerivedSince ownDevice own maxSkipped calls device s n → n ≤ far

variable {k : ChainKeys} {ownDevice device other : PublicKey} {own s chain : ChainKey}
  {maxSkipped h d n : Nat} {calls : List Call} {call : Call} {chainId counter : UInt64}

theorem afterAll_concat (k : ChainKeys) (calls : List Call) (call : Call) :
    k.afterAll (calls ++ [call]) = (k.afterAll calls).after call := by
  rw [afterAll, List.foldl_append]
  rfl

/-- How far a look-up may go is fixed at the start. -/
theorem maxSkipped_afterAll (k : ChainKeys) (calls : List Call) :
    (k.afterAll calls).maxSkipped = k.maxSkipped := by
  induction calls using List.reverseRecOn with
  | nil => rfl
  | append_singleton calls call ih =>
    rw [afterAll_concat, ← ih]
    cases call with
    | register device chain => exact maxSkipped_register _ device chain
    | messageKey device chainId counter => exact maxSkipped_messageKey _ device chainId counter
    | nextOwn => rfl
    | skipOwnTo counter => rfl

/-! ## The state from which a chain is known -/

omit [Suite]

theorem given_concat (ownDevice : PublicKey) (own : ChainKey) (calls : List Call) (call : Call)
    (device : PublicKey) (chainId : UInt64) :
    given ownDevice own (calls ++ [call]) device chainId =
      given ownDevice own calls device chainId ++ (call.given? device chainId).toList := by
  rw [given, ← List.cons_append, List.filterMap_append]
  cases h : call.given? device chainId <;> simp [given, h]

theorem Call.given?_eq_some_iff :
    call.given? device chainId = some chain ↔
      call = .register device chain ∧ chain.chainId = chainId := by
  cases call with
  | register other given =>
    simp only [Call.given?, Option.ite_none_right_eq_some, Option.some.injEq, Prod.mk.injEq,
      Call.register.injEq]
    constructor
    · rintro ⟨⟨rfl, rfl⟩, rfl⟩
      exact ⟨⟨rfl, rfl⟩, rfl⟩
    · rintro ⟨⟨rfl, rfl⟩, rfl⟩
      exact ⟨⟨rfl, rfl⟩, rfl⟩
  | messageKey | nextOwn | skipOwnTo => simp [Call.given?]

theorem mem_given_of_start? (h : start? ownDevice own calls device chainId = some s) :
    s ∈ given ownDevice own calls device chainId :=
  List.argmin_mem h

theorem chainId_of_start? (h : start? ownDevice own calls device chainId = some s) :
    s.chainId = chainId := by
  obtain ⟨call, -, hcall⟩ := List.mem_filterMap.1 (mem_given_of_start? h)
  exact (Call.given?_eq_some_iff.1 hcall).2

/-- One more state to choose from: at the same place the one that was given first stays. -/
theorem start?_concat_of_given (h : call.given? device chainId = some chain) :
    start? ownDevice own (calls ++ [call]) device chainId =
      some (earlier (start? ownDevice own calls device chainId) chain) := by
  rw [start?, given_concat, h, Option.toList_some, List.argmin_concat, ← start?]
  cases start? ownDevice own calls device chainId with
  | none => rfl
  | some s =>
    simp only [earlier, UInt64.lt_iff_toNat_lt]
    split <;> rfl

theorem start?_concat_of_none (h : call.given? device chainId = none) :
    start? ownDevice own (calls ++ [call]) device chainId =
      start? ownDevice own calls device chainId := by
  rw [start?, given_concat, h, Option.toList_none, List.append_nil, start?]

theorem start?_le (h : start? ownDevice own calls device chainId = some s)
    (hc : chain ∈ given ownDevice own calls device chainId) :
    s.counter.toNat ≤ chain.counter.toNat :=
  List.le_of_mem_argmin (f := fun s : ChainKey => s.counter.toNat) hc h

theorem not_mem_given_of_lt
    (hless : ∀ s, start? ownDevice own calls device chainId = some s → chain.counter < s.counter) :
    chain ∉ given ownDevice own calls device chainId := by
  intro hmem
  cases hstart : start? ownDevice own calls device chainId with
  | none =>
    rw [start?, List.argmin_eq_none] at hstart
    rw [hstart] at hmem
    cases hmem
  | some s =>
    have hlt := UInt64.lt_iff_toNat_lt.1 (hless s hstart)
    have hle := start?_le hstart hmem
    omega

variable [Suite]

theorem first?_after_of_given (k : ChainKeys) (h : call.given? device chainId = some chain) :
    (k.after call).first? device chainId = some (earlier (k.first? device chainId) chain) := by
  obtain ⟨rfl, rfl⟩ := Call.given?_eq_some_iff.1 h
  rw [after, first?_register, if_pos rfl]

theorem first?_after_of_none (k : ChainKeys) (h : call.given? device chainId = none) :
    (k.after call).first? device chainId = k.first? device chainId := by
  cases call with
  | register other given =>
    simp only [Call.given?, ite_eq_right_iff, reduceCtorEq, imp_false] at h
    rw [after, first?_register, if_neg h]
  | messageKey other id counter => exact (Uses.reads k other id counter).first? device chainId
  | nextOwn => exact (Uses.sends k).first? device chainId
  | skipOwnTo counter => exact (Uses.resumes k counter).first? device chainId

theorem first?_afterAll (ownDevice : PublicKey) (own : ChainKey) (maxSkipped : Nat)
    (calls : List Call) (device : PublicKey) (chainId : UInt64) :
    ((ofChain ownDevice own maxSkipped).afterAll calls).first? device chainId =
      start? ownDevice own calls device chainId := by
  induction calls using List.reverseRecOn with
  | nil =>
    -- the keys at the start know their own chain as if it had been registered
    have hstart : ofChain ownDevice own maxSkipped =
        ((⟨ownDevice, own, .empty, maxSkipped⟩ : ChainKeys).register ownDevice own).2 := rfl
    rw [afterAll, List.foldl_nil, hstart, first?_register, start?, given, List.filterMap_cons,
      List.filterMap_nil, Call.given?]
    split <;> rfl
  | append_singleton calls call ih =>
    rw [afterAll_concat]
    cases hgiven : call.given? device chainId with
    | some chain => rw [first?_after_of_given _ hgiven, start?_concat_of_given hgiven, ih]
    | none => rw [first?_after_of_none _ hgiven, start?_concat_of_none hgiven, ih]

/-! ## The positions that were derived -/

/-- What one more call adds to the positions that were derived. -/
theorem derivedSince_concat :
    DerivedSince ownDevice own maxSkipped (calls ++ [call]) device s n ↔
      DerivedSince ownDevice own maxSkipped calls device s n ∨
        ∃ counter key, call = .messageKey device s.chainId counter ∧
          start? ownDevice own calls device s.chainId = some s ∧ counter.toNat = n ∧
          (((ofChain ownDevice own maxSkipped).afterAll calls).messageKey device s.chainId
            counter).1 = .ok (some key) := by
  constructor
  · rintro ⟨before, rest, counter, key, hcalls, hfound⟩
    rcases List.eq_nil_or_concat' rest with rfl | ⟨rest, last, rfl⟩
    · obtain ⟨rfl, hcall⟩ := List.append_inj' hcalls rfl
      exact Or.inr ⟨counter, key, List.head_eq_of_cons_eq hcall, hfound⟩
    · rw [← List.cons_append, ← List.append_assoc] at hcalls
      exact Or.inl ⟨before, rest, counter, key, (List.append_inj' hcalls rfl).1, hfound⟩
  · rintro (⟨before, rest, counter, key, rfl, hfound⟩ | ⟨counter, key, rfl, hfound⟩)
    · exact ⟨before, rest ++ [call], counter, key, by simp, hfound⟩
    · exact ⟨calls, [], counter, key, rfl, hfound⟩

theorem DerivedSince.mem_given (h : DerivedSince ownDevice own maxSkipped calls device s n) :
    s ∈ given ownDevice own calls device s.chainId := by
  obtain ⟨before, rest, counter, key, rfl, hstart, -⟩ := h
  have hmem := mem_given_of_start? hstart
  rw [given, ← List.cons_append, List.filterMap_append]
  exact List.mem_append_left _ hmem

/-- A call that finds no key of a chain leaves its furthest position as it is. -/
theorem Furthest.concat_of_not (hfar : Furthest ownDevice own maxSkipped calls device s n)
    (hnot : ∀ counter key, call = .messageKey device s.chainId counter →
      (((ofChain ownDevice own maxSkipped).afterAll calls).messageKey device s.chainId counter).1 ≠
        .ok (some key)) :
    Furthest ownDevice own maxSkipped (calls ++ [call]) device s n where
  known := hfar.known.imp_right fun h => derivedSince_concat.2 (Or.inl h)
  start_le := hfar.start_le
  derived_le := by
    intro m hm
    rcases derivedSince_concat.1 hm with hbefore | ⟨counter, key, hcall, -, -, hkey⟩
    · exact hfar.derived_le m hbefore
    · exact absurd hkey (hnot counter key hcall)

theorem Furthest.concat_of_unfound (hfar : Furthest ownDevice own maxSkipped calls device s n)
    (hnot : ∀ key, (((ofChain ownDevice own maxSkipped).afterAll calls).messageKey device s.chainId
      counter).1 ≠ .ok (some key)) :
    Furthest ownDevice own maxSkipped (calls ++ [.messageKey device s.chainId counter]) device s
      n := by
  refine hfar.concat_of_not fun counter' key hcall => ?_
  injection hcall with _ _ hcounter
  rw [← hcounter]
  exact hnot key

/-- A call that finds a key moves the furthest position on to it, unless it is past it. -/
theorem Furthest.concat_messageKey {key : Octets 32}
    (hfar : Furthest ownDevice own maxSkipped calls device s n)
    (hstart : start? ownDevice own calls device s.chainId = some s)
    (hkey : (((ofChain ownDevice own maxSkipped).afterAll calls).messageKey device s.chainId
      counter).1 = .ok (some key)) :
    Furthest ownDevice own maxSkipped (calls ++ [.messageKey device s.chainId counter]) device s
      (max n counter.toNat) where
  known := by
    rcases Nat.le_total counter.toNat n with hle | hle
    · rw [Nat.max_eq_left hle]
      exact hfar.known.imp_right fun h => derivedSince_concat.2 (Or.inl h)
    · rw [Nat.max_eq_right hle]
      exact Or.inr (derivedSince_concat.2 (Or.inr ⟨counter, key, rfl, hstart, rfl, hkey⟩))
  start_le := Nat.le_trans hfar.start_le (Nat.le_max_left n counter.toNat)
  derived_le := by
    intro m hm
    rcases derivedSince_concat.1 hm with hbefore | ⟨counter', -, hcall, -, rfl, -⟩
    · exact Nat.le_trans (hfar.derived_le m hbefore) (Nat.le_max_left n counter.toNat)
    · injection hcall with _ _ hcounter
      rw [hcounter]
      exact Nat.le_max_right n counter'.toNat

/-- A state that was not given before is the furthest one when it is given. -/
theorem furthest_of_new (hnew : s ∉ given ownDevice own calls device s.chainId) :
    Furthest ownDevice own maxSkipped (calls ++ [.register device s]) device s
      s.counter.toNat where
  known := Or.inl rfl
  start_le := Nat.le_refl _
  derived_le := by
    intro m hm
    rcases derivedSince_concat.1 hm with hbefore | ⟨counter, key, hcall, -⟩
    · exact absurd hbefore.mem_given hnew
    · cases hcall

/-! ## Look-ups -/

theorem reads_register_of_earlier
    (hnew : ∀ first, k.first? device chain.chainId = some first → chain.counter < first.counter) :
    (k.register device chain).2.Reads device chain 0 := by
  have hadopt : k.register device chain = (true, k.put device chain.chainId (.of chain)) := by
    unfold register
    cases hr : k.ratchet? device chain.chainId with
    | none => rfl
    | some r =>
      have hlt := hnew r.first (by rw [first?, hr, Option.map_some])
      exact if_pos (decide_eq_true hlt)
  exact ⟨.of chain, by rw [hadopt, ratchet?_put, if_pos rfl], Ratchet.at_of chain⟩

omit [Suite] in
theorem register_of_known {first : ChainKey} (hfirst : k.first? device chain.chainId = some first)
    (hle : ¬ chain.counter < first.counter) : (k.register device chain).2 = k := by
  obtain ⟨r, hr, rfl⟩ := Option.map_eq_some_iff.1 hfirst
  unfold register
  rw [hr]
  dsimp only
  rw [if_neg (by simpa using hle)]

theorem messageKey_unchanged (k : ChainKeys) (device : PublicKey) (chainId counter : UInt64)
    (hnot : ∀ key, (k.messageKey device chainId counter).1 ≠ .ok (some key)) :
    (k.messageKey device chainId counter).2 = k := by
  unfold messageKey at hnot ⊢
  cases hr : k.ratchet? device chainId with
  | none => rfl
  | some r =>
    rw [hr] at hnot
    have hsame : (r.keyAt counter k.maxSkipped).2 = r := r.keyAt_unchanged counter k.maxSkipped hnot
    show k.put device chainId (r.keyAt counter k.maxSkipped).2 = k
    rw [hsame, put, Table.put_of_get? _ _ _ hr]

/-- What a call that gives no state of a chain leaves of reading it. -/
theorem reads_after_of_none (hgiven : call.given? device s.chainId = none)
    (hstart : start? ownDevice own calls device s.chainId = some s)
    (hreads : ((ofChain ownDevice own maxSkipped).afterAll calls).Reads device s h)
    (hfar : Furthest ownDevice own maxSkipped calls device s (s.counter.toNat + h)) :
    ∃ h', (((ofChain ownDevice own maxSkipped).afterAll calls).after call).Reads device s h' ∧
      Furthest ownDevice own maxSkipped (calls ++ [call]) device s (s.counter.toNat + h') := by
  cases call with
  | register other chain =>
    simp only [Call.given?, ite_eq_right_iff, reduceCtorEq, imp_false] at hgiven
    obtain ⟨r, hr, hat⟩ := hreads
    refine ⟨h, ⟨r, ?_, hat⟩, hfar.concat_of_not (by intro _ _ hcall; cases hcall)⟩
    rw [after, ratchet?_register_of_ne _ hgiven, hr]
  | nextOwn => exact ⟨h, hreads, hfar.concat_of_not (by intro _ _ hcall; cases hcall)⟩
  | skipOwnTo counter =>
    exact ⟨h, hreads, hfar.concat_of_not (by intro _ _ hcall; cases hcall)⟩
  | messageKey other id counter =>
    by_cases hslot : (device, s.chainId) = (other, id)
    · obtain ⟨rfl, rfl⟩ := Prod.mk.inj hslot
      by_cases hbefore : counter.toNat < s.counter.toNat
      · obtain ⟨hkey, hreads'⟩ := hreads.messageKey_of_lt hbefore
        exact ⟨h, hreads', hfar.concat_of_unfound (by simp [hkey])⟩
      obtain ⟨d, hd⟩ := Nat.exists_eq_add_of_le (Nat.not_lt.1 hbefore)
      by_cases hnear : d ≤ h + ((ofChain ownDevice own maxSkipped).afterAll calls).maxSkipped
      · obtain ⟨hkey, hreads'⟩ := hreads.messageKey_of_le hnear hd
        have hfar' := hfar.concat_messageKey hstart hkey
        rw [hd, Nat.add_max_add_left] at hfar'
        exact ⟨max h d, hreads', hfar'⟩
      · obtain ⟨hkey, hreads'⟩ := hreads.messageKey_of_far (Nat.not_le.1 hnear) hd
        exact ⟨h, hreads', hfar.concat_of_unfound (by simp [hkey])⟩
    · refine ⟨h, hreads.messageKey_of_ne hslot, hfar.concat_of_not ?_⟩
      intro _ _ hcall
      injection hcall with hdevice hid _
      exact absurd (by rw [hdevice, hid]) hslot

/-- What giving a state of a chain makes of reading it: if it comes before the others, the chain is
known anew and nothing was derived since, and otherwise the keys stay as they are. -/
theorem reads_after_register
    (before : ∀ first, start? ownDevice own calls device chain.chainId = some first →
      ∃ h, ((ofChain ownDevice own maxSkipped).afterAll calls).Reads device first h ∧
        Furthest ownDevice own maxSkipped calls device first (first.counter.toNat + h))
    (hstart : earlier (start? ownDevice own calls device chain.chainId) chain = s) :
    ∃ h, (((ofChain ownDevice own maxSkipped).afterAll calls).register device chain).2.Reads
        device s h ∧
      Furthest ownDevice own maxSkipped (calls ++ [.register device chain]) device s
        (s.counter.toNat + h) := by
  have hfirst := first?_afterAll ownDevice own maxSkipped calls device chain.chainId
  by_cases hless : ∀ first, start? ownDevice own calls device chain.chainId = some first →
      chain.counter < first.counter
  · have hchain : earlier (start? ownDevice own calls device chain.chainId) chain = chain := by
      cases hold : start? ownDevice own calls device chain.chainId with
      | none => rfl
      | some first => exact if_pos (hless first hold)
    obtain rfl : chain = s := hchain.symm.trans hstart
    refine ⟨0, reads_register_of_earlier ?_, furthest_of_new (not_mem_given_of_lt hless)⟩
    intro first hold
    exact hless first (hfirst.symm.trans hold)
  · push Not at hless
    obtain ⟨first, hold, hle⟩ := hless
    rw [hold, earlier, if_neg hle] at hstart
    obtain ⟨h, hreads, hfar⟩ := before first hold
    rw [hold] at hfirst
    rw [register_of_known hfirst hle, ← hstart]
    exact ⟨h, hreads, hfar.concat_of_not (by intro _ _ hcall; cases hcall)⟩

/-- The keys hold a chain from the least state on that was given for it, and so far they have gone
as far as the furthest position that was derived since. -/
theorem reads_afterAll (hstart : start? ownDevice own calls device chainId = some s) :
    ∃ h, ((ofChain ownDevice own maxSkipped).afterAll calls).Reads device s h ∧
      Furthest ownDevice own maxSkipped calls device s (s.counter.toNat + h) := by
  induction calls using List.reverseRecOn generalizing s with
  | nil =>
    obtain ⟨call, hcall, hgiven⟩ := List.mem_filterMap.1 (mem_given_of_start? hstart)
    obtain ⟨rfl, -⟩ := Call.given?_eq_some_iff.1 hgiven
    obtain ⟨rfl, rfl⟩ := Call.register.inj (List.mem_singleton.1 hcall)
    refine ⟨0, reads_ofChain device s maxSkipped, Or.inl rfl, Nat.le_refl _, ?_⟩
    rintro n ⟨before, rest, counter, key, hcalls, -⟩
    simp at hcalls
  | append_singleton calls call ih =>
    rw [afterAll_concat]
    cases hgiven : call.given? device chainId with
    | none =>
      rw [start?_concat_of_none hgiven] at hstart
      obtain ⟨h, hreads, hfar⟩ := ih hstart
      obtain rfl := chainId_of_start? hstart
      exact reads_after_of_none hgiven hstart hreads hfar
    | some chain =>
      rw [start?_concat_of_given hgiven, Option.some.injEq] at hstart
      obtain ⟨rfl, rfl⟩ := Call.given?_eq_some_iff.1 hgiven
      exact reads_after_register (fun first hold => ih hold) hstart

/-- Whatever was asked of the keys of a device, a look-up agrees with plain derivation from the
least state that was given for the chain.  Positions before that state and chains of which no state
was given have no key, and every other position has the message key that is derived as many steps
after the state's key, unless it is too far past the furthest position that was derived since.  A
look-up that finds no key leaves the keys as they are. -/
theorem messageKey_afterAll (ownDevice : PublicKey) (own : ChainKey) (maxSkipped : Nat)
    (calls : List Call) (device : PublicKey) (chainId counter : UInt64) :
    let k := (ofChain ownDevice own maxSkipped).afterAll calls
    match start? ownDevice own calls device chainId with
    | none => k.messageKey device chainId counter = (.ok none, k)
    | some s =>
      (counter.toNat < s.counter.toNat → k.messageKey device chainId counter = (.ok none, k)) ∧
        ∃ far, Furthest ownDevice own maxSkipped calls device s far ∧
          ∀ d, counter.toNat = s.counter.toNat + d →
            (counter.toNat ≤ far + maxSkipped →
              (k.messageKey device chainId counter).1 = .ok (some (messageKeyAfter s.key d))) ∧
            (far + maxSkipped < counter.toNat → k.messageKey device chainId counter =
              (.error (.counterAhead counter.toNat (counter.toNat - far)), k)) := by
  intro k
  have hfirst : k.first? device chainId = start? ownDevice own calls device chainId :=
    first?_afterAll ownDevice own maxSkipped calls device chainId
  have hmax : k.maxSkipped = maxSkipped :=
    maxSkipped_afterAll _ calls
  have unchanged := k.messageKey_unchanged device chainId counter
  cases hstart : start? ownDevice own calls device chainId with
  | none =>
    rw [hstart, first?, Option.map_eq_none_iff] at hfirst
    show k.messageKey device chainId counter = (.ok none, k)
    rw [messageKey, hfirst]
  | some s =>
    obtain rfl := chainId_of_start? hstart
    obtain ⟨h, hreads, hfar⟩ : ∃ h, k.Reads device s h ∧
        Furthest ownDevice own maxSkipped calls device s (s.counter.toNat + h) :=
      reads_afterAll hstart
    refine ⟨fun hbefore => ?_, s.counter.toNat + h, hfar, fun d hd =>
      ⟨fun hnear => ?_, fun hpast => ?_⟩⟩
    · have hkey := (hreads.messageKey_of_lt hbefore).1
      exact Prod.ext hkey (unchanged (by simp [k, hkey]))
    · rw [← s.messageKey_advance]
      exact (hreads.messageKey_of_le (by rw [hmax]; omega) hd).1
    · have hkey := (hreads.messageKey_of_far (by omega) hd).1
      have hdistance : d - h = counter.toNat - (s.counter.toNat + h) := by omega
      rw [hdistance] at hkey
      exact Prod.ext hkey (unchanged (by simp [k, hkey]))

end ChainKeys

end SecureGroup
