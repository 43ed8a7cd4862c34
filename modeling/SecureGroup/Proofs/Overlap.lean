import Mathlib.Data.List.Pairwise
import SecureGroup.Log.Traffic
import SecureGroup.Proofs.Delivery

/-!
# Appends that overlap

Appends through one binding can be under way at the same time, and the store may take any time to
acknowledge them (`Log.Traffic`), so what holds here holds for all delays.

The octets of an append start with its number, so no two of them are the same even when the payloads
and the nonces are (`Log.Binding.clock_eq_of_sealWith_eq`).  Hence no append is taken for another
one by a log that knows its entries by their hashes: `Log.Traffic.Runs.none_lost` says what the
answers mean in the end.
-/

namespace SecureGroup

variable [Suite]

/-! ## Numbers in envelopes -/

theorem Envelope.clock_eq_of_encode_eq {e e' : Envelope} (h : codec.encode e = codec.encode e') :
    e.clock = e'.clock := by
  have htail : ∀ e : Envelope, ∃ rest, codec.encode e =
      [e.version] ++ (e.sender.bytes.toList ++ (Wire.Varint.encode e.clock.toNat ++ rest)) :=
    fun e => ⟨_, rfl⟩
  obtain ⟨rest, hrest⟩ := htail e
  obtain ⟨rest', hrest'⟩ := htail e'
  rw [hrest, hrest'] at h
  have hsender := (List.append_inj h rfl).2
  have hclock := (List.append_inj hsender (by rw [Octets.length_toList, Octets.length_toList])).2
  have hread := Wire.Varint.decode_encode 64 e.clock.toNat e.clock.toNat_lt rest
  rw [hclock, Wire.Varint.decode_encode 64 e'.clock.toNat e'.clock.toNat_lt] at hread
  exact UInt64.toNat_inj.1 (congrArg Prod.fst (Except.ok.inj hread)).symm

namespace Log

namespace Binding

variable {b b' : Binding} {device device' : PrivateKey} {payload payload' : Bytes}
  {nonce nonce' : Octets 12}

/-- What was sealed under different numbers is never the same. -/
theorem clock_eq_of_sealWith_eq
    (h : (b.sealWith device payload nonce).1 = (b'.sealWith device' payload' nonce').1) :
    b.clock = b'.clock :=
  Envelope.clock_eq_of_encode_eq h

/-- The binding after so many payloads were sealed. -/
def sealedTimes (b : Binding) (n : Nat) : Binding := { b with clock := b.clock + .ofNat n }

omit [Suite] in
theorem sealedTimes_clock_ne {i n : Nat} (b : Binding) (hi : i < n) (hn : n < UInt64.size) :
    (b.sealedTimes i).clock ≠ (b.sealedTimes n).clock := by
  intro h
  have hsame := congrArg UInt64.toNat ((UInt64.add_right_inj _).1 h)
  rw [UInt64.toNat_ofNat_of_lt' (Nat.lt_trans hi hn), UInt64.toNat_ofNat_of_lt' hn] at hsame
  omega

omit [Suite] in
theorem clock_sealedTimes_add_one (b : Binding) (n : Nat) :
    (b.sealedTimes n).clock + 1 = (b.sealedTimes (n + 1)).clock := by
  show b.clock + .ofNat n + 1 = b.clock + .ofNat (n + 1)
  rw [UInt64.ofNat_add, ← UInt64.add_assoc]
  rfl

/-- Octets depend on the reader and the number of a binding alone. -/
theorem sealWith_congr (reader : b.toReader = b'.toReader) (clock : b.clock = b'.clock) :
    (b.sealWith device payload nonce).1 = (b'.sealWith device payload nonce).1 := by
  unfold sealWith
  rw [reader, clock]

end Binding

/-! ## Appends under way -/

omit [Suite] in
theorem Call.result_eq_of_ref? {c : Call} {ref : Ref} (h : c.ref? = some ref) :
    c.result = some (.ok ref) := by
  unfold ref? at h
  split at h
  · next result hresult => rw [hresult, Option.some.inj h]
  · cases h

/-- What holds of an append at any moment, when a binding has sealed so many payloads and the log
holds some entries: its octets have one of the numbers, if it was acknowledged, the log knows them,
and if it was refused, nothing was sealed. -/
structure Call.Sane (first : Binding) (n : Nat) (entries : List Entry) (c : Call) : Prop where
  numbered : ∀ octets, c.octets = some octets → ∃ i < n, ∃ nonce,
    octets = ((first.sealedTimes i).sealWith c.device c.payload nonce).1
  found : ∀ ref, c.result = some (.ok ref) → ∃ octets, c.octets = some octets ∧
    ref.hash = .of octets ∧ ∃ e ∈ entries, e.ref = ref
  failed : ∀ cause, c.result = some (.error cause) →
    cause = .closed ∧ c.octets = none ∨ cause = .timeout first.timeout

theorem Call.Sane.mono {first : Binding} {n m : Nat} {entries more : List Entry} {c : Call}
    (h : c.Sane first n entries) (le : n ≤ m) (sub : ∀ e ∈ entries, e ∈ more) :
    c.Sane first m more where
  numbered octets hoctets := by
    obtain ⟨i, hi, hsealed⟩ := h.numbered octets hoctets
    exact ⟨i, Nat.lt_of_lt_of_le hi le, hsealed⟩
  found ref hresult := by
    obtain ⟨octets, hoctets, hhash, e, he, href⟩ := h.found ref hresult
    exact ⟨octets, hoctets, hhash, e, sub e he, href⟩
  failed := h.failed

theorem Call.Sane.started {first : Binding} {n : Nat} {entries : List Entry}
    (device : PrivateKey) (payload : Bytes) :
    Call.Sane first n entries ⟨device, payload, none, none⟩ where
  numbered _ hoctets := by cases hoctets
  found _ hresult := by cases hresult
  failed _ hresult := by cases hresult

theorem Call.Sane.refused {first : Binding} {n : Nat} {entries : List Entry}
    (device : PrivateKey) (payload : Bytes) :
    Call.Sane first n entries ⟨device, payload, none, some (.error .closed)⟩ where
  numbered _ hoctets := by cases hoctets
  found _ hresult := by cases hresult
  failed _ hresult := by
    cases hresult
    exact Or.inl ⟨rfl, rfl⟩

/-- A log that takes octets keeps its entries, and has at most one more, which the answer names. -/
theorem Store.entries_commit (s : Store) (a : Address) (octets : Bytes) :
    (∀ e ∈ s.entries a, e ∈ (s.commit a octets).2.entries a) ∧
      ∀ e ∈ (s.commit a octets).2.entries a, e ∈ s.entries a ∨
        e.payload = octets ∧ e.ref = (s.commit a octets).1 := by
  rcases s.commit_cases a octets with ⟨-, -, -, hsame⟩ | ⟨-, href, hnew⟩
  · rw [hsame]
    exact ⟨fun e he => he, fun e he => Or.inl he⟩
  · rw [hnew]
    refine ⟨fun e he => List.mem_append_left _ he, fun e he => ?_⟩
    rcases List.mem_append.1 he with he | he
    · exact Or.inl he
    · obtain rfl := List.mem_singleton.1 he
      exact Or.inr ⟨rfl, href.symm⟩

namespace Traffic

variable {start t t' : Traffic} {others more : List Bytes} {device : PrivateKey} {payload : Bytes}

/-- An append that nothing else mingles with is such a run. -/
theorem runs_append {b : Binding} {s : Store} {result : Except Error Ref} {n n' : Entropy}
    (h : t.binding.append t.store device payload n = ((result, b, s), n')) :
    ∃ octets, Runs t [] ⟨b, s, t.calls ++ [⟨device, payload, octets, some result⟩]⟩ := by
  unfold Binding.append at h
  split at h
  · next hclosed =>
    cases h
    exact ⟨none, .snoc .refl (.refuses device payload hclosed)⟩
  · next hopen =>
    obtain ⟨nonce, hnonce⟩ : ∃ nonce, nonce = (Draw.octets 12 n).1 := ⟨_, rfl⟩
    have hstarts : Runs t [] _ := .snoc .refl (.starts device payload (by simpa using hopen))
    have hsealed : Runs t [] _ := .snoc hstarts (.seals t.calls [] nonce)
    obtain ⟨octets, hoctets⟩ : ∃ octets, octets = (t.binding.sealWith device payload nonce).1 :=
      ⟨_, rfl⟩
    obtain ⟨next, hnext⟩ : ∃ next, next = (t.binding.sealWith device payload nonce).2 := ⟨_, rfl⟩
    have hreader : next.address = t.binding.address := by rw [hnext]; rfl
    have hsubmit : ((next.submit t.store octets).1, next, (next.submit t.store octets).2) =
        (result, b, s) := by
      rw [hnext, hoctets, hnonce]
      exact congrArg Prod.fst h
    rw [← hoctets, ← hnext] at hsealed
    refine ⟨some octets, ?_⟩
    unfold Binding.submit at hsubmit
    split at hsubmit
    · cases hsubmit
      exact .snoc hsealed (.acknowledges t.calls [])
    · cases hsubmit
      exact .snoc hsealed (.lapses t.calls [])

/-! ## What every step keeps -/

omit [Suite] in
theorem mem_of_mem_next {before after : List Call} {c next : Call} (waiting : Call)
    (h : c ∈ before ++ next :: after) : c = next ∨ c ∈ before ++ waiting :: after := by
  simp only [List.mem_append, List.mem_cons] at h ⊢
  tauto

omit [Suite] in
/-- An append that moves on leaves the others where they are. -/
theorem getElem?_next {before after : List Call} {c waiting next : Call} {i : Nat}
    (h : (before ++ waiting :: after)[i]? = some c) (ne : c ≠ waiting) :
    (before ++ next :: after)[i]? = some c := by
  rw [List.getElem?_append] at h ⊢
  split at h
  · next hlt => rwa [if_pos hlt]
  · next hge =>
    rw [if_neg hge]
    rw [List.getElem?_cons] at h ⊢
    split at h
    · exact absurd (Option.some.inj h).symm ne
    · next hpos => rwa [if_neg hpos]

/-- An answer is final. -/
theorem Step.keeps_answer (h : Step t more t') {c : Call} {i : Nat} (hc : t.calls[i]? = some c)
    (done : c.result ≠ none) : t'.calls[i]? = some c := by
  have hlast : ∀ last : Call, (t.calls ++ [last])[i]? = some c := fun last =>
    (List.getElem?_append_left (List.getElem?_eq_some_iff.1 hc).1).trans hc
  have hmiddle : ∀ waiting : Call, waiting.result = none → c ≠ waiting :=
    fun waiting hnone heq => done (heq ▸ hnone)
  cases h with
  | starts device payload isOpen => exact hlast _
  | refuses device payload closed => exact hlast _
  | seals before after nonce => exact getElem?_next hc (hmiddle _ rfl)
  | acknowledges before after => exact getElem?_next hc (hmiddle _ rfl)
  | lapses before after => exact getElem?_next hc (hmiddle _ rfl)
  | closes => exact hc
  | added octets => exact hc
  | aside entries => exact hc

theorem Step.mem_of_answered (h : Step t more t') {c : Call} (hc : c ∈ t.calls)
    (done : c.result ≠ none) : c ∈ t'.calls := by
  obtain ⟨i, hi⟩ := List.mem_iff_getElem?.1 hc
  exact List.mem_iff_getElem?.2 ⟨i, h.keeps_answer hi done⟩

/-- Appends are started, and none is forgotten. -/
theorem Step.length_calls_le (h : Step t more t') : t.calls.length ≤ t'.calls.length := by
  cases h <;> simp

/-- What is sealed comes to what was sealed before. -/
theorem perm_octets_seals (binding : Binding) (store : Store) (device : PrivateKey)
    (payload : Bytes) (before after : List Call) (nonce : Octets 12) :
    (octets ⟨(binding.sealWith device payload nonce).2, store, before ++
        ⟨device, payload, some (binding.sealWith device payload nonce).1, none⟩ :: after⟩).Perm
      ((binding.sealWith device payload nonce).1 ::
        octets ⟨binding, store, before ++ ⟨device, payload, none, none⟩ :: after⟩) := by
  unfold octets
  rw [List.filterMap_append, List.filterMap_append]
  exact List.perm_middle

/-- The numbers go on, no octets were sealed twice, and the log has grown by entries of others and
of appends that were acknowledged. -/
structure Kept (start : Traffic) (others : List Bytes) (t : Traffic) : Prop where
  reader : t.binding.toReader = start.binding.toReader
  timeout : t.binding.timeout = start.binding.timeout
  clock : t.binding.clock = (start.binding.sealedTimes t.octets.length).clock
  nodup : t.octets.Nodup
  sane : ∀ c ∈ t.calls, c.Sane start.binding t.octets.length t.entries
  origin : ∀ e ∈ t.entries, e ∈ start.entries ∨ e.payload ∈ others ∨
    ∃ c ∈ t.calls, c.octets = some e.payload ∧ c.result = some (.ok e.ref)

namespace Kept

theorem refl (idle : start.calls = []) : Kept start [] start := by
  have hoctets : start.octets = [] := by rw [octets, idle]; rfl
  refine ⟨rfl, rfl, ?_, ?_, ?_, fun e he => Or.inl he⟩
  · rw [hoctets]
    exact (UInt64.add_zero _).symm
  · rw [hoctets]
    exact List.nodup_nil
  · rw [idle]
    exact fun c hc => by cases hc

/-- An entry that was accounted for stays so, as answers are final. -/
theorem origin_mono (hk : Kept start others t) {calls : List Call}
    (answered : ∀ c ∈ t.calls, c.result ≠ none → c ∈ calls) {e : Entry} (he : e ∈ t.entries) :
    e ∈ start.entries ∨ e.payload ∈ others ∨
      ∃ c ∈ calls, c.octets = some e.payload ∧ c.result = some (.ok e.ref) := by
  rcases hk.origin e he with hstart | hothers | ⟨c, hc, hsealed, hresult⟩
  · exact Or.inl hstart
  · exact Or.inr (Or.inl hothers)
  · have hstays := answered c hc (by rw [hresult]; exact Option.some_ne_none _)
    exact Or.inr (Or.inr ⟨c, hstays, hsealed, hresult⟩)

/-- A step that seals nothing. -/
theorem unsealed (hk : Kept start others t) {calls : List Call} {store : Store}
    (same : calls.filterMap (·.octets) = t.octets)
    (grown : ∀ e ∈ t.entries, e ∈ store.entries t.binding.address)
    (origin : ∀ e ∈ store.entries t.binding.address, e ∈ t.entries ∨ e.payload ∈ more ∨
      ∃ c ∈ calls, c.octets = some e.payload ∧ c.result = some (.ok e.ref))
    (sane : ∀ c ∈ calls, c ∈ t.calls ∨
      c.Sane start.binding t.octets.length (store.entries t.binding.address))
    (answered : ∀ c ∈ t.calls, c.result ≠ none → c ∈ calls) :
    Kept start (others ++ more) ⟨t.binding, store, calls⟩ := by
  have hoctets : Traffic.octets ⟨t.binding, store, calls⟩ = t.octets := same
  refine ⟨hk.reader, hk.timeout, ?_, ?_, fun c hc => ?_, fun e he => ?_⟩
  · rw [hoctets]
    exact hk.clock
  · rw [hoctets]
    exact hk.nodup
  · rw [hoctets]
    rcases sane c hc with hold | hnew
    · exact (hk.sane c hold).mono (Nat.le_refl _) grown
    · exact hnew
  · rcases origin e he with hold | hmore | hcall
    · exact (hk.origin_mono answered hold).imp_right
        (Or.imp_left fun hothers => List.mem_append_left _ hothers)
    · exact Or.inr (Or.inl (List.mem_append_right _ hmore))
    · exact Or.inr (Or.inr hcall)

theorem called (hk : Kept start others t) {c : Call} (unsealed : c.octets = none)
    (sane : c.Sane start.binding t.octets.length t.entries) :
    Kept start (others ++ []) ⟨t.binding, t.store, t.calls ++ [c]⟩ := by
  refine hk.unsealed ?_ (fun e he => he) (fun e he => Or.inl he) (fun d hd => ?_)
    (fun d hd _ => List.mem_append_left _ hd)
  · rw [List.filterMap_append, List.filterMap_cons_none unsealed, List.filterMap_nil,
      List.append_nil]
    rfl
  · rcases List.mem_append.1 hd with hd | hd
    · exact Or.inl hd
    · obtain rfl := List.mem_singleton.1 hd
      exact Or.inr sane

/-- What is sealed next has a number of its own. -/
theorem sealWith_not_mem (hk : Kept start others t) (device : PrivateKey) (payload : Bytes)
    (nonce : Octets 12) (room : t.octets.length < UInt64.size) :
    (t.binding.sealWith device payload nonce).1 ∉ t.octets := by
  intro hmem
  obtain ⟨c, hc, hoctets⟩ := List.mem_filterMap.1 hmem
  obtain ⟨i, hi, nonce', hsame⟩ := (hk.sane c hc).numbered _ hoctets
  exact Binding.sealedTimes_clock_ne _ hi room
    ((Binding.clock_eq_of_sealWith_eq hsame).symm.trans hk.clock)

theorem sealed {binding : Binding} {store : Store} {before after : List Call}
    (hk : Kept start others ⟨binding, store, before ++ ⟨device, payload, none, none⟩ :: after⟩)
    (nonce : Octets 12) (room : (octets ⟨binding, store,
      before ++ ⟨device, payload, none, none⟩ :: after⟩).length < UInt64.size) :
    Kept start others ⟨(binding.sealWith device payload nonce).2, store, before ++
      ⟨device, payload, some (binding.sealWith device payload nonce).1, none⟩ :: after⟩ := by
  have hfresh := hk.sealWith_not_mem device payload nonce room
  have hperm := perm_octets_seals binding store device payload before after nonce
  have hlength := hperm.length_eq
  rw [List.length_cons] at hlength
  refine ⟨hk.reader, hk.timeout, ?_, ?_, fun c hc => ?_, fun e he => ?_⟩
  · rw [hlength, ← Binding.clock_sealedTimes_add_one, ← hk.clock]
    rfl
  · exact hperm.nodup_iff.2 (List.nodup_cons.2 ⟨hfresh, hk.nodup⟩)
  · rw [hlength]
    rcases mem_of_mem_next ⟨device, payload, none, none⟩ hc with rfl | hc
    · constructor
      case numbered =>
        intro octets hoctets
        cases hoctets
        exact ⟨_, Nat.lt_succ_self _, nonce, Binding.sealWith_congr hk.reader hk.clock⟩
      case found => intro ref hresult; cases hresult
      case failed => intro cause hresult; cases hresult
    · exact (hk.sane c hc).mono (Nat.le_succ _) fun e he => he
  · have hstep : Step ⟨binding, store, before ++ ⟨device, payload, none, none⟩ :: after⟩ [] _ :=
      .seals before after nonce
    exact hk.origin_mono (fun c hc => hstep.mem_of_answered hc) he

theorem step (hk : Kept start others t) (h : Step t more t')
    (room : t.octets.length < UInt64.size) : Kept start (others ++ more) t' := by
  have hstays : ∀ c ∈ t.calls, c.result ≠ none → c ∈ t'.calls := fun c hc => h.mem_of_answered hc
  cases h with
  | starts device payload isOpen => exact hk.called rfl (.started device payload)
  | refuses device payload closed => exact hk.called rfl (.refused device payload)
  | seals before after nonce =>
    rw [List.append_nil]
    exact hk.sealed nonce room
  | @acknowledges binding store device payload octets before after =>
    have hwaits := hk.sane ⟨device, payload, some octets, none⟩
      (List.mem_append_right _ List.mem_cons_self)
    obtain ⟨hgrown, hmore⟩ := store.entries_commit binding.address octets
    refine hk.unsealed ?_ hgrown (fun e he => ?_) (fun c hc => ?_) hstays
    · simp only [Traffic.octets, List.filterMap_append, List.filterMap_cons]
    · rcases hmore e he with hold | ⟨rfl, href⟩
      · exact Or.inl hold
      · exact Or.inr (Or.inr ⟨_, List.mem_append_right _ List.mem_cons_self, rfl,
          congrArg (fun ref => some (Except.ok ref)) href.symm⟩)
    · rcases mem_of_mem_next ⟨device, payload, some octets, none⟩ hc with rfl | hc
      · refine Or.inr ⟨hwaits.numbered, ?_, ?_⟩
        · intro ref hresult
          cases hresult
          exact ⟨octets, rfl, Feed.hash_commit _ _, store.exists_ref_commit _ _⟩
        · intro cause hresult
          cases hresult
      · exact Or.inl hc
  | @lapses binding store device payload octets before after =>
    have hwaits := hk.sane ⟨device, payload, some octets, none⟩
      (List.mem_append_right _ List.mem_cons_self)
    refine hk.unsealed ?_ (fun e he => he) (fun e he => Or.inl he) (fun c hc => ?_) hstays
    · simp only [Traffic.octets, List.filterMap_append, List.filterMap_cons]
    · rcases mem_of_mem_next ⟨device, payload, some octets, none⟩ hc with rfl | hc
      · refine Or.inr ⟨hwaits.numbered, ?_, ?_⟩
        · intro ref hresult
          cases hresult
        · intro cause hresult
          cases hresult
          exact Or.inr (congrArg Error.timeout hk.timeout)
      · exact Or.inl hc
  | closes =>
    rw [List.append_nil]
    exact ⟨hk.reader, hk.timeout, hk.clock, hk.nodup, hk.sane, hk.origin⟩
  | added octets =>
    obtain ⟨hgrown, hmore⟩ := t.store.entries_commit t.binding.address octets
    refine hk.unsealed rfl hgrown (fun e he => ?_) (fun c hc => Or.inl hc) hstays
    rcases hmore e he with hold | ⟨rfl, -⟩
    · exact Or.inl hold
    · exact Or.inr (Or.inl List.mem_cons_self)
  | aside entries =>
    exact hk.unsealed rfl (fun e he => entries ▸ he) (fun e he => Or.inl (entries ▸ he))
      (fun c hc => Or.inl hc) hstays

end Kept

/-- The appends from some place on found the binding closed, and it still is. -/
structure Refuses (n : Nat) (t : Traffic) : Prop where
  closed : t.binding.closed = true
  refused : ∀ c ∈ t.calls.drop n, c.result = some (.error .closed)

theorem Refuses.step {n : Nat} (hn : Refuses n t) (h : Step t more t') : Refuses n t' := by
  obtain ⟨closed, refused⟩ := hn
  -- an append that was refused does not move on
  have hmiddle : ∀ {before after : List Call} {waiting : Call} (next : Call),
      waiting.result = none →
      (∀ c ∈ (before ++ waiting :: after).drop n, c.result = some (.error .closed)) →
      ∀ c ∈ (before ++ next :: after).drop n, c.result = some (.error .closed) := by
    intro before after waiting next hnone hall c hc
    rw [List.drop_append] at hall hc
    cases hplace : n - before.length with
    | zero =>
      have hwaiting := hall waiting
      rw [hplace] at hwaiting
      cases hnone.symm.trans (hwaiting (List.mem_append_right _ List.mem_cons_self))
    | succ k =>
      rw [hplace] at hall hc
      exact hall c hc
  cases h with
  | starts device payload isOpen => cases closed.symm.trans isOpen
  | refuses device payload closed' =>
    refine ⟨closed, fun c hc => ?_⟩
    rw [List.drop_append] at hc
    rcases List.mem_append.1 hc with hold | hnew
    · exact refused c hold
    · rw [List.mem_singleton.1 (List.mem_of_mem_drop hnew)]
  | seals before after nonce => exact ⟨closed, hmiddle _ rfl refused⟩
  | acknowledges before after => exact ⟨closed, hmiddle _ rfl refused⟩
  | lapses before after => exact ⟨closed, hmiddle _ rfl refused⟩
  | closes => exact ⟨rfl, refused⟩
  | added octets => exact ⟨closed, refused⟩
  | aside entries => exact ⟨closed, refused⟩

/-! ## What holds of the answers -/

omit [Suite] in
/-- Appends with the same octets are the same append. -/
theorem eq_of_octets (nodup : t.octets.Nodup) {c c' : Call} {bytes : Bytes} (hc : c ∈ t.calls)
    (hc' : c' ∈ t.calls) (h : c.octets = some bytes) (h' : c'.octets = some bytes) : c = c' := by
  have hsymm : Std.Symm fun a b : Call =>
      ∀ x, a.octets = some x → ∀ y, b.octets = some y → x ≠ y :=
    ⟨fun a b hab x hx y hy => (hab y hy x hx).symm⟩
  by_contra hne
  exact (List.pairwise_filterMap.1 nodup).forall hc hc' hne bytes h bytes h' rfl

namespace Kept

theorem nodup_refs (hk : Kept start others t)
    (apart : ∀ octets ∈ t.octets, ∀ octets' ∈ t.octets,
      EntryHash.of octets' = .of octets → octets' = octets) : t.refs.Nodup := by
  have hdistinct := List.pairwise_filterMap.1 hk.nodup
  refine List.pairwise_filterMap.2
    (hdistinct.imp_of_mem fun {c c'} hc hc' hne ref href ref' href' => ?_)
  obtain ⟨bytes, hoctets, hhash, -⟩ := (hk.sane c hc).found ref (Call.result_eq_of_ref? href)
  obtain ⟨bytes', hoctets', hhash', -⟩ := (hk.sane c' hc').found ref' (Call.result_eq_of_ref? href')
  rintro rfl
  exact hne bytes hoctets bytes' hoctets' (apart _ (List.mem_filterMap.2 ⟨c', hc', hoctets'⟩) _
    (List.mem_filterMap.2 ⟨c, hc, hoctets⟩) (hhash.symm.trans hhash'))

theorem exists_read (sig : Suite.SignatureLaw) (enc : Suite.EncryptionLaw)
    (hk : Kept start others t) {c : Call} {ref : Ref} (hc : c ∈ t.calls)
    (ok : c.result = some (.ok ref))
    (fits : ∀ octets ∈ t.octets, octets.length < UInt64.size)
    (apart : ∀ octets ∈ t.octets, ∀ e ∈ t.entries, e.hash = .of octets → e.payload = octets) :
    ∃ e ∈ t.entries, e.ref = ref ∧ ∃ clock, t.binding.toReader.read e =
      .ok ⟨e.hash, e.position, c.device.pub, clock, c.payload⟩ := by
  obtain ⟨bytes, hoctets, hhash, e, he, href⟩ := (hk.sane c hc).found ref ok
  have hmem : bytes ∈ t.octets := List.mem_filterMap.2 ⟨c, hc, hoctets⟩
  have hpayload : e.payload = bytes :=
    apart bytes hmem e he ((congrArg Ref.hash href).trans hhash)
  obtain ⟨i, -, nonce, hsealed⟩ := (hk.sane c hc).numbered bytes hoctets
  refine ⟨e, he, href, (start.binding.sealedTimes i).clock, ?_⟩
  rw [hk.reader]
  exact Binding.read_sealWith (b := start.binding.sealedTimes i) sig enc (hpayload.trans hsealed)
    (hpayload ▸ fits bytes hmem)

/-- An append that failed added nothing. -/
theorem failed (hk : Kept start others t) {c : Call} {cause : Error} (hc : c ∈ t.calls)
    (failure : c.result = some (.error cause)) :
    (cause = .closed ∧ c.octets = none ∨ cause = .timeout start.binding.timeout) ∧
      ∀ e ∈ t.entries, c.octets = some e.payload → e ∈ start.entries ∨ e.payload ∈ others := by
  refine ⟨(hk.sane c hc).failed cause failure, fun e he hoctets => ?_⟩
  rcases hk.origin e he with hstart | hothers | ⟨c', hc', hoctets', hok⟩
  · exact Or.inl hstart
  · exact Or.inr hothers
  · obtain rfl := eq_of_octets hk.nodup hc hc' hoctets hoctets'
    cases failure.symm.trans hok

end Kept

namespace Runs

theorem kept (h : Runs start others t) (idle : start.calls = [])
    (few : t.calls.length < UInt64.size) : Kept start others t := by
  induction h with
  | refl => exact .refl idle
  | snoc before last ih =>
    have hfew := Nat.lt_of_le_of_lt last.length_calls_le few
    exact (ih hfew).step last (Nat.lt_of_le_of_lt (List.length_filterMap_le ..) hfew)

theorem keeps_answer (h : Runs start others t) {c : Call} {i : Nat} (hc : start.calls[i]? = some c)
    (done : c.result ≠ none) : t.calls[i]? = some c := by
  induction h with
  | refl => exact hc
  | snoc before last ih => exact last.keeps_answer ih done

theorem refuses (h : Runs start others t) (closed : start.binding.closed = true) :
    Refuses start.calls.length t := by
  induction h with
  | refl => exact ⟨closed, fun c hc => by rw [List.drop_length] at hc; cases hc⟩
  | snoc before last ih => exact ih.step last

/-- Appends through a binding with nothing under way are started, fewer than a word can count, and
overlap with each other, with closing, and with what others do.  Provided that no two byte strings
that are appended have the same hash, the references that are given differ from each other, and each
of them names an entry that opens to the payload of its append.  An append that fails adds nothing,
now or later: whatever is in the log was there before, comes from others, or comes from an append
that succeeded.  Answers are final, every append that finds the binding closed is refused, and so is
every append that is started after the binding was closed. -/
theorem none_lost (sig : Suite.SignatureLaw) (enc : Suite.EncryptionLaw)
    (h : Runs start others t) (idle : start.calls = []) (few : t.calls.length < UInt64.size)
    (fits : ∀ octets ∈ t.octets, octets.length < UInt64.size)
    (apart : ∀ octets ∈ t.octets,
      (∀ e ∈ t.entries, e.hash = .of octets → e.payload = octets) ∧
        ∀ octets' ∈ t.octets, EntryHash.of octets' = .of octets → octets' = octets) :
    t.refs.Nodup ∧
      (∀ c ∈ t.calls, ∀ ref, c.result = some (.ok ref) →
        ∃ e ∈ t.entries, e.ref = ref ∧ ∃ clock, t.binding.toReader.read e =
          .ok ⟨e.hash, e.position, c.device.pub, clock, c.payload⟩) ∧
      (∀ c ∈ t.calls, ∀ cause, c.result = some (.error cause) →
        (cause = .closed ∧ c.octets = none ∨ cause = .timeout start.binding.timeout) ∧
          ∀ e ∈ t.entries, c.octets = some e.payload → e ∈ start.entries ∨ e.payload ∈ others) ∧
      (∀ e ∈ t.entries, e ∈ start.entries ∨ e.payload ∈ others ∨
        ∃ c ∈ t.calls, c.octets = some e.payload ∧ c.result = some (.ok e.ref)) ∧
      (∀ mid more, Runs mid more t →
        (∀ (i : Nat) (c : Call), mid.calls[i]? = some c → c.result ≠ none →
          t.calls[i]? = some c) ∧
        (mid.binding.closed = true →
          ∀ c ∈ t.calls.drop mid.calls.length, c.result = some (.error .closed))) ∧
      ∀ (mid : Traffic) (more : List Bytes),
        Runs { mid with binding := mid.binding.close } more t →
          ∀ c ∈ t.calls.drop mid.calls.length, c.result = some (.error .closed) := by
  have hk := h.kept idle few
  refine ⟨?distinct, ?opens, ?fails, hk.origin, fun mid more hlater => ⟨?final, ?refused⟩,
    fun mid more hlater => ?closed⟩
  case distinct => exact hk.nodup_refs fun octets ho => (apart octets ho).2
  case opens =>
    intro c hc ref ok
    exact hk.exists_read sig enc hc ok fits fun octets ho => (apart octets ho).1
  case fails =>
    intro c hc cause failure
    exact hk.failed hc failure
  case final =>
    intro i c hc done
    exact hlater.keeps_answer hc done
  case refused =>
    intro closed
    exact (hlater.refuses closed).refused
  case closed => exact (hlater.refuses rfl).refused

end Runs

end Traffic

end Log

end SecureGroup

/-! ## A busy binding -/

namespace SecureGroup.Log.Traffic

attribute [local instance] Suite.plain

open Plain

/-- Two appends of the same payload by one device overlap and happen to draw the same nonce, while
others add octets: the second one is acknowledged and the first one is given up.  A third append is
under way when the binding is closed and is acknowledged after that, and a fourth one, which is
started after that, is refused. -/
theorem none_lost_busy :
    let start : Traffic := ⟨.of group .messages 5, .empty, []⟩
    let nonce : Octets 12 := .fit 12 []
    let sealing (n : Nat) (payload : Bytes) : Bytes :=
      ((start.binding.sealedTimes n).sealWith (key 2) payload nonce).1
    ∃ t, Runs start [[7]] t ∧
      t.calls.map (·.octets) =
        [some (sealing 0 [1]), some (sealing 1 [1]), some (sealing 2 [2]), none] ∧
      t.calls.map (·.result) = [some (.error (.timeout 5)),
        some (.ok ⟨.of (sealing 1 [1]), 1⟩), some (.ok ⟨.of (sealing 2 [2]), 2⟩),
        some (.error .closed)] ∧
      t.entries.map (·.payload) = [[7], sealing 1 [1], sealing 2 [2]] ∧ t.refs.length = 2 ∧
      t.refs.Nodup := by
  intro start nonce sealing
  let waits (payload : Bytes) : Call := ⟨key 2, payload, none, none⟩
  let call (n : Nat) (payload : Bytes) (result : Option (Except Error Ref)) : Call :=
    ⟨key 2, payload, some (sealing n payload), result⟩
  have hstarted : Runs start [] ⟨start.binding, .empty, [waits [1], waits [1]]⟩ :=
    .snoc (.snoc .refl (.starts (key 2) [1] rfl)) (.starts (key 2) [1] rfl)
  have hfirst : Runs start [] ⟨start.binding.sealedTimes 1, .empty,
      [call 0 [1] none, waits [1]]⟩ :=
    .snoc hstarted (.seals [] [_] nonce)
  have hsealed : Runs start [] ⟨start.binding.sealedTimes 2, .empty,
      [call 0 [1] none, call 1 [1] none]⟩ :=
    .snoc hfirst (.seals [_] [] nonce)
  obtain ⟨foreign, hforeign⟩ : ∃ s, s = (Store.empty.commit start.binding.address [7]).2 := ⟨_, rfl⟩
  have hadded : Runs start [[7]] ⟨start.binding.sealedTimes 2, foreign,
      [call 0 [1] none, call 1 [1] none]⟩ := hforeign ▸ .snoc hsealed (.added [7])
  obtain ⟨own, hown⟩ : ∃ r, r = foreign.commit start.binding.address (sealing 1 [1]) := ⟨_, rfl⟩
  have hacked : Runs start [[7]] ⟨start.binding.sealedTimes 2, own.2,
      [call 0 [1] none, call 1 [1] (some (.ok own.1))]⟩ :=
    hown ▸ .snoc hadded (.acknowledges [_] [])
  have hlapsed : Runs start [[7]] ⟨start.binding.sealedTimes 2, own.2,
      [call 0 [1] (some (.error (.timeout 5))), call 1 [1] (some (.ok own.1))]⟩ :=
    .snoc hacked (.lapses [] [_])
  have hthird : Runs start [[7]] ⟨start.binding.sealedTimes 3, own.2,
      [call 0 [1] (some (.error (.timeout 5))), call 1 [1] (some (.ok own.1)),
        call 2 [2] none]⟩ :=
    .snoc (.snoc hlapsed (.starts (key 2) [2] rfl)) (.seals [_, _] [] nonce)
  have hclosed : Runs start [[7]] ⟨(start.binding.sealedTimes 3).close, own.2,
      [call 0 [1] (some (.error (.timeout 5))), call 1 [1] (some (.ok own.1)),
        call 2 [2] none, ⟨key 2, [1], none, some (.error .closed)⟩]⟩ :=
    .snoc (.snoc hthird .closes) (.refuses (key 2) [1] rfl)
  obtain ⟨last, hlast⟩ : ∃ r, r = own.2.commit start.binding.address (sealing 2 [2]) := ⟨_, rfl⟩
  have hend : Runs start [[7]] ⟨(start.binding.sealedTimes 3).close, last.2,
      [call 0 [1] (some (.error (.timeout 5))), call 1 [1] (some (.ok own.1)),
        call 2 [2] (some (.ok last.1)), ⟨key 2, [1], none, some (.error .closed)⟩]⟩ :=
    hlast ▸ .snoc hclosed (.acknowledges [_, _] [_])
  subst hlast hown hforeign
  refine ⟨_, hend, rfl, by decide +kernel, by decide +kernel, rfl, ?_⟩
  exact (hend.none_lost Suite.plain_signatureLaw Suite.plain_encryptionLaw rfl (by decide +kernel)
    (by decide +kernel) (by decide +kernel)).1

end SecureGroup.Log.Traffic
