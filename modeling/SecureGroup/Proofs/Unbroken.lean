import SecureGroup.Proofs.Custody

/-!
# Unbroken custody

Custody over a list of entries is unbroken (`Custody.Unbroken`) when every entry is linked to the
one before it, is signed, and names a signer who was current there.  The check goes through the
entries once, with the keys that are current so far, and stops at the first one that breaks
(`Custody.check_eq_error_iff`).  So it accepts exactly the unbroken lists, and where it fails
everything before the entry that it blames is accepted, and nothing that goes on with that entry
(`Custody.accepts_unbroken`).
-/

namespace SecureGroup.Custody

variable [Suite] {c : Custody} {es : List Entry} {e : Entry} {cause : Error}

/-! ## Entry by entry -/

/-- Custody over some entries is unbroken. -/
structure Unbroken (es : List Entry) : Prop where
  ne_nil : es ≠ []
  /-- The first entry starts the chain, for the key that signs it. -/
  first : ∀ e, es[0]? = some e → e.action = .start ∧ e.parent = none ∧ e.subject = e.signer
  /-- No later entry starts it again, and each is linked to the one before. -/
  later : ∀ i d e, es[i]? = some d → es[i + 1]? = some e →
    e.action ≠ .start ∧ e.parent = some d.hash
  /-- Every signer is a key, and signed its entry. -/
  signed : ∀ e ∈ es, ∃ key, PublicKey.ofBytes e.signer = .ok key ∧
    key.accepts e.signedData e.signature = true
  /-- Whoever adds or removes a key is current after the entries before. -/
  current : ∀ i e, es[i]? = some e → e.action ≠ .start →
    ∃ key, PublicKey.ofBytes e.signer = .ok key ∧ key ∈ (Custody.mk (es.take i)).keys

/-- A list is sound when each of its entries follows those before it. -/
theorem sound_iff_follows :
    Sound es ↔ ∀ (i : Nat) (e : Entry), es[i]? = some e → e.Follows (es.take i) := by
  induction es using List.reverseRecOn with
  | nil => exact iff_of_true .nil fun i e h => by simp at h
  | append_singleton es e ih =>
    rw [sound_concat_iff, ih]
    constructor
    · rintro ⟨hbefore, hlast⟩ i d hd
      rcases Nat.lt_trichotomy i es.length with hi | rfl | hi
      · rw [List.getElem?_append_left hi] at hd
        rw [List.take_append_of_le_length (Nat.le_of_lt hi)]
        exact hbefore i d hd
      · rw [List.getElem?_concat_length] at hd
        obtain rfl := Option.some.inj hd
        rwa [List.take_left]
      · rw [List.getElem?_eq_none (by rw [List.length_append]; exact hi)] at hd
        cases hd
    · intro h
      refine ⟨fun i d hd => ?_, ?_⟩
      · obtain ⟨hi, -⟩ := List.getElem?_eq_some_iff.1 hd
        have hfollows := h i d (by rwa [List.getElem?_append_left hi])
        rwa [List.take_append_of_le_length (Nat.le_of_lt hi)] at hfollows
      · have hfollows := h es.length e List.getElem?_concat_length
        rwa [List.take_left] at hfollows

theorem Sound.unbroken (h : Sound es) (hne : es ≠ []) : Unbroken es := by
  rw [sound_iff_follows] at h
  have hcurrent : ∀ i e, es[i]? = some e → e.action ≠ .start →
      ∃ key, PublicKey.ofBytes e.signer = .ok key ∧ key ∈ (Custody.mk (es.take i)).keys := by
    intro i e he hother
    obtain ⟨-, key, hkey, -, hwho⟩ := follows_iff.1 (h i e he)
    rw [if_neg hother] at hwho
    exact ⟨key, hkey, hwho⟩
  refine ⟨hne, fun e he => ?_, fun i d e hd he => ?_, fun e he => ?_, hcurrent⟩
  · -- nobody is current before the first entry, so it can only start the chain
    obtain ⟨hparent, key, -, -, hwho⟩ := follows_iff.1 (h 0 e he)
    have hstart : e.action = .start := by
      by_contra hother
      obtain ⟨key, -, hkey⟩ := hcurrent 0 e he hother
      cases hkey
    rw [if_pos hstart] at hwho
    exact ⟨hstart, hparent, hwho.2⟩
  · obtain ⟨hparent, key, -, -, hwho⟩ := follows_iff.1 (h (i + 1) e he)
    have hlast : (es.take (i + 1)).getLast? = some d := by simp [List.getLast?_take, hd]
    rw [hlast] at hparent
    refine ⟨fun hstart => ?_, hparent⟩
    rw [if_pos hstart] at hwho
    rw [hwho.1] at hlast
    cases hlast
  · obtain ⟨i, he⟩ := List.mem_iff_getElem?.1 he
    obtain ⟨-, key, hkey, haccepts, -⟩ := follows_iff.1 (h i e he)
    exact ⟨key, hkey, haccepts⟩

theorem Unbroken.sound (h : Unbroken es) : Sound es := by
  rw [sound_iff_follows]
  intro i e he
  obtain ⟨key, hkey, haccepts⟩ := h.signed e (List.mem_of_getElem? he)
  cases i with
  | zero =>
    obtain ⟨hstart, hparent, hself⟩ := h.first e he
    refine follows_iff.2 ⟨hparent, key, hkey, haccepts, ?_⟩
    rw [if_pos hstart]
    exact ⟨rfl, hself⟩
  | succ i =>
    obtain ⟨hi, -⟩ := List.getElem?_eq_some_iff.1 he
    have hd : es[i]? = some es[i] := List.getElem?_eq_getElem (Nat.lt_of_succ_lt hi)
    obtain ⟨hother, hparent⟩ := h.later i _ e hd he
    refine follows_iff.2 ⟨?_, key, hkey, haccepts, ?_⟩
    · have hlast : (es.take (i + 1)).getLast? = some es[i] := by simp [List.getLast?_take, hd]
      rw [hlast]
      exact hparent
    · obtain ⟨key', hkey', hcurrent⟩ := h.current (i + 1) e he hother
      obtain rfl := Except.ok.inj (hkey.symm.trans hkey')
      rw [if_neg hother]
      exact hcurrent

/-- A list is accepted when custody over it is unbroken. -/
theorem ofEntries_eq_ok_iff_unbroken : ofEntries es = .ok ⟨es⟩ ↔ Unbroken es := by
  rw [ofEntries_eq_ok_iff]
  constructor
  · rintro ⟨-, hne, hsound⟩
    exact hsound.unbroken hne
  · intro h
    exact ⟨rfl, h.ne_nil, h.sound⟩

/-! ## Where the check fails -/

/-- Something is wrong with an entry that comes after some others. -/
def Entry.Breaks (e : Entry) (es : List Entry) (fault : CustodyFault) : Prop :=
  fault? es.length (es.getLast?.map Entry.hash) (Custody.mk es).keys e = some fault

theorem Entry.Breaks.not_sound {after : List Entry} {fault : CustodyFault}
    (h : e.Breaks es fault) : ¬Sound (es ++ e :: after) := by
  intro hsound
  rw [List.append_cons] at hsound
  have hfollows : e.Follows es := (sound_concat_iff.1 hsound.of_append).2
  rw [Entry.Follows, h] at hfollows
  cases hfollows

/-- The check of what comes after a sound beginning fails at the first entry that breaks. -/
theorem checkFrom_eq_error_iff (h : Sound es) (es' : List Entry) :
    checkFrom es.length (es.getLast?.map Entry.hash) (Custody.mk es).keys es' = .error cause ↔
      ∃ before e after fault, es' = before ++ e :: after ∧ Sound (es ++ before) ∧
        e.Breaks (es ++ before) fault ∧ cause = .chainCorrupted (es ++ before).length fault := by
  induction es' generalizing es with
  | nil =>
    refine iff_of_false (fun heq => by cases heq) ?_
    rintro ⟨before, e, after, fault, hsplit, -⟩
    simp at hsplit
  | cons d rest ih =>
    rw [checkFrom]
    cases hfault : fault? es.length (es.getLast?.map Entry.hash) (Custody.mk es).keys d with
    | some fault =>
      dsimp only
      constructor
      · intro heq
        obtain rfl := Except.error.inj heq
        refine ⟨[], d, rest, fault, rfl, ?_⟩
        rw [List.append_nil]
        exact ⟨h, hfault, rfl⟩
      · rintro ⟨before, e, after, fault', hsplit, hsound, hbreaks, rfl⟩
        cases before with
        | nil =>
          obtain ⟨rfl, -⟩ := List.cons.inj hsplit
          rw [List.append_nil] at hbreaks ⊢
          rw [Entry.Breaks, hfault] at hbreaks
          rw [Option.some.inj hbreaks]
        | cons x before =>
          obtain ⟨rfl, -⟩ := List.cons.inj hsplit
          exact absurd hsound (Entry.Breaks.not_sound hfault)
    | none =>
      have hlast : some d.hash = (es ++ [d]).getLast?.map Entry.hash := by simp
      have hlength : es.length + 1 = (es ++ [d]).length := by simp
      dsimp only
      rw [hlast, hlength, ← keys_concat, ih (.snoc h hfault)]
      constructor
      · rintro ⟨before, e, after, fault, rfl, hsound, hbreaks, rfl⟩
        rw [← List.append_cons] at hsound hbreaks ⊢
        exact ⟨d :: before, e, after, fault, rfl, hsound, hbreaks, rfl⟩
      · rintro ⟨before, e, after, fault, hsplit, hsound, hbreaks, rfl⟩
        cases before with
        | nil =>
          obtain ⟨rfl, -⟩ := List.cons.inj hsplit
          rw [List.append_nil, Entry.Breaks, hfault] at hbreaks
          cases hbreaks
        | cons x before =>
          obtain ⟨rfl, rfl⟩ := List.cons.inj hsplit
          rw [List.append_cons] at hsound hbreaks
          refine ⟨before, e, after, fault, rfl, hsound, hbreaks, ?_⟩
          rw [← List.append_cons]

omit [Suite] in
theorem firstEntry_eq_error_iff : c.firstEntry = .error cause ↔
    c.entries = [] ∧ cause = .firstEntryMissing ∨
      ∃ e rest, c.entries = e :: rest ∧ e.action ≠ .start ∧ cause = .firstEntryInvalid := by
  unfold firstEntry
  cases c.entries with
  | nil => simp [@eq_comm _ _ cause]
  | cons e rest =>
    by_cases hstart : e.action = .start
    · simp [hstart]
    · simp [hstart, @eq_comm _ _ cause]

/-- The check fails when the first entry does not start the chain, or at the first one that
breaks. -/
theorem check_eq_error_iff : c.check = .error cause ↔ c.firstEntry = .error cause ∨
    (∃ e, c.firstEntry = .ok e) ∧ ∃ before e after fault, c.entries = before ++ e :: after ∧
      Sound before ∧ e.Breaks before fault ∧ cause = .chainCorrupted before.length fault := by
  have hcheck : checkFrom 0 none [] c.entries = .error cause ↔ _ :=
    checkFrom_eq_error_iff .nil c.entries
  simp only [List.nil_append] at hcheck
  rw [← hcheck]
  unfold check
  cases c.firstEntry with
  | error cause' => simp [bind, Except.bind]
  | ok e => simp [bind, Except.bind]

theorem ofEntries_eq_error_iff :
    ofEntries es = .error cause ↔ (Custody.mk es).check = .error cause := by
  unfold ofEntries
  cases (Custody.mk es).check with
  | error cause' => simp [Except.map]
  | ok u => simp [Except.map]

/-- What an entry that breaks does not spoil is accepted, and what it does spoil is not. -/
theorem accepts_before_of_breaks {after : List Entry} {fault : CustodyFault} (before : Sound es)
    (breaks : e.Breaks es fault) :
    (es.length ≠ 0 → ofEntries ((es ++ e :: after).take es.length) = .ok ⟨es⟩) ∧
      ∀ c, ofEntries ((es ++ e :: after).take (es.length + 1)) ≠ .ok c := by
  constructor
  · intro hpos
    rw [List.take_left]
    exact ofEntries_eq_ok_iff.2 ⟨rfl, List.ne_nil_of_length_pos (Nat.pos_of_ne_zero hpos), before⟩
  · intro c haccepts
    have hblamed : (es ++ e :: after).take (es.length + 1) = es ++ [e] := by
      rw [List.append_cons]
      exact List.take_left' (by simp)
    rw [hblamed] at haccepts
    exact breaks.not_sound (ofEntries_eq_ok_iff.1 haccepts).2.2

/-! ## Main statement -/

/-- What the check says of any list of entries.

* It accepts the list exactly when custody over it is unbroken.
* Otherwise it says that there is no entry, that the first one does not start the chain, or it
  blames an entry.  Then all entries before the one that it blames are accepted, if there are any,
  and together with this one they are not.
* So every beginning of an accepted list is accepted. -/
theorem accepts_unbroken (es : List Entry) :
    ((∃ c, ofEntries es = .ok c) ↔ Unbroken es) ∧
      (∀ cause, ofEntries es = .error cause →
        es = [] ∧ cause = .firstEntryMissing ∨
          (∃ e rest, es = e :: rest ∧ e.action ≠ .start) ∧ cause = .firstEntryInvalid ∨
          ∃ i fault, cause = .chainCorrupted i fault ∧ i < es.length ∧
            (i ≠ 0 → ofEntries (es.take i) = .ok ⟨es.take i⟩) ∧
            ∀ c, ofEntries (es.take (i + 1)) ≠ .ok c) ∧
      ∀ c, ofEntries es = .ok c → ∀ n, n ≠ 0 → ofEntries (es.take n) = .ok ⟨es.take n⟩ := by
  refine ⟨?_, fun cause h => ?_, fun c h n hn => ?_⟩
  · rw [← ofEntries_eq_ok_iff_unbroken]
    constructor
    · rintro ⟨c, h⟩
      obtain ⟨rfl, -⟩ := ofEntries_eq_ok_iff.1 h
      exact h
    · exact fun h => ⟨_, h⟩
  · rcases check_eq_error_iff.1 (ofEntries_eq_error_iff.1 h) with hfirst |
      ⟨-, before, e, after, fault, hsplit, hsound, hbreaks, hcause⟩
    · rcases firstEntry_eq_error_iff.1 hfirst with hmissing | ⟨e, rest, hsplit, hother, hcause⟩
      · exact Or.inl hmissing
      · exact Or.inr (Or.inl ⟨⟨e, rest, hsplit, hother⟩, hcause⟩)
    · have hes : es = before ++ e :: after := hsplit
      subst hes
      obtain ⟨haccepts, hrejects⟩ := accepts_before_of_breaks hsound hbreaks
      refine Or.inr (Or.inr ⟨before.length, fault, hcause, by simp, ?_, hrejects⟩)
      rwa [List.take_left] at haccepts ⊢
  · obtain ⟨-, hne, hsound⟩ := ofEntries_eq_ok_iff.1 h
    refine ofEntries_eq_ok_iff.2 ⟨rfl, fun hnil => ?_, ?_⟩
    · rcases List.take_eq_nil_iff.1 hnil with hzero | hnil
      · exact hn hzero
      · exact hne hnil
    · rw [← List.take_append_drop n es] at hsound
      exact hsound.of_append

end SecureGroup.Custody

/-! ## A forged entry -/

namespace SecureGroup.Plain

attribute [local instance] Suite.plain

open Custody

/-- A member starts a chain, and another key adds itself. -/
def selfAdded : List Entry :=
  let started := (Custody.empty.afterAll (custodyCalls.take 1)).entries
  started ++ [Entry.signBy
    ⟨.add, (key 2).pub.bytes.toList, (key 2).pub.bytes.toList, started.getLast?.map Entry.hash,
      ⟨1⟩, .farFuture, []⟩ (key 2)]

end SecureGroup.Plain

namespace SecureGroup.Custody

attribute [local instance] Suite.plain

/-- The entry of the other key is blamed, and the chain before it is accepted. -/
theorem accepts_unbroken_selfAdded :
    let es := (empty.afterAll Plain.custodyCalls).entries
    ofEntries es = .ok ⟨es⟩ ∧ Unbroken es ∧ ofEntries (es.take 4) = .ok ⟨es.take 4⟩ ∧
      ofEntries Plain.selfAdded = .error (.chainCorrupted 1 .signerNotValid) ∧
      ofEntries (Plain.selfAdded.take 1) = .ok ⟨Plain.selfAdded.take 1⟩ ∧
      ¬ Unbroken Plain.selfAdded := by
  intro es
  have h : ofEntries es = .ok ⟨es⟩ := by decide +kernel
  have hforged : ofEntries Plain.selfAdded = .error (.chainCorrupted 1 .signerNotValid) := by
    decide +kernel
  obtain ⟨haccepts, -, hprefix⟩ := accepts_unbroken es
  obtain ⟨hforged_iff, hblames, -⟩ := accepts_unbroken Plain.selfAdded
  refine ⟨h, haccepts.1 ⟨_, h⟩, hprefix _ h 4 (by decide), hforged, ?_, fun hunbroken => ?_⟩
  · rcases hblames _ hforged with ⟨-, hcause⟩ | ⟨-, hcause⟩ | ⟨i, fault, hcause, -, hbefore, -⟩
    · cases hcause
    · cases hcause
    · cases hcause
      exact hbefore (by decide)
  · obtain ⟨c, hc⟩ := hforged_iff.2 hunbroken
    rw [hforged] at hc
    cases hc

end SecureGroup.Custody
