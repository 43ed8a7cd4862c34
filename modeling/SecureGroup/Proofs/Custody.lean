import Mathlib.Data.List.Induction
import SecureGroup.Custody
import SecureGroup.Proofs.Reached
import SecureGroup.Proofs.Signatures
import SecureGroup.Suite.Plain

/-!
# Chains of custody that pass the check

A chain passes the check exactly when it has entries and each of them follows those before it
(`Custody.check_eq_ok_iff`): it carries their last hash, and one of the keys that they leave current
has signed it.  Starting a chain, adding a key and removing one append an entry that follows, or
leave the chain as it is.  So the check accepts whatever comes of any calls, and the entries read
back as the same chain (`Custody.check_after_calls`).
-/

namespace SecureGroup.Custody

variable [Suite]

/-! ## Entries that follow others -/

/-- Nothing is wrong with an entry that comes after some others. -/
def Entry.Follows (e : Entry) (es : List Entry) : Prop :=
  fault? es.length (es.getLast?.map Entry.hash) (Custody.mk es).keys e = none

/-- Entries each of which follows those before it. -/
inductive Sound : List Entry → Prop
  | nil : Sound []
  | snoc {es : List Entry} {e : Entry} (before : Sound es) (last : e.Follows es) : Sound (es ++ [e])

variable {c c' : Custody} {es es' : List Entry} {e : Entry} {now : Timestamp} {signer : PrivateKey}
  {subject : PublicKey} {action : Action}

/-- An entry follows others when it is linked to the last of them and signed, and the signer is
current, or starts the chain with its own key. -/
theorem follows_iff : e.Follows es ↔ e.parent = es.getLast?.map Entry.hash ∧
    ∃ key, PublicKey.ofBytes e.signer = .ok key ∧ key.accepts e.signedData e.signature = true ∧
      if e.action = .start then es = [] ∧ e.subject = e.signer
      else key ∈ (Custody.mk es).keys := by
  unfold Entry.Follows fault?
  by_cases hparent : e.parent = es.getLast?.map Entry.hash
  · rw [if_neg (not_not_intro hparent)]
    cases hkey : PublicKey.ofBytes e.signer with
    | error cause => simp
    | ok key =>
      by_cases haccepts : key.accepts e.signedData e.signature = true
      · by_cases hstart : e.action = .start
        · by_cases hnil : es = []
          · simp [hparent, haccepts, hstart, hnil]
          · simp [haccepts, hstart, hnil]
        · simp [hparent, haccepts, hstart]
      · simp [haccepts]
  · simp [hparent]

theorem sound_concat_iff : Sound (es ++ [e]) ↔ Sound es ∧ e.Follows es := by
  constructor
  · intro h
    generalize hl : es ++ [e] = l at h
    cases h with
    | nil => simp at hl
    | snoc before last =>
      obtain ⟨rfl, hlast⟩ := List.append_inj' hl rfl
      obtain rfl := List.singleton_inj.1 hlast
      exact ⟨before, last⟩
  · rintro ⟨before, last⟩
    exact .snoc before last

theorem Sound.of_append (h : Sound (es ++ es')) : Sound es := by
  induction es' using List.reverseRecOn with
  | nil => rwa [List.append_nil] at h
  | append_singleton es' e ih =>
    rw [← List.append_assoc] at h
    exact ih (sound_concat_iff.1 h).1

theorem keys_concat (es : List Entry) (e : Entry) :
    (Custody.mk (es ++ [e])).keys = e.apply (Custody.mk es).keys := by
  unfold keys
  rw [List.foldl_append]
  rfl

/-! ## The check -/

/-- The check goes on from a sound beginning exactly as long as the whole is sound. -/
theorem checkFrom_eq_ok_iff (h : Sound es) :
    checkFrom es.length (es.getLast?.map Entry.hash) (Custody.mk es).keys es' = .ok () ↔
      Sound (es ++ es') := by
  induction es' generalizing es with
  | nil =>
    rw [List.append_nil]
    exact iff_of_true rfl h
  | cons e rest ih =>
    rw [checkFrom, List.append_cons]
    cases hfault : fault? es.length (es.getLast?.map Entry.hash) (Custody.mk es).keys e with
    | some fault =>
      refine iff_of_false (fun heq => by cases heq) fun hsound => ?_
      have hfollows : e.Follows es := (sound_concat_iff.1 hsound.of_append).2
      rw [Entry.Follows, hfault] at hfollows
      cases hfollows
    | none =>
      have hlast : some e.hash = (es ++ [e]).getLast?.map Entry.hash := by simp
      have hlength : es.length + 1 = (es ++ [e]).length := by simp
      dsimp only
      rw [hlast, hlength, ← keys_concat]
      exact ih (.snoc h hfault)

/-- The check accepts a chain that has entries, each of which follows those before it. -/
theorem check_eq_ok_iff : c.check = .ok () ↔ c.entries ≠ [] ∧ Sound c.entries := by
  have hsound : checkFrom 0 none [] c.entries = .ok () ↔ Sound c.entries :=
    checkFrom_eq_ok_iff Sound.nil
  unfold check
  rw [bind_eq_ok_iff]
  constructor
  · rintro ⟨e, hfirst, hcheck⟩
    refine ⟨fun hnil => ?_, hsound.1 hcheck⟩
    unfold firstEntry at hfirst
    rw [hnil] at hfirst
    cases hfirst
  · rintro ⟨hne, hs⟩
    obtain ⟨e, rest, hentries⟩ := List.exists_cons_of_ne_nil hne
    -- nobody is current before the first entry, so it can only start the chain
    have hfirst : Sound ([] ++ [e]) := by
      have hall : Sound ([e] ++ rest) := by rwa [hentries] at hs
      exact hall.of_append
    obtain ⟨-, key, -, -, hwho⟩ := follows_iff.1 (sound_concat_iff.1 hfirst).2
    have hstart : e.action = .start := by
      by_contra hnot
      rw [if_neg hnot] at hwho
      cases hwho
    refine ⟨e, ?_, hsound.2 hs⟩
    rw [firstEntry, hentries]
    exact if_pos hstart

theorem ofEntries_eq_ok_iff : ofEntries es = .ok c ↔ c = ⟨es⟩ ∧ es ≠ [] ∧ Sound es := by
  rw [← check_eq_ok_iff (c := ⟨es⟩), ofEntries]
  cases (Custody.mk es).check with
  | error cause => simp [Except.map]
  | ok u => simp [Except.map, eq_comm]

/-! ## Calls -/

/-- A call that may append an entry. -/
inductive Call where
  | start (now : Timestamp) (key : PrivateKey)
  | add (now : Timestamp) (signer : PrivateKey) (subject : PublicKey)
  | remove (now : Timestamp) (signer : PrivateKey) (subject : PublicKey)

def call (c : Custody) : Call → Except Error (Entry × Custody)
  | .start now key => c.start now key
  | .add now signer subject => c.add now signer subject
  | .remove now signer subject => c.remove now signer subject

/-- The chain after a call; one that fails leaves it as it is. -/
def after (c : Custody) (x : Call) : Custody :=
  match c.call x with
  | .ok (_, c') => c'
  | .error _ => c

def afterAll (c : Custody) (calls : List Call) : Custody := calls.foldl after c

/-- What is appended is an entry of the signer at the end, linked to the last one and signed. -/
theorem append_eq_ok (h : c.append now signer action subject = .ok (e, c')) :
    c' = ⟨c.entries ++ [e]⟩ ∧ e.action = action ∧ e.subject = subject.bytes.toList ∧
      e.signer = signer.pub.bytes.toList ∧ e.parent = c.entries.getLast?.map Entry.hash ∧
      PublicKey.ofBytes e.signer = .ok signer.pub ∧
      signer.pub.accepts e.signedData e.signature = true := by
  unfold append at h
  rw [bind_eq_ok_iff] at h
  obtain ⟨fits, hverify, h⟩ := h
  cases fits with
  | false => cases h
  | true =>
    cases h
    rw [Entry.verify, bind_eq_ok_iff] at hverify
    obtain ⟨key, hkey, hfits⟩ := hverify
    have hpub : key = signer.pub := PublicKey.ext (Octets.ext (PublicKey.of_ofBytes hkey).1)
    subst hpub
    exact ⟨rfl, rfl, rfl, rfl, rfl, hkey, (PublicKey.verify_eq_ok_true_iff _ _ _).1 hfits⟩

theorem start_eq_ok_iff {key : PrivateKey} : c.start now key = .ok (e, c') ↔
    c.entries = [] ∧ c.append now key .start key.pub = .ok (e, c') := by
  unfold start
  by_cases hempty : c.entries = []
  · simp [hempty]
  · simp [hempty]

theorem add_eq_ok_iff : c.add now signer subject = .ok (e, c') ↔
    c.entries ≠ [] ∧ signer.pub ∈ c.keys ∧ subject ∉ c.keys ∧
      c.append now signer .add subject = .ok (e, c') := by
  unfold add
  by_cases hempty : c.entries = []
  · simp [hempty]
  · by_cases hsigner : signer.pub ∈ c.keys
    · by_cases hsubject : subject ∈ c.keys
      · simp [hempty, hsigner, hsubject]
      · simp [hempty, hsigner, hsubject]
    · simp [hempty, hsigner]

theorem remove_eq_ok_iff : c.remove now signer subject = .ok (e, c') ↔
    c.entries ≠ [] ∧ signer.pub ∈ c.keys ∧ subject ∈ c.keys ∧
      c.append now signer .remove subject = .ok (e, c') := by
  unfold remove
  by_cases hempty : c.entries = []
  · simp [hempty]
  · by_cases hsigner : signer.pub ∈ c.keys
    · by_cases hsubject : subject ∈ c.keys
      · simp [hempty, hsigner, hsubject]
      · simp [hempty, hsigner, hsubject]
    · simp [hempty, hsigner]

/-- What a current key appends follows, unless it would start the chain again. -/
theorem follows_of_append (h : c.append now signer action subject = .ok (e, c'))
    (hother : action ≠ .start) (current : signer.pub ∈ c.keys) : e.Follows c.entries := by
  obtain ⟨-, haction, -, -, hparent, hkey, haccepts⟩ := append_eq_ok h
  refine follows_iff.2 ⟨hparent, signer.pub, hkey, haccepts, ?_⟩
  rw [if_neg (haction.symm ▸ hother)]
  exact current

/-- A call that succeeds appends the entry that it returns, and this entry follows the others. -/
theorem call_eq_ok {x : Call} (h : c.call x = .ok (e, c')) :
    e.Follows c.entries ∧ c' = ⟨c.entries ++ [e]⟩ := by
  cases x with
  | start now key =>
    obtain ⟨hempty, h⟩ := start_eq_ok_iff.1 h
    obtain ⟨hc', haction, hsubject, hsigner, hparent, hkey, haccepts⟩ := append_eq_ok h
    refine ⟨follows_iff.2 ⟨hparent, key.pub, hkey, haccepts, ?_⟩, hc'⟩
    rw [if_pos haction]
    exact ⟨hempty, hsubject.trans hsigner.symm⟩
  | add now signer subject =>
    obtain ⟨-, hcurrent, -, h⟩ := add_eq_ok_iff.1 h
    exact ⟨follows_of_append h (by decide) hcurrent, (append_eq_ok h).1⟩
  | remove now signer subject =>
    obtain ⟨-, hcurrent, -, h⟩ := remove_eq_ok_iff.1 h
    exact ⟨follows_of_append h (by decide) hcurrent, (append_eq_ok h).1⟩

/-- No call makes a sound chain unsound, or changes the entries that it has. -/
theorem sound_after (h : Sound c.entries) (x : Call) :
    Sound (c.after x).entries ∧ c.entries <+: (c.after x).entries := by
  unfold after
  split
  · next e c' hcall =>
    obtain ⟨hfollows, rfl⟩ := call_eq_ok hcall
    exact ⟨.snoc h hfollows, List.prefix_append _ _⟩
  · exact ⟨h, List.prefix_rfl⟩

theorem sound_afterAll (h : Sound c.entries) (calls : List Call) :
    Sound (c.afterAll calls).entries ∧ c.entries <+: (c.afterAll calls).entries := by
  induction calls generalizing c with
  | nil => exact ⟨h, List.prefix_rfl⟩
  | cons x rest ih =>
    obtain ⟨hsound, hprefix⟩ := sound_after h x
    obtain ⟨hsound', hprefix'⟩ := ih hsound
    exact ⟨hsound', hprefix.trans hprefix'⟩

/-- Whatever is called on an empty chain or on one that was read from its entries, in any order,
with any keys and at any times, and whichever calls fail: the chain is empty, or the check accepts
it and its entries read back as the same chain.  It only grows, by the entries that the calls
return. -/
theorem check_after_calls (h : c = empty ∨ ∃ entries, ofEntries entries = .ok c)
    (calls : List Call) :
    let c' := c.afterAll calls
    (c' = empty ∨ c'.check = .ok () ∧ ofEntries c'.entries = .ok c') ∧
      c.entries <+: c'.entries ∧
      ∀ x e c'', c'.call x = .ok (e, c'') → c''.entries = c'.entries ++ [e] := by
  intro c'
  have hstart : Sound c.entries := by
    rcases h with rfl | ⟨entries, h⟩
    · exact .nil
    · obtain ⟨rfl, -, hsound⟩ := ofEntries_eq_ok_iff.1 h
      exact hsound
  obtain ⟨hsound, hprefix⟩ := sound_afterAll hstart calls
  refine ⟨?_, hprefix, fun x e c'' hcall => ?_⟩
  · by_cases hnil : c'.entries = []
    · exact Or.inl (congrArg Custody.mk hnil)
    · exact Or.inr ⟨check_eq_ok_iff.2 ⟨hnil, hsound⟩, ofEntries_eq_ok_iff.2 ⟨rfl, hnil, hsound⟩⟩
  · rw [(call_eq_ok hcall).2]

end SecureGroup.Custody

/-! ## A small chain -/

namespace SecureGroup.Plain

/-- A member starts a chain, adds a device, removes it and adds it again, and removes itself.  Then
it fails to add another device, which the first device does. -/
def custodyCalls : List Custody.Call :=
  [.start ⟨0⟩ (key 1), .add ⟨1⟩ (key 1) ⟨.fit 32 [2]⟩, .remove ⟨2⟩ (key 1) ⟨.fit 32 [2]⟩,
    .add ⟨3⟩ (key 1) ⟨.fit 32 [2]⟩, .remove ⟨4⟩ (key 1) ⟨.fit 32 [1]⟩,
    .add ⟨5⟩ (key 1) ⟨.fit 32 [3]⟩, .add ⟨6⟩ (key 2) ⟨.fit 32 [3]⟩]

end SecureGroup.Plain

namespace SecureGroup.Custody

attribute [local instance] Suite.plain

theorem check_after_calls_readded :
    let c := empty.afterAll Plain.custodyCalls
    c.entries.length = 6 ∧ c.keys = [⟨.fit 32 [2]⟩, ⟨.fit 32 [3]⟩] ∧ c.check = .ok () ∧
      ofEntries c.entries = .ok c := by
  intro c
  have hlength : c.entries.length = 6 := by decide +kernel
  obtain ⟨hempty | ⟨hcheck, hread⟩, -⟩ := check_after_calls (.inl rfl) Plain.custodyCalls
  · have hc : c = empty := hempty
    rw [hc] at hlength
    cases hlength
  · exact ⟨hlength, by decide +kernel, hcheck, hread⟩

end SecureGroup.Custody
