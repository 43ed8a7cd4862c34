import Mathlib.Data.Finset.Basic
import SecureGroup.Proofs.Custody
import SecureGroup.Proofs.Invitations

/-!
# The current keys of a chain of custody as a set

The current keys of a chain come from replaying all its entries, among them those that the check
rejects and those whose subject is no key.  From outside they are a set, or nothing as long as the
chain is not started (`Custody.standing`).  What a call does to this set is said by `Call.act`, on
the set alone.  Main statement: calls on any chain do exactly this, append the entry that they
return, and change nothing when they fail (`Custody.calls_refine_standing`).
-/

namespace SecureGroup.Custody

variable [Suite]

/-! ## The set, and what calls make of it -/

/-- The current keys, if the chain is started. -/
def standing (c : Custody) : Option (Finset PublicKey) :=
  if c.entries = [] then none else some c.keys.toFinset

namespace Call

/-- What a call makes of the current keys.  Whether the signer is one of them is asked first. -/
def act : Call → Option (Finset PublicKey) → Except Error (Finset PublicKey)
  | .start _ key, none => .ok {key.pub}
  | .start .., some _ => .error .chainInitialized
  | .add .., none | .remove .., none => .error .chainEmpty
  | .add _ signer subject, some keys =>
    if signer.pub ∉ keys then .error (.signerNotAllowed .add)
    else if subject ∈ keys then .error .keyListed
    else .ok (insert subject keys)
  | .remove _ signer subject, some keys =>
    if signer.pub ∉ keys then .error (.signerNotAllowed .remove)
    else if subject ∉ keys then .error .keyNotListed
    else .ok (keys.erase subject)

/-- The current keys after a call; one that fails leaves them as they are. -/
def acted (keys : Option (Finset PublicKey)) (x : Call) : Option (Finset PublicKey) :=
  match x.act keys with
  | .ok keys' => some keys'
  | .error _ => keys

/-- What a call adds or removes is a key. -/
def Keyed : Call → Prop
  | .start .. => True
  | .add _ _ subject | .remove _ _ subject => subject.Valid

end Call

variable {c c' : Custody} {e : Entry} {now : Timestamp} {signer : PrivateKey}
  {subject : PublicKey} {action : Action} {ks : List PublicKey}

/-! ## One more entry -/

theorem Entry.nodup_apply (h : ks.Nodup) : (e.apply ks).Nodup := by
  unfold Entry.apply
  cases PublicKey.ofBytes e.subject with
  | error cause => exact h
  | ok k =>
    have hadd : (if k ∈ ks then ks else ks ++ [k]).Nodup := by
      split
      · exact h
      · next hk => exact h.append (List.nodup_singleton k) (by simpa using hk)
    cases e.action with
    | start => exact hadd
    | add => exact hadd
    | remove => exact h.erase k

theorem nodup_keys (c : Custody) : c.keys.Nodup := by
  obtain ⟨entries⟩ := c
  induction entries using List.reverseRecOn with
  | nil => exact List.nodup_nil
  | append_singleton es e ih =>
    rw [keys_concat]
    exact Entry.nodup_apply ih

/-- An entry whose subject is a key removes it from the set, or puts it there. -/
theorem Entry.toFinset_apply (h : ks.Nodup) (hsubject : PublicKey.ofBytes e.subject = .ok subject) :
    (e.apply ks).toFinset =
      if e.action = .remove then ks.toFinset.erase subject else insert subject ks.toFinset := by
  have hadd : (if subject ∈ ks then ks else ks ++ [subject]).toFinset =
      insert subject ks.toFinset := by
    ext k
    split
    · next hk => simp [hk]
    · simp
  rw [Entry.apply, hsubject]
  cases e.action with
  | start => exact hadd
  | add => exact hadd
  | remove =>
    ext k
    simp [h.mem_erase_iff]

/-- Nothing stops an entry from being appended, as it is signed by the key that it names. -/
theorem exists_append (sig : Suite.SignatureLaw) (c : Custody) (now : Timestamp)
    (signer : PrivateKey) (action : Action) (subject : PublicKey) :
    ∃ e c', c.append now signer action subject = .ok (e, c') := by
  refine ⟨_, _, bind_eq_ok_iff.2 ⟨true, ?_, rfl⟩⟩
  rw [Entry.verify, bind_eq_ok_iff]
  exact ⟨signer.pub, PublicKey.ofBytes_toList (signer.valid_pub sig),
    (PublicKey.verify_eq_ok_true_iff _ _ _).2 (signer.accepts_sign sig _)⟩

/-- What becomes of the current keys when an entry is appended. -/
theorem map_standing_append (sig : Suite.SignatureLaw) (valid : subject.Valid) :
    (c.append now signer action subject).map (fun r => r.2.standing) =
      .ok (some (if action = .remove then c.keys.toFinset.erase subject
        else insert subject c.keys.toFinset)) := by
  obtain ⟨e, c', happend⟩ := exists_append sig c now signer action subject
  obtain ⟨rfl, rfl, hsubject, -⟩ := append_eq_ok happend
  have hkey : PublicKey.ofBytes e.subject = .ok subject :=
    hsubject ▸ PublicKey.ofBytes_toList valid
  rw [happend, ← Entry.toFinset_apply c.nodup_keys hkey, ← keys_concat]
  exact congrArg Except.ok (if_neg (List.append_ne_nil_of_right_ne_nil _ (List.cons_ne_nil _ _)))

/-! ## Calls -/

/-- A call returns a chain with the keys that it makes of those before, or fails as it does on
them. -/
theorem map_standing_call (sig : Suite.SignatureLaw) (c : Custody) {x : Call} (keyed : x.Keyed) :
    (c.call x).map (fun r => r.2.standing) = (x.act c.standing).map some := by
  by_cases hempty : c.entries = []
  · have hstanding : c.standing = none := if_pos hempty
    have hisEmpty : c.entries.isEmpty = true := List.isEmpty_iff.2 hempty
    rw [hstanding]
    cases x with
    | start now key =>
      have hkeys : c.keys = [] := by rw [keys, hempty]; rfl
      rw [call, start, if_pos hisEmpty, map_standing_append sig (key.valid_pub sig), hkeys]
      rfl
    | add now signer subject =>
      rw [call, add, if_pos hisEmpty]
      rfl
    | remove now signer subject =>
      rw [call, remove, if_pos hisEmpty]
      rfl
  · have hstanding : c.standing = some c.keys.toFinset := if_neg hempty
    have hisEmpty : ¬ c.entries.isEmpty = true := fun h => hempty (List.isEmpty_iff.1 h)
    rw [hstanding]
    cases x with
    | start now key =>
      rw [call, start, if_neg hisEmpty]
      rfl
    | add now signer subject =>
      simp only [call, add, Call.act, if_neg hisEmpty, List.mem_toFinset]
      split
      · rfl
      · split
        · rfl
        · exact map_standing_append sig keyed
    | remove now signer subject =>
      simp only [call, remove, Call.act, if_neg hisEmpty, List.mem_toFinset]
      split
      · rfl
      · split
        · rfl
        · exact map_standing_append sig keyed

theorem after_of_error {x : Call} {cause : Error} (h : c.call x = .error cause) :
    c.after x = c := by
  rw [after, h]

theorem after_of_ok {x : Call} (h : c.call x = .ok (e, c')) : c.after x = c' := by
  rw [after, h]

theorem standing_after (sig : Suite.SignatureLaw) (c : Custody) {x : Call} (keyed : x.Keyed) :
    (c.after x).standing = Call.acted c.standing x := by
  have hmap := map_standing_call sig c keyed
  unfold Call.acted
  cases hact : x.act c.standing with
  | error cause =>
    cases hcall : c.call x with
    | error cause' => exact congrArg standing (after_of_error hcall)
    | ok r =>
      rw [hact, hcall] at hmap
      cases hmap
  | ok keys =>
    cases hcall : c.call x with
    | error cause =>
      rw [hact, hcall] at hmap
      cases hmap
    | ok r =>
      rw [hact, hcall] at hmap
      rw [after_of_ok hcall]
      exact Except.ok.inj hmap

theorem standing_afterAll (sig : Suite.SignatureLaw) (c : Custody) {calls : List Call}
    (keyed : ∀ x ∈ calls, x.Keyed) :
    (c.afterAll calls).standing = calls.foldl Call.acted c.standing := by
  induction calls generalizing c with
  | nil => rfl
  | cons x rest ih =>
    obtain ⟨hx, hrest⟩ := List.forall_mem_cons.1 keyed
    rw [List.foldl_cons, ← standing_after sig c hx]
    exact ih (c.after x) hrest

/-- Whatever entries a chain has, each call does to its current keys what is done to the set of
them, or fails with the same error.  One that succeeds appends the entry that it returns, and one
that fails changes nothing.  So the keys after any calls are those that the same calls make of the
set. -/
theorem calls_refine_standing (sig : Suite.SignatureLaw) (c : Custody) :
    (∀ x : Call, x.Keyed →
      (c.call x).map (fun r => r.2.standing) = (x.act c.standing).map some) ∧
    (∀ x e c', c.call x = .ok (e, c') → c'.entries = c.entries ++ [e] ∧ c.after x = c') ∧
    (∀ x cause, c.call x = .error cause → c.after x = c) ∧
    ∀ calls : List Call, (∀ x ∈ calls, x.Keyed) →
      (c.afterAll calls).standing = calls.foldl Call.acted c.standing := by
  refine ⟨fun x keyed => map_standing_call sig c keyed, fun x e c' hcall => ?_,
    fun x cause hcall => after_of_error hcall, fun calls keyed => standing_afterAll sig c keyed⟩
  obtain ⟨-, rfl⟩ := call_eq_ok hcall
  exact ⟨rfl, after_of_ok hcall⟩

end SecureGroup.Custody

/-! ## A chain that does not pass the check -/

namespace SecureGroup.Plain

def unsignedEntry (action : Custody.Action) (subject : Bytes) : Custody.Entry :=
  ⟨action, subject, (Octets.fit 32 [1]).toList, none, ⟨0⟩, ⟨0⟩, []⟩

/-- A chain of entries that nobody has signed; the subject of the second one is no key. -/
def unsignedChain : Custody :=
  ⟨[unsignedEntry .start (Octets.fit 32 [1]).toList, unsignedEntry .add [255, 255, 255]]⟩

end SecureGroup.Plain

namespace SecureGroup.Custody

attribute [local instance] Suite.plain

/-- The chain fails the check, and its one key still adds another, removes itself and then fails to
come back. -/
theorem calls_refine_standing_unsigned :
    let calls : List Call := [.add ⟨1⟩ (Plain.key 1) (Plain.key 2).pub,
      .remove ⟨2⟩ (Plain.key 1) (Plain.key 1).pub, .add ⟨3⟩ (Plain.key 1) (Plain.key 1).pub]
    Plain.unsignedChain.check ≠ .ok () ∧
      (Plain.unsignedChain.afterAll calls).standing = some {(Plain.key 2).pub} := by
  intro calls
  have keyed : ∀ x ∈ calls, x.Keyed := by
    simp only [calls, List.forall_mem_cons]
    exact ⟨rfl, rfl, rfl, List.forall_mem_nil _⟩
  obtain ⟨-, -, -, hcalls⟩ := calls_refine_standing Suite.plain_signatureLaw Plain.unsignedChain
  rw [hcalls calls keyed]
  decide +kernel

end SecureGroup.Custody
