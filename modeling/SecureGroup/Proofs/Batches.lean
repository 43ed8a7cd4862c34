import SecureGroup.Proofs.Convergence
import SecureGroup.Proofs.Redelivery
import SecureGroup.Replica

/-!
# Where batches are cut

A log may be taken in batches that are cut in many ways: a replica that listens takes what has
arrived, and one that is opened again takes chunks of a fixed size (`Replica.index_replay`).
Waiting entries are tried again at the end of a batch only, so the cuts decide whether a waiting
entry or a later one comes first.  Two ways of cutting lead to the same snapshot and the same
waiting entries exactly when neither drops an entry that is in force in the other
(`updateAll_eq_iff`); this is so whenever no two entries dispute, and need not be otherwise
(`cuts_diverge`).
-/

namespace SecureGroup

variable [Suite]

namespace Metadata

variable {self : Participant} {reader : Log.Reader} {log l l' : List Log.Entry}
  {told told' : List Notice} {i j : Index} {c : Candidate} {keys keys' : ChainKeys}
  {cuts cuts' batches : List (List Log.Entry)}

def Index.updateAll (self : Participant) (reader : Log.Reader) (i : Index)
    (batches : List (List Log.Entry)) : Index :=
  batches.foldl (fun i batch => (i.update self reader batch).index) i

theorem Reached.updateAll (h : Reached self reader log told i) (batches : List (List Log.Entry)) :
    ∃ told', Reached self reader (log ++ batches.flatten) told'
      (i.updateAll self reader batches) := by
  induction batches generalizing log told i with
  | nil => exact ⟨told, by rwa [List.flatten_nil, List.append_nil]⟩
  | cons batch rest ih =>
    obtain ⟨told', hrest⟩ := ih (h.update batch)
    rw [List.append_assoc, ← List.flatten_cons] at hrest
    exact ⟨told', hrest⟩

theorem reached_updateAll (self : Participant) (reader : Log.Reader) (keys : ChainKeys)
    (batches : List (List Log.Entry)) :
    ∃ told, Reached self reader batches.flatten told
      ((Index.empty keys).updateAll self reader batches) :=
  (Reached.empty keys).updateAll batches

namespace Reached

/-- A snapshot tells who belongs to the group. -/
theorem within_of_snapshot_eq (h : Reached self reader l told i)
    (h' : Reached self reader l' told' j) (heq : i.snapshot = j.snapshot) :
    i.state.roster.Within j.state.roster := by
  have hi := Index.snapshot_shows h.consistent
  have hj := Index.snapshot_shows h'.consistent
  rw [← heq] at hj
  refine h.consistent.within h'.consistent ?_ ?_
  · exact fun d m ho => (hj.devices d m).1 ((hi.devices d m).2 ho)
  · exact fun m ha => (hj.admins.mem_iff m).1 ((hi.admins.mem_iff m).2 ha)

variable (h : Reached self reader l told i) (h' : Reached self reader l' told' j)
  (same : ∀ e, e ∈ l ↔ e ∈ l') (hd : OnePayload l)

include h h' same hd

theorem deferred_subset (hw : j.state.roster.Within i.state.roster) : i.deferred ⊆ j.deferred := by
  have hd' : OnePayload l' := hd.of_subset fun e => (same e).2
  intro c hc
  obtain ⟨hoffered, hne⟩ := (h.mem_deferred_iff hd).1 hc
  refine (h'.mem_deferred_iff hd').2 ⟨hoffered.mono fun e => (same e).1, fun hen => hne ?_⟩
  exact hen.mono hw

/-- Indexes that show the same have the same entries waiting, in the same order. -/
theorem deferred_eq_of_snapshot_eq (heq : i.snapshot = j.snapshot) : i.deferred = j.deferred := by
  have hd' : OnePayload l' := hd.of_subset fun e => (same e).2
  have hw := h.within_of_snapshot_eq h' heq
  have hw' := h'.within_of_snapshot_eq h heq.symm
  have hsub := h.deferred_subset h' same hd hw'
  have hsub' := h'.deferred_subset h (fun e => (same e).symm) hd' hw
  have hperm : i.deferred.Perm j.deferred := by
    rw [List.perm_ext_iff_of_nodup h.tidy.nodup_deferred.of_map h'.tidy.nodup_deferred.of_map]
    exact fun c => ⟨fun hc => hsub hc, fun hc => hsub' hc⟩
  exact eq_of_perm_of_ordered hperm h'.tidy.nodup_deferred h.ordered h'.ordered

end Reached

/-- Two ways of cutting the same entries into batches lead to the same snapshot and the same waiting
entries exactly when neither drops what is in force in the other, and always when the entries do not
dispute. -/
theorem updateAll_eq_iff (keys keys' : ChainKeys) (same : cuts.flatten = cuts'.flatten)
    (hd : OnePayload cuts.flatten) :
    let i := (Index.empty keys).updateAll self reader cuts
    let j := (Index.empty keys').updateAll self reader cuts'
    (i.snapshot = j.snapshot ∧ i.deferred = j.deferred ↔
        ∀ c, Offered self reader cuts.flatten c → ¬ i.Overrides j c ∧ ¬ j.Overrides i c) ∧
      (Unambiguous reader cuts.flatten → i.snapshot = j.snapshot ∧ i.deferred = j.deferred) := by
  intro i j
  obtain ⟨told, h⟩ := reached_updateAll self reader keys cuts
  obtain ⟨told', h'⟩ := reached_updateAll self reader keys' cuts'
  rw [← same] at h'
  have hsnapshot : i.snapshot = j.snapshot ↔ _ := h.snapshot_eq_iff h' (fun _ => Iff.rfl) hd
  have hdeferred : i.snapshot = j.snapshot → i.deferred = j.deferred :=
    h.deferred_eq_of_snapshot_eq h' (fun _ => Iff.rfl) hd
  have hiff : i.snapshot = j.snapshot ∧ i.deferred = j.deferred ↔ _ :=
    (and_iff_left_of_imp hdeferred).trans hsnapshot
  refine ⟨hiff, fun hu => hiff.2 fun c hc => ⟨?_, ?_⟩⟩
  · rintro ⟨⟨hm, hnot⟩, -⟩
    exact hnot (h.inForce hu.compatible c hc hm)
  · rintro ⟨⟨hm, hnot⟩, -⟩
    exact hnot (h'.inForce hu.compatible c hc hm)

end Metadata

/-! ## Replicas -/

/-- Taking the whole log again means taking it in chunks of the size in the settings. -/
theorem Replica.index_replay (r : Replica) (entries : List Log.Entry) :
    (r.replay entries).index =
      r.index.updateAll r.self r.metadata.toReader (chunks r.settings.batchSize entries) := by
  have hfold : ∀ (batches : List (List Log.Entry)) (r : Replica),
      (batches.foldl (fun r batch => (r.update batch).2) r).index =
        r.index.updateAll r.self r.metadata.toReader batches := by
    intro batches
    induction batches with
    | nil => exact fun r => rfl
    | cons batch rest ih => exact fun r => ih (r.update batch).2
  exact hfold _ r

end SecureGroup

namespace SecureGroup.Metadata

attribute [local instance] Suite.plain

open Plain

theorem updateAll_eq_iff_joinedEarly :
    let i := (Index.empty (chains 2)).updateAll (participant 1 2) reader [joinedEarly]
    let j := (Index.empty (chains 2)).updateAll (participant 1 2) reader (joinedEarly.map ([·]))
    [joinedEarly].flatten = (joinedEarly.map ([·])).flatten ∧ OnePayload [joinedEarly].flatten ∧
      (i.snapshot = j.snapshot ∧ i.deferred = j.deferred ↔
        ∀ c, Offered (participant 1 2) reader [joinedEarly].flatten c →
          ¬ i.Overrides j c ∧ ¬ j.Overrides i c) := by
  have hpayload : OnePayload [joinedEarly].flatten := by
    rw [List.flatten_singleton]
    exact onePayload_joinedEarly
  have hsame : [joinedEarly].flatten = (joinedEarly.map ([·])).flatten := rfl
  exact ⟨hsame, hpayload, (updateAll_eq_iff (chains 2) (chains 2) hsame hpayload).1⟩

/-- Two members claim one device, and the first claim has to wait for its inviter.  Whether the
second claim comes before the first one is tried again depends on where a batch ends. -/
theorem cuts_diverge :
    let first := entry 5 (joined 1 3 7)
    let inviter := entry 2 (announced 1 2)
    let second := entry 6 (joined 1 4 7)
    ((Index.empty (chains 2)).updateAll (participant 1 2) reader
        [[first, inviter], [second]]).snapshot ≠
      ((Index.empty (chains 2)).updateAll (participant 1 2) reader
        [[first, inviter, second]]).snapshot := by
  intro first inviter second heq
  obtain ⟨told, h⟩ := reached_updateAll (participant 1 2) reader (chains 2)
    [[first, inviter], [second]]
  obtain ⟨told', h'⟩ := reached_updateAll (participant 1 2) reader (chains 2)
    [[first, inviter, second]]
  have hw := (h.within_of_snapshot_eq h' heq).owner? (d := (key 7).pub) (m := (key 3).pub)
  exact absurd (hw (by decide +kernel)) (by decide +kernel)

end SecureGroup.Metadata
