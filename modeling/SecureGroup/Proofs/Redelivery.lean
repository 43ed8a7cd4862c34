import SecureGroup.Proofs.Order
import SecureGroup.Proofs.Reached

/-!
# Entries that come again

A batch of entries that were all delivered before leaves an index as it is and tells nothing
(`Reached.update_of_delivered`).  The log does not remember everything: an entry that cannot be
opened is read anew each time, and the waiting entries are tried again at the end of every batch.
That these rounds change nothing rests on two facts about the time between batches: no waiting entry
can be enrolled (`Reached.settled`), and the waiting entries stand in the order of their hashes
(`Reached.ordered`), so that one which is put back stands where it stood (`insert_others`).
-/

namespace SecureGroup.Metadata

variable [Suite] {self : Participant} {reader : Log.Reader} {log entries : List Log.Entry}
  {i j : Index} {c d : Candidate} {told : List Notice} {e : Log.Entry} {l : List Candidate}

/-! ## The order in which entries wait -/

/-- Whether the first of two entries may stand before the second. -/
def Candidate.Before (c d : Candidate) : Prop := c.hash.le d.hash = true

omit [Suite] in
theorem Progress.pairwise_insertCandidate (h : l.Pairwise Candidate.Before) :
    (insertCandidate c l).Pairwise Candidate.Before := by
  induction l with
  | nil => exact List.pairwise_singleton _ _
  | cons d rest ih =>
    obtain ⟨hd, hrest⟩ := List.pairwise_cons.1 h
    unfold insertCandidate
    split
    · next hcd =>
      refine List.pairwise_cons.2 ⟨fun b hb => ?_, h⟩
      rcases List.mem_cons.1 hb with rfl | hb
      · exact hcd
      · exact EntryHash.totalOrder_le.trans hcd (hd b hb)
    · next hcd =>
      refine List.pairwise_cons.2 ⟨fun b hb => ?_, ih hrest⟩
      rcases List.mem_cons.1 ((insertCandidate_perm c rest).mem_iff.1 hb) with rfl | hb
      · exact (EntryHash.totalOrder_le.total b.hash d.hash).resolve_left hcd
      · exact hd b hb

theorem Move.ordered (h : Move self reader log i j told)
    (hi : i.deferred.Pairwise Candidate.Before) : j.deferred.Pairwise Candidate.Before := by
  cases h with
  | invalid mem fresh opens invalid => exact hi
  | @tried _ c _ offered fresh tries =>
    have hothers : (i.others c.hash).Pairwise Candidate.Before := hi.filter _
    cases tries with
    | applied enrolled roster => exact hothers
    | misdirected secret roster => exact hothers
    | waits missing => exact Progress.pairwise_insertCandidate hothers
    | refused enabled refused => exact hothers

theorem Moves.ordered (h : Moves self reader log i j told)
    (hi : i.deferred.Pairwise Candidate.Before) : j.deferred.Pairwise Candidate.Before := by
  induction h with
  | refl => exact hi
  | snoc before last ih => exact last.ordered ih

theorem Reached.ordered (h : Reached self reader log told i) :
    i.deferred.Pairwise Candidate.Before := by
  refine h.invariant (P := fun _ i => i.deferred.Pairwise Candidate.Before) ?_ ?_ ?_
  · exact fun keys => List.Pairwise.nil
  · exact fun keys hi => hi
  · exact fun _ hi hm => hm.ordered hi

omit [Suite] in
/-- Entries of different hashes are determined by their order. -/
theorem eq_of_perm_of_ordered {l' : List Candidate} (perm : l.Perm l')
    (nodup : (l'.map (·.hash)).Nodup) (hl : l.Pairwise Candidate.Before)
    (hl' : l'.Pairwise Candidate.Before) : l = l' := by
  refine perm.eq_of_pairwise (fun c d hc hd hcd hdc => ?_) hl hl'
  have hhash : c.hash = d.hash := EntryHash.totalOrder_le.antisymm hcd hdc
  exact List.inj_on_of_nodup_map nodup (perm.mem_iff.1 hc) hd hhash

/-! ## Rounds that change nothing -/

namespace Progress

variable {p : Progress}

omit [Suite] in
theorem insert_others (hp : (p.index.deferred.map (·.hash)).Nodup)
    (ordered : p.index.deferred.Pairwise Candidate.Before) (hc : c ∈ p.index.deferred) :
    insertCandidate c (p.index.others c.hash) = p.index.deferred :=
  eq_of_perm_of_ordered ((insertCandidate_perm c _).trans (cons_others_perm hp hc)) hp
    (pairwise_insertCandidate (ordered.filter _)) ordered

/-- An entry that cannot be enrolled is put back. -/
theorem consider_of_not_enabled (self : Participant)
    (h : ¬ p.index.state.roster.Enabled c.author c.statement) :
    p.consider self c = (false, p.defer c) := by
  rcases consider_cases self p c with ⟨r, henrol, -, -⟩ | ⟨m, n, hs, -, -⟩ | ⟨-, hc⟩ | ⟨hen, -, -⟩
  · exact absurd (Roster.enrol_ok henrol).1 h
  · rw [hs] at h
    exact absurd trivial h
  · exact hc
  · exact absurd hen h

variable (hp : (p.index.deferred.map (·.hash)).Nodup)
  (ordered : p.index.deferred.Pairwise Candidate.Before) (settled : p.index.Settled)

include hp ordered settled

theorem retryEntry_of_settled (self : Participant) (hash : EntryHash) :
    p.retryEntry self hash = (false, p) := by
  unfold retryEntry
  split
  · next c hc =>
    obtain ⟨hmem, rfl⟩ := waiting?_eq_some hc
    have hne : ¬ (p.release c.hash).index.state.roster.Enabled c.author c.statement :=
      settled c hmem
    rw [consider_of_not_enabled self hne]
    simp only [release, defer, insert_others hp ordered hmem]
  · rfl

theorem retryAll_of_settled (self : Participant) (hashes : List EntryHash) :
    p.retryAll self hashes = (false, p) := by
  induction hashes with
  | nil => rfl
  | cons hash rest ih =>
    simp only [retryAll, retryEntry_of_settled hp ordered settled, ih, Bool.or_self]

/-- Nothing comes of trying the waiting entries of a settled index again. -/
theorem finish_of_settled (self : Participant) :
    p.finish self =
      { p with summary := { p.summary with deferred := p.index.deferred.length } } := by
  have hretry : p.retry self (p.index.deferred.length + 1) = p := by
    simp only [retry, retryOnce, retryAll_of_settled hp ordered settled]
  simp only [finish, hretry]

end Progress

/-- While nobody joins, trying an entry lets nothing wait that can be enrolled. -/
theorem Tries.settled (h : Tries self i c j told) (hi : i.Settled)
    (roster : j.state.roster = i.state.roster) : j.Settled := by
  have hothers : ∀ d ∈ i.others c.hash, ¬ j.state.roster.Enabled d.author d.statement := by
    intro d hd
    rw [roster]
    exact hi d (Index.mem_others.1 hd).1
  cases h with
  | applied enrolled change => exact hothers
  | misdirected secret change => exact hothers
  | refused enabled refused => exact hothers
  | waits missing =>
    intro d hd
    rcases List.mem_cons.1 ((Progress.insertCandidate_perm c _).mem_iff.1 hd) with rfl | hd
    · exact missing
    · exact hothers d hd

/-- A batch of one entry ends where that entry is taken, if nothing that waits then can be
enrolled. -/
theorem Reached.update_of_settled (h : Reached self reader log told i)
    (settled : ((Progress.start i).take self reader e).index.Settled) :
    i.update self reader [e] = { (Progress.start i).take self reader e with
      summary := { ((Progress.start i).take self reader e).summary with
        deferred := ((Progress.start i).take self reader e).index.deferred.length } } := by
  have htidy := h.tidy.mono fun d hd => List.mem_append_left [e] hd
  have hrun : Progress.Runs self reader (log ++ [e]) (.start i)
      ((Progress.start i).take self reader e) := Progress.runs_take (by simp)
  obtain ⟨more, hmoves, -⟩ := id hrun
  exact Progress.finish_of_settled (hrun.tidy htidy).nodup_deferred (hmoves.ordered h.ordered)
    settled self

/-- A batch of one entry ends where that entry is taken, if nobody joins and nothing more waits. -/
theorem Reached.update_singleton (h : Reached self reader log told i)
    (roster : ((Progress.start i).take self reader e).index.state.roster = i.state.roster)
    (deferred : ((Progress.start i).take self reader e).index.deferred = i.deferred) :
    i.update self reader [e] = { (Progress.start i).take self reader e with
      summary := { ((Progress.start i).take self reader e).summary with
        deferred := i.deferred.length } } := by
  have hsettled : ((Progress.start i).take self reader e).index.Settled := by
    unfold Index.Settled
    rw [deferred, roster]
    exact h.settled
  rw [h.update_of_settled hsettled, deferred]

/-! ## A batch of entries that were delivered before -/

namespace Progress

variable {p : Progress}

/-- An entry that is known when it can be opened is counted and nothing else. -/
theorem take_of_known (self : Participant) (h : Opens reader e → p.index.knows e.hash = true) :
    p.take self reader e = if p.index.knows e.hash then p.duplicate else p.unreadable := by
  unfold take
  split
  · rfl
  · next hnot =>
    cases ho : openEntry reader e with
    | error cause => rfl
    | ok found => exact absurd (h ⟨found.1, found.2, ho⟩) hnot

/-- The counts of a batch of entries that are known when they can be opened. -/
theorem foldl_take_of_known (self : Participant)
    (h : ∀ e ∈ entries, Opens reader e → p.index.knows e.hash = true) :
    entries.foldl (take self reader) p = { p with summary := { p.summary with
      duplicates := p.summary.duplicates + entries.countP (p.index.knows ·.hash)
      failed := p.summary.failed + entries.countP (!p.index.knows ·.hash) } } := by
  induction entries generalizing p with
  | nil => rfl
  | cons e rest ih =>
    have hrest : ∀ e ∈ rest, Opens reader e → p.index.knows e.hash = true :=
      fun e he => h e (List.mem_cons_of_mem _ he)
    rw [List.foldl_cons, take_of_known self (h e List.mem_cons_self)]
    by_cases hk : p.index.knows e.hash = true
    · have hknown : (e :: rest).countP (p.index.knows ·.hash) =
          rest.countP (p.index.knows ·.hash) + 1 := List.countP_cons_of_pos hk
      have hfailed : (e :: rest).countP (!p.index.knows ·.hash) =
          rest.countP (!p.index.knows ·.hash) := List.countP_cons_of_neg (by simp [hk])
      rw [if_pos hk, ih (p := p.duplicate) hrest, hknown, hfailed]
      simp only [duplicate, Nat.add_assoc, Nat.add_comm 1]
    · have hknown : (e :: rest).countP (p.index.knows ·.hash) =
          rest.countP (p.index.knows ·.hash) := List.countP_cons_of_neg hk
      have hfailed : (e :: rest).countP (!p.index.knows ·.hash) =
          rest.countP (!p.index.knows ·.hash) + 1 := List.countP_cons_of_pos (by simp [hk])
      rw [if_neg hk, ih (p := p.unreadable) hrest, hknown, hfailed]
      simp only [unreadable, Nat.add_assoc, Nat.add_comm 1]

end Progress

/-- Entries that were delivered before, in whatever order and however often, leave an index as it
is.  Nothing is told of them; those that are done with or wait count as duplicates, and those that
cannot be opened fail again. -/
theorem Reached.update_of_delivered (h : Reached self reader log told i)
    (delivered : ∀ e ∈ entries, e ∈ log) : i.update self reader entries =
      ⟨i, ⟨0, entries.countP (i.knows ·.hash), 0, entries.countP (!i.knows ·.hash),
        i.deferred.length⟩, []⟩ := by
  have htake := Progress.foldl_take_of_known (p := .start i) self
    fun e he ho => h.knows (delivered e he) ho
  rw [Index.update, htake]
  -- the counts apart, the batch is where it began
  rw [Progress.finish_of_settled h.tidy.nodup_deferred h.ordered h.settled]
  simp only [Progress.start, Nat.zero_add]

end SecureGroup.Metadata

namespace SecureGroup.Metadata

attribute [local instance] Suite.plain

open Plain

/-- What comes again was applied, waits, was dropped, is a secret for someone else, or cannot be
opened. -/
theorem update_of_delivered_mixed :
    let l := joinedEarly ++ [entry 9 (joined 8 7 9), entry 5 (announced 1 2), .at 0 [],
      entry 2 (.secretAdded (key 2).pub.bytes.toList (key 3).pub.bytes.toList 0 ⟨.fit 32 [], []⟩)]
    let p := (Index.empty (chains 2)).update (participant 1 2) reader l
    let again := l.reverse ++ l
    p.summary.misdirected = 1 ∧ p.index.deferred.length = 1 ∧
      p.index.update (participant 1 2) reader again =
        ⟨p.index, ⟨0, again.countP (p.index.knows ·.hash), 0,
          again.countP (!p.index.knows ·.hash), p.index.deferred.length⟩, []⟩ := by
  have hdelivered : ∀ (l : List Log.Entry), ∀ e ∈ l.reverse ++ l, e ∈ [] ++ l := by
    intro l e he
    simpa using he
  intro l p again
  have hreached : Reached (participant 1 2) reader ([] ++ l) _ p.index :=
    .update l (.empty (chains 2))
  refine ⟨by decide +kernel, by decide +kernel, ?_⟩
  exact Reached.update_of_delivered hreached (hdelivered l)

end SecureGroup.Metadata
