import SecureGroup.Proofs.Rejection
import SecureGroup.Proofs.Waiting

/-!
# A batch ends when nothing that waits gets further

At the end of a batch the waiting entries are tried in passes, until a pass is done with none of
them (`Progress.Passes`).  Each pass but the last leaves fewer entries waiting, so there is at most
one pass more than there were entries (`Progress.exists_passes`), and the bound that a batch sets
itself is never what stops it (`Progress.Passes.retry_eq`).  After the last pass no handler of a
waiting entry gets further, and every entry that waited waits still or is done with.  Main
statement: `Reached.quiescent`.
-/

namespace SecureGroup.Metadata

variable [Suite] {self : Participant} {reader : Log.Reader} {log entries : List Log.Entry}
  {told : List Notice} {i : Index} {c : Candidate} {s : State} {author : PublicKey} {event : Event}
  {said : Statement}

/-! ## Passes over the waiting entries -/

namespace Progress

variable {p q r : Progress} {n rounds : Nat}

/-- Passes over the waiting entries, and their number: each is done with one of the entries, except
for the last. -/
inductive Passes (self : Participant) : Progress → Nat → Progress → Prop
  | last {p q : Progress} (idle : p.retryOnce self = (false, q)) : Passes self p 1 q
  | more {p q r : Progress} {n : Nat} (done : p.retryOnce self = (true, q))
      (rest : Passes self q n r) : Passes self p (n + 1) r

/-- The passes come to an end.  Their number and that of the entries that wait on exceed the number
of those that waited by one at most. -/
theorem exists_passes (self : Participant) (p : Progress) :
    ∃ n q, Passes self p n q ∧ n + q.index.deferred.length ≤ p.index.deferred.length + 1 := by
  induction hlength : p.index.deferred.length using Nat.strongRecOn generalizing p with
  | ind length ih =>
    subst hlength
    obtain ⟨hle, hlt⟩ := length_retryAll self p (p.index.deferred.map (·.hash))
    rw [← retryOnce] at hle hlt
    cases hpass : p.retryOnce self with
    | mk done q =>
      rw [hpass] at hle hlt
      cases done with
      | false =>
        have hkept : q.index.deferred.length ≤ p.index.deferred.length := hle
        exact ⟨1, q, .last hpass, by omega⟩
      | true =>
        have hfewer : q.index.deferred.length < p.index.deferred.length := hlt rfl
        obtain ⟨n, r, hpasses, hn⟩ := ih _ hfewer q rfl
        exact ⟨n + 1, r, .more hpass hpasses, by omega⟩

/-- No bound stops the passes that is as large as their number. -/
theorem Passes.retry_eq (h : Passes self p n q) (bound : n ≤ rounds) : p.retry self rounds = q := by
  induction h generalizing rounds with
  | last idle =>
    cases rounds with
    | zero => omega
    | succ rounds => simp only [retry, idle]
  | more done rest ih =>
    cases rounds with
    | zero => omega
    | succ rounds =>
      simp only [retry, done]
      exact ih (Nat.le_of_succ_le_succ bound)

theorem waits_or_handled_consider (self : Participant) (p : Progress) (c : Candidate) :
    c ∈ (p.consider self c).2.index.deferred ∨ c.hash ∈ (p.consider self c).2.index.handled := by
  rcases consider_cases self p c with ⟨r, -, -, h⟩ | ⟨m, n, -, -, h⟩ | ⟨-, h⟩ | ⟨-, -, h⟩
  · rw [h]
    exact Or.inr List.mem_cons_self
  · rw [h]
    exact Or.inr List.mem_cons_self
  · rw [h]
    exact Or.inl ((insertCandidate_perm c _).mem_iff.2 List.mem_cons_self)
  · rw [h]
    exact Or.inr List.mem_cons_self

theorem Runs.handled_subset (h : Runs self reader log p q) :
    p.index.handled ⊆ q.index.handled := by
  obtain ⟨told, hmoves, -⟩ := h
  exact hmoves.extends.handled

end Progress

/-! ## The handlers of waiting entries -/

omit [Suite] in
/-- The errors that let an entry wait. -/
theorem isMissingDependency_iff {cause : Error} : cause.isMissingDependency = true ↔
    (∃ m, cause = .unknownMember m) ∨ (∃ d, cause = .unknownDevice d) ∨
      ∃ m, cause = .notAdmin m := by
  cases cause <;> simp [Error.isMissingDependency]

/-- A handler fails for someone who is not known as long as its statement cannot be enrolled. -/
theorem State.handle_of_not_enabled (hsaid : event.statement self author = .ok said)
    (disabled : ¬ s.roster.Enabled author said) :
    ∃ cause, s.handle self author event = (.error cause, s) ∧ cause.isMissingDependency = true := by
  rw [handle, hsaid]
  cases henrol : s.roster.enrol author said with
  | ok r => exact absurd (Roster.enrol_ok henrol).1 disabled
  | error cause =>
    rcases Roster.enrol_error henrol with ⟨hmissing, -⟩ | ⟨-, -, henabled, -⟩
    · exact ⟨cause, step_of_error self henrol, hmissing⟩
    · exact absurd henabled disabled

/-! ## Main statement -/

namespace Reached

/-- An entry that waits at any time of a batch waits at its end, or is done with by then. -/
theorem waits_or_handled (h : Reached self reader log told i) (before after : List Log.Entry)
    (hc : c ∈ (before.foldl (Progress.take self reader) (.start i)).index.deferred) :
    c ∈ (i.update self reader (before ++ after)).index.deferred ∨
      c.hash ∈ (i.update self reader (before ++ after)).index.handled := by
  have htidy := h.tidy.mono fun d hd => List.mem_append_left (before ++ after) hd
  have hrun : Progress.Runs self reader (log ++ (before ++ after)) (.start i) _ :=
    Progress.runs_foldl_take (before ++ after) fun d hd => List.mem_append_right log hd
  have hwaits := Progress.mem_deferred_foldl_take self reader after hc
  rw [← List.foldl_append] at hwaits
  exact Progress.waits_or_retry (P := fun q => c.hash ∈ q.index.handled)
    (fun q => Progress.waits_or_handled_consider self q c)
    (fun run hhandled => run.handled_subset hhandled) (hrun.tidy htidy) hwaits _

/-- The waiting entries are tried again in at most one pass more than there are of them, and the
batch ends with what the last pass leaves.  Then the handler of every entry that waits fails in that
state, for a member, a device or an admin who is not known.  No entry is lost: what waits before the
batch or after some entries of it is at the end still the same waiting entry, or done with. -/
theorem quiescent (h : Reached self reader log told i) (entries : List Log.Entry) :
    let taken := entries.foldl (Progress.take self reader) (.start i)
    let p := i.update self reader entries
    (∃ n q, taken.Passes self n q ∧ n ≤ taken.index.deferred.length + 1 ∧
      p.index = q.index ∧ p.notices = q.notices) ∧
    (∀ c ∈ p.index.deferred, ∃ cause,
      p.index.state.handle self c.author c.event = (.error cause, p.index.state) ∧
        ((∃ m, cause = .unknownMember m) ∨ (∃ d, cause = .unknownDevice d) ∨
          ∃ m, cause = .notAdmin m)) ∧
    ∀ before after, entries = before ++ after →
      ∀ c ∈ (before.foldl (Progress.take self reader) (.start i)).index.deferred,
        (c ∈ p.index.deferred ∧ c.hash ∉ p.index.handled) ∨
          (c.hash ∈ p.index.handled ∧ c ∉ p.index.deferred) := by
  intro taken p
  have hreached : Reached self reader _ _ p.index := h.update entries
  refine ⟨?_, ?_, ?_⟩
  · obtain ⟨n, q, hpasses, hn⟩ := Progress.exists_passes self taken
    have hbound : n ≤ taken.index.deferred.length + 1 := Nat.le_of_add_right_le hn
    have hretry := hpasses.retry_eq hbound
    refine ⟨n, q, hpasses, hbound, ?_, ?_⟩
    · rw [← hretry]
      rfl
    · rw [← hretry]
      rfl
  · intro c hc
    obtain ⟨-, -, -, -, -, -, hsaid⟩ := hreached.tidy.offered c hc
    obtain ⟨cause, hhandle, hmissing⟩ :=
      State.handle_of_not_enabled hsaid (hreached.settled c hc)
    exact ⟨cause, hhandle, isMissingDependency_iff.1 hmissing⟩
  · rintro before after rfl c hc
    rcases h.waits_or_handled before after hc with hwaits | hhandled
    · exact Or.inl ⟨hwaits, hreached.tidy.not_mem_handled hwaits⟩
    · exact Or.inr ⟨hhandled, fun hwaits => hreached.tidy.not_mem_handled hwaits hhandled⟩

end Reached

end SecureGroup.Metadata

/-! ## One entry gets further, another one does not -/

namespace SecureGroup.Metadata

attribute [local instance] Suite.plain

open Plain

/-- Two entries wait; the inviter of the first one is announced then, that of the second never. -/
theorem quiescent_joinedEarly :
    let l := [entry 6 (joined 7 5 6), entry 4 (joined 1 3 4), entry 2 (announced 1 2)]
    let taken := l.foldl (Progress.take (participant 1 2) reader) (.start (.empty (chains 2)))
    let p := (Index.empty (chains 2)).update (participant 1 2) reader l
    (∃ n q, taken.Passes (participant 1 2) n q ∧ n ≤ 3 ∧ p.index = q.index) ∧
      p.index.deferred.length = 1 ∧
      ∀ c ∈ p.index.deferred, ∃ cause,
        p.index.state.handle (participant 1 2) c.author c.event =
          (.error cause, p.index.state) := by
  intro l taken p
  have hreached : Reached (participant 1 2) reader [] [] (.empty (chains 2)) := .empty (chains 2)
  have hwaiting : taken.index.deferred.length = 2 ∧ p.index.deferred.length = 1 := by
    decide +kernel
  obtain ⟨⟨n, q, hpasses, hn, hindex, -⟩, hfails, -⟩ := hreached.quiescent l
  refine ⟨⟨n, q, hpasses, ?_, hindex⟩, hwaiting.2, fun c hc => ?_⟩
  · exact Nat.le_trans hn (Nat.le_of_eq (congrArg (· + 1) hwaiting.1))
  · obtain ⟨cause, hhandle, -⟩ := hfails c hc
    exact ⟨cause, hhandle⟩

end SecureGroup.Metadata
