import SecureGroup.Proofs.Convergence
import SecureGroup.Proofs.Redelivery

/-!
# How long an entry waits

An entry that refers to someone who is not known waits, and every batch tries it again at its end.
Until then no entry takes it out of those that wait (`Progress.mem_deferred_take`), and whoever is
tried is done with or goes on waiting (`Progress.waits_or_resolved_consider`).  So an entry waits as
long as it cannot be enrolled, and at the end of the very batch that makes it possible it has taken
effect or is refused (`Reached.waits_or_resolved`).
-/

namespace SecureGroup.Metadata

variable [Suite] {self : Participant} {reader : Log.Reader} {log entries : List Log.Entry}
  {told : List Notice} {i j : Index} {c d : Candidate} {e : Log.Entry}

namespace Progress

variable {p q : Progress}

/-! ## Trying one entry -/

/-- Whoever the entry refers to is known; the entry took effect and was told of, or it is
refused. -/
structure Resolved (p : Progress) (c : Candidate) : Prop where
  enabled : p.index.state.roster.Enabled c.author c.statement
  outcome : (c.notice ∈ p.notices ∧ p.index.state.roster.Holds c.statement) ∨
    p.index.state.roster.Refused c.statement

/-- What is resolved stays so for the rest of the batch. -/
theorem Resolved.runs (h : p.Resolved c) (run : Runs self reader log p q) : q.Resolved c := by
  obtain ⟨more, hmoves, hnotices⟩ := run
  have hwithin := hmoves.extends.roster.within
  refine ⟨h.enabled.mono hwithin, h.outcome.imp ?_ (·.mono hwithin)⟩
  rintro ⟨hnotice, hholds⟩
  rw [hnotices]
  exact ⟨List.mem_append_left more hnotice, hholds.mono hwithin⟩

/-- Trying an entry takes no other one out of those that wait. -/
theorem mem_deferred_consider (self : Participant) (hd : d ∈ p.index.deferred) :
    d ∈ (p.consider self c).2.index.deferred := by
  rcases consider_cases self p c with ⟨r, -, -, h⟩ | ⟨m, n, -, -, h⟩ | ⟨-, h⟩ | ⟨-, -, h⟩
  · rw [h]
    exact hd
  · rw [h]
    exact hd
  · rw [h]
    exact (insertCandidate_perm c _).mem_iff.2 (List.mem_cons_of_mem c hd)
  · rw [h]
    exact hd

theorem mem_deferred_take (self : Participant) (reader : Log.Reader) (e : Log.Entry)
    (hd : d ∈ p.index.deferred) : d ∈ (p.take self reader e).index.deferred := by
  unfold take
  split
  · exact hd
  · split
    · exact hd
    · split
      · exact hd
      · exact mem_deferred_consider self hd

theorem mem_deferred_foldl_take (self : Participant) (reader : Log.Reader)
    (entries : List Log.Entry) (hd : d ∈ p.index.deferred) :
    d ∈ (entries.foldl (take self reader) p).index.deferred := by
  induction entries generalizing p with
  | nil => exact hd
  | cons e rest ih => exact ih (mem_deferred_take self reader e hd)

/-- An entry that is tried waits or is resolved, unless it is a secret. -/
theorem waits_or_resolved_consider (self : Participant) (p : Progress)
    (noSecret : c.statement.sent? = none) :
    c ∈ (p.consider self c).2.index.deferred ∨ (p.consider self c).2.Resolved c := by
  rcases consider_cases self p c with ⟨r, he, hr, h⟩ | ⟨m, n, hs, -, -⟩ | ⟨-, h⟩ | ⟨hen, href, h⟩
  · rw [h]
    have hwithin : p.index.state.roster.Within r := (Roster.extends_enrol he).within
    refine Or.inr ⟨?_, Or.inl ⟨List.mem_append_right _ List.mem_cons_self, ?_⟩⟩
    · exact hr ▸ (Roster.enrol_ok he).1.mono hwithin
    · exact hr ▸ Roster.holds_of_enrol he
  · rw [hs] at noSecret
    cases noSecret
  · rw [h]
    exact Or.inl ((insertCandidate_perm c _).mem_iff.2 List.mem_cons_self)
  · rw [h]
    exact Or.inr ⟨hen, Or.inr href⟩

theorem runs_retry (hp : p.index.Tidy self reader log) (rounds : Nat) :
    Runs self reader log p (p.retry self rounds) := by
  induction rounds generalizing p with
  | zero => exact Runs.refl p
  | succ rounds ih =>
    have hround : Runs self reader log p (p.retryOnce self).2 := runs_retryAll hp _
    unfold retry
    split
    · next q hq =>
      rw [hq] at hround
      exact hround.trans (ih (hround.tidy hp))
    · next q hq =>
      rw [hq] at hround
      exact hround

/-! ## Trying all that wait

What comes of an entry when it is tried, if it does not wait then, and what the rest of the batch
keeps, comes of it when all that wait are tried again, if it does not wait after that. -/

section

variable {P : Progress → Prop}

theorem waits_or_retryEntry
    (tried : ∀ q : Progress, c ∈ (q.consider self c).2.index.deferred ∨ P (q.consider self c).2)
    (hp : p.index.Tidy self reader log) (hc : c ∈ p.index.deferred) (hash : EntryHash) :
    c ∈ (p.retryEntry self hash).2.index.deferred ∨ P (p.retryEntry self hash).2 := by
  unfold retryEntry
  split
  · next d hd =>
    obtain ⟨hmem, rfl⟩ := waiting?_eq_some hd
    by_cases hsame : c.hash = d.hash
    · obtain rfl := List.inj_on_of_nodup_map hp.nodup_deferred hc hmem hsame
      exact tried _
    · exact Or.inl (mem_deferred_consider self (Index.mem_others.2 ⟨hc, hsame⟩))
  · exact Or.inl hc

theorem waits_or_retryAll
    (tried : ∀ q : Progress, c ∈ (q.consider self c).2.index.deferred ∨ P (q.consider self c).2)
    (kept : ∀ {p q : Progress}, Runs self reader log p q → P p → P q)
    (hp : p.index.Tidy self reader log) (hc : c ∈ p.index.deferred) (hashes : List EntryHash) :
    c ∈ (p.retryAll self hashes).2.index.deferred ∨ P (p.retryAll self hashes).2 := by
  induction hashes generalizing p with
  | nil => exact Or.inl hc
  | cons hash rest ih =>
    have hq := (runs_retryEntry hp hash).tidy hp
    rcases waits_or_retryEntry tried hp hc hash with hwaits | hdone
    · exact ih hq hwaits
    · exact Or.inr (kept (runs_retryAll hq rest) hdone)

theorem waits_or_retry
    (tried : ∀ q : Progress, c ∈ (q.consider self c).2.index.deferred ∨ P (q.consider self c).2)
    (kept : ∀ {p q : Progress}, Runs self reader log p q → P p → P q)
    (hp : p.index.Tidy self reader log) (hc : c ∈ p.index.deferred) (rounds : Nat) :
    c ∈ (p.retry self rounds).index.deferred ∨ P (p.retry self rounds) := by
  induction rounds generalizing p with
  | zero => exact Or.inl hc
  | succ rounds ih =>
    have hround : Runs self reader log p (p.retryOnce self).2 := runs_retryAll hp _
    have hcases : c ∈ (p.retryOnce self).2.index.deferred ∨ P (p.retryOnce self).2 :=
      waits_or_retryAll tried kept hp hc _
    unfold retry
    split
    · next q hq =>
      rw [hq] at hround hcases
      rcases hcases with hwaits | hdone
      · exact ih (hround.tidy hp) hwaits
      · exact Or.inr (kept (runs_retry (hround.tidy hp) rounds) hdone)
    · next q hq =>
      rw [hq] at hcases
      exact hcases

end

end Progress

/-! ## Batches -/

/-- What a replica does with its index later: it takes batches, and its keys change. -/
inductive Index.Later (self : Participant) (reader : Log.Reader) (i : Index) : Index → Prop
  | refl : Later self reader i i
  | withKeys {j : Index} (keys : ChainKeys) (before : Later self reader i j) :
      Later self reader i (j.withKeys keys)
  | update {j : Index} (entries : List Log.Entry) (before : Later self reader i j) :
      Later self reader i (j.update self reader entries).index

namespace Reached

theorem extends_update (h : Reached self reader log told i) (entries : List Log.Entry) :
    i.Extends (i.update self reader entries).index :=
  h.shows_one_relation.2.2 entries

theorem later (h : Reached self reader log told i) (hj : i.Later self reader j) :
    ∃ log' told', Reached self reader log' told' j := by
  induction hj with
  | refl => exact ⟨log, told, h⟩
  | withKeys keys before ih =>
    obtain ⟨log', told', hreached⟩ := ih
    exact ⟨log', told', hreached.withKeys keys⟩
  | update entries before ih =>
    obtain ⟨log', told', hreached⟩ := ih
    exact ⟨_, _, hreached.update entries⟩

/-- An entry that waits before a batch waits after it, and cannot be enrolled; or it is resolved. -/
theorem waits_or_resolved (h : Reached self reader log told i) (hc : c ∈ i.deferred)
    (noSecret : c.statement.sent? = none) (entries : List Log.Entry) :
    c ∈ (i.update self reader entries).index.deferred ∧
        ¬ (i.update self reader entries).index.state.roster.Enabled c.author c.statement ∨
      (i.update self reader entries).Resolved c := by
  have htidy := h.tidy.mono fun d hd => List.mem_append_left entries hd
  have hrun : Progress.Runs self reader (log ++ entries) (.start i) _ :=
    Progress.runs_foldl_take entries fun d hd => List.mem_append_right log hd
  have hwaits := Progress.mem_deferred_foldl_take (p := .start i) self reader entries hc
  rcases Progress.waits_or_retry (P := fun q => q.Resolved c)
    (fun q => Progress.waits_or_resolved_consider self q noSecret)
    (fun run hresolved => hresolved.runs run) (hrun.tidy htidy) hwaits _ with hc' | hresolved
  · exact Or.inl ⟨hc', (h.update entries).settled c hc'⟩
  · exact Or.inr ⟨hresolved.enabled, hresolved.outcome⟩

/-- An entry waits as long as it cannot be enrolled. -/
theorem waits_while (h : Reached self reader log told i) (hc : c ∈ i.deferred)
    (noSecret : c.statement.sent? = none) (hj : i.Later self reader j)
    (hne : ¬ j.state.roster.Enabled c.author c.statement) : c ∈ j.deferred := by
  induction hj with
  | refl => exact hc
  | withKeys keys before ih => exact ih hne
  | update entries before ih =>
    obtain ⟨log', told', hreached⟩ := h.later before
    have hwithin := (hreached.extends_update entries).roster.within
    have hbefore := ih fun hen => hne (hen.mono hwithin)
    rcases hreached.waits_or_resolved hbefore noSecret entries with ⟨hc', -⟩ | hresolved
    · exact hc'
    · exact absurd hresolved.enabled hne

/-- An entry that is delivered for the first time when it can be enrolled takes effect at once. -/
theorem update_of_enabled (h : Reached self reader log told i) (hc : c.Of self reader e)
    (new : e.hash ∉ log.map (·.hash)) (noSecret : c.statement.sent? = none)
    (enabled : i.state.roster.Enabled c.author c.statement)
    (free : ¬ i.state.roster.Refused c.statement) :
    (∃ more, (i.update self reader [e]).notices = c.notice :: more) ∧
      (i.update self reader [e]).index.state.roster.Holds c.statement := by
  have htake := Progress.take_of_candidate (p := .start i) hc (h.tidy.knows_eq_false new)
  have hrun := Index.runs_update h.tidy [e] []
  rw [List.append_nil, List.foldl_cons, List.foldl_nil, htake] at hrun
  obtain ⟨more, hmoves, hnotices⟩ := hrun
  rcases Progress.consider_cases self (.start i) c with ⟨r, he, hr, hconsider⟩ |
    ⟨m, n, hs, -, -⟩ | ⟨hne, -⟩ | ⟨-, href, -⟩
  · rw [hconsider] at hmoves hnotices
    have hwithin := hmoves.extends.roster.within
    refine ⟨⟨more, hnotices⟩, Roster.Holds.mono ?_ hwithin⟩
    exact hr ▸ Roster.holds_of_enrol he
  · rw [hs] at noSecret
    cases noSecret
  · exact absurd enabled hne
  · exact absurd href free

/-- An entry that is delivered for the first time when it cannot be enrolled waits, and nothing else
happens. -/
theorem update_of_not_enabled (h : Reached self reader log told i) (hc : c.Of self reader e)
    (new : e.hash ∉ log.map (·.hash))
    (disabled : ¬ i.state.roster.Enabled c.author c.statement) :
    i.update self reader [e] = ⟨⟨i.state, i.handled, Progress.insertCandidate c i.deferred⟩,
      ⟨0, 0, 0, 0, i.deferred.length + 1⟩, []⟩ := by
  have htake := Progress.take_of_candidate (p := .start i) hc (h.tidy.knows_eq_false new)
  rw [Progress.consider_of_not_enabled self disabled] at htake
  have hperm := Progress.insertCandidate_perm c i.deferred
  have hsettled : ((Progress.start i).take self reader e).index.Settled := by
    rw [htake]
    intro d hd
    rcases List.mem_cons.1 (hperm.mem_iff.1 hd) with rfl | hd
    · exact disabled
    · exact h.settled d hd
  rw [h.update_of_settled hsettled, htake]
  show (⟨_, ⟨0, 0, 0, 0, (Progress.insertCandidate c i.deferred).length⟩, _⟩ : Progress) = _
  rw [hperm.length_eq]
  rfl

end Reached

end SecureGroup.Metadata
