import Mathlib.Data.List.Nodup
import SecureGroup.Metadata.Index
import SecureGroup.Proofs.Roster

/-!
# Replays

A batch is a sequence of moves (`Move`): an entry whose own claims do not hold is done with, or an
entry that is not done with is tried on the roster.  `Progress.consider_cases` says what trying an
entry comes to, in terms of the rules of the roster alone, and `runs_take` and `runs_retryAll` that
a batch is made of nothing else.  Every move keeps the books of an index in order (`Move.tidy`).
-/

namespace SecureGroup.Metadata

/-! ## Trying an entry -/

/-- An error that more of the log may remove is not that a secret is for someone else. -/
theorem ne_misdirected {cause : Error} (h : cause.isMissingDependency = true) (m : PublicKey) :
    cause ≠ .misdirected m := by
  rintro rfl
  cases h

namespace State

@[simp]
theorem roster_noteSent (s : State) (recipient : PublicKey) (chainId : UInt64) :
    (s.noteSent recipient chainId).roster = s.roster := by
  unfold noteSent
  split <;> rfl

@[simp]
theorem keys_noteSent (s : State) (recipient : PublicKey) (chainId : UInt64) :
    (s.noteSent recipient chainId).keys = s.keys := by
  unfold noteSent
  split <;> rfl

@[simp]
theorem roster_learn (s : State) (device author : PublicKey) (chain : ChainKey) :
    (s.learn device author chain).roster = s.roster := by
  unfold learn
  split <;> rfl

variable [Suite] {self : Participant} {s : State} {author : PublicKey} {said : Statement}
  {r : Roster} {cause : Error} {x : PublicKey × UInt64}

omit [Suite] in
theorem mem_sent_noteSent {recipient : PublicKey} {chainId : UInt64} :
    x ∈ (s.noteSent recipient chainId).sent ↔ x ∈ s.sent ∨ x = (recipient, chainId) := by
  unfold noteSent
  split
  · next hm =>
    constructor
    · exact Or.inl
    · rintro (hx | rfl)
      · exact hx
      · exact hm
  · simp

omit [Suite] in
theorem nodup_sent_noteSent {recipient : PublicKey} {chainId : UInt64} (h : s.sent.Nodup) :
    (s.noteSent recipient chainId).sent.Nodup := by
  unfold noteSent
  split
  · exact h
  · next hnew =>
    refine List.nodup_append.2 ⟨h, by simp, ?_⟩
    intro x hx y hy he
    rw [List.mem_singleton.1 hy] at he
    exact hnew (he ▸ hx)

omit [Suite] in
@[simp]
theorem sent_learn (s : State) (device author : PublicKey) (chain : ChainKey) :
    (s.learn device author chain).sent = s.sent := by
  unfold learn
  split <;> rfl

/-- A statement notes that a chain was sent when it is the local device that sends it. -/
theorem sent_step (self : Participant) (s : State) (author : PublicKey) (said : Statement) :
    (s.step self author said).2.sent = match said with
      | .sent recipient chainId _ =>
        if author = self.ids.device then (s.noteSent recipient chainId).sent else s.sent
      | _ => s.sent := by
  cases said with
  | sent recipient chainId chain =>
    cases chain with
    | none => simp only [step]; split <;> rfl
    | some k => simp only [step, sent_learn]; split <;> rfl
  | announced pair => simp only [step]; split <;> rfl
  | joined pair inviter => simp only [step]; split <;> rfl
  | extended pair => simp only [step]; split <;> rfl
  | granted member => simp only [step]; split <;> rfl

theorem mem_sent_step : x ∈ (s.step self author said).2.sent ↔
    x ∈ s.sent ∨ author = self.ids.device ∧ said.sent? = some x := by
  rw [sent_step]
  cases said with
  | sent recipient chainId chain =>
    by_cases ha : author = self.ids.device
    · simp [ha, mem_sent_noteSent, Statement.sent?, eq_comm]
    · simp [ha]
  | announced pair => simp [Statement.sent?]
  | joined pair inviter => simp [Statement.sent?]
  | extended pair => simp [Statement.sent?]
  | granted member => simp [Statement.sent?]

theorem nodup_sent_step (self : Participant) (author : PublicKey) (said : Statement)
    (h : s.sent.Nodup) : (s.step self author said).2.sent.Nodup := by
  rw [sent_step]
  cases said with
  | sent recipient chainId chain =>
    dsimp only
    split
    · exact nodup_sent_noteSent h
    · exact h
  | announced pair => exact h
  | joined pair inviter => exact h
  | extended pair => exact h
  | granted member => exact h

/-- A statement changes the roster as its rule says. -/
theorem roster_step (self : Participant) (h : s.roster.enrol author said = .ok r) :
    (s.step self author said).2.roster = r := by
  cases said with
  | sent recipient chainId chain =>
    obtain rfl := Except.ok.inj h
    by_cases ha : author = self.ids.device
    · cases chain <;> simp [step, ha]
    · cases chain <;> simp [step, ha]
  | announced pair => simp [step, h]
  | joined pair inviter => simp [step, h]
  | extended pair => simp [step, h]
  | granted member => simp [step, h]

/-- A statement that has no place in the roster changes nothing. -/
theorem step_of_error (self : Participant) (h : s.roster.enrol author said = .error cause) :
    s.step self author said = (.error cause, s) := by
  cases said with
  | sent recipient chainId chain => cases h
  | announced pair => simp [step, h]
  | joined pair inviter => simp [step, h]
  | extended pair => simp [step, h]
  | granted member => simp [step, h]

/-- A statement that has its place is accepted, or is a secret for someone else. -/
theorem step_of_ok (self : Participant) (h : s.roster.enrol author said = .ok r) :
    (s.step self author said).1 = .ok () ∨ ∃ m i, said = .sent m i none ∧
      (s.step self author said).1 = .error (.misdirected m) ∧ r = s.roster := by
  cases said with
  | sent recipient chainId chain =>
    cases chain with
    | none => exact Or.inr ⟨recipient, chainId, rfl, rfl, (Except.ok.inj h).symm⟩
    | some k => exact Or.inl rfl
  | announced pair => simp [step, h]
  | joined pair inviter => simp [step, h]
  | extended pair => simp [step, h]
  | granted member => simp [step, h]

end State

variable [Suite] {self : Participant} {reader : Log.Reader}

namespace Progress

theorem consider_of_error {p : Progress} {c : Candidate} {cause : Error}
    (h : p.index.state.step self c.author c.statement = (.error cause, p.index.state))
    (hm : ∀ m, cause ≠ .misdirected m) : p.consider self c =
      if cause.isMissingDependency then (false, p.defer c) else (true, p.drop c.hash) := by
  cases cause with
  | misdirected m => exact absurd rfl (hm m)
  | _ => simp only [consider, h]; rfl

/-- What trying an entry comes to: it takes effect, it is a secret for someone else, it waits for
someone who is not known, or it is refused. -/
theorem consider_cases (self : Participant) (p : Progress) (c : Candidate) :
    (∃ r, p.index.state.roster.enrol c.author c.statement = .ok r ∧
        (p.index.state.step self c.author c.statement).2.roster = r ∧ p.consider self c =
          (true, (p.withState (p.index.state.step self c.author c.statement).2).accept c)) ∨
      (∃ m i, c.statement = .sent m i none ∧
        (p.index.state.step self c.author c.statement).2.roster = p.index.state.roster ∧
        p.consider self c =
          (true, (p.withState (p.index.state.step self c.author c.statement).2).misdirect c.hash)) ∨
      (¬ p.index.state.roster.Enabled c.author c.statement ∧
        p.consider self c = (false, p.defer c)) ∨
      (p.index.state.roster.Enabled c.author c.statement ∧
        p.index.state.roster.Refused c.statement ∧ p.consider self c = (true, p.drop c.hash)) := by
  cases h : p.index.state.roster.enrol c.author c.statement with
  | ok r =>
    have hr := State.roster_step self h
    rcases State.step_of_ok self h with hok | ⟨m, i, hs, hmis, rfl⟩
    · refine Or.inl ⟨r, rfl, hr, ?_⟩
      simp only [consider, hok]
    · refine Or.inr (Or.inl ⟨m, i, hs, hr, ?_⟩)
      simp only [consider, hmis]
  | error cause =>
    have hstep := State.step_of_error self h
    rcases Roster.enrol_error h with ⟨hmiss, hne⟩ | ⟨hmiss, hmis, he, hre⟩
    · refine Or.inr (Or.inr (Or.inl ⟨hne, ?_⟩))
      rw [consider_of_error hstep (ne_misdirected hmiss), if_pos hmiss]
    · refine Or.inr (Or.inr (Or.inr ⟨he, hre, ?_⟩))
      rw [consider_of_error hstep hmis, if_neg (by simp [hmiss])]

end Progress

/-! ## Moves -/

/-- What a candidate is made of: an entry that opens to an event whose own claims hold. -/
def Candidate.Of (self : Participant) (reader : Log.Reader) (e : Log.Entry) (c : Candidate) :
    Prop :=
  ∃ opened, Progress.openEntry reader e = .ok (opened, c.event) ∧ c.hash = e.hash ∧
    c.author = opened.sender ∧ c.event.statement self c.author = .ok c.statement

def Offered (self : Participant) (reader : Log.Reader) (log : List Log.Entry) (c : Candidate) :
    Prop :=
  ∃ e ∈ log, c.Of self reader e

/-- An entry is an event of someone who is in the group's log. -/
def Opens (reader : Log.Reader) (e : Log.Entry) : Prop :=
  ∃ opened event, Progress.openEntry reader e = .ok (opened, event)

/-- What becomes of an index when an entry is tried, and what is told of it. -/
inductive Tries (self : Participant) (i : Index) (c : Candidate) : Index → List Notice → Prop
  /-- It takes effect. -/
  | applied {r : Roster} (enrolled : i.state.roster.enrol c.author c.statement = .ok r)
      (roster : (i.state.step self c.author c.statement).2.roster = r) :
      Tries self i c ⟨(i.state.step self c.author c.statement).2, c.hash :: i.handled,
        i.others c.hash⟩ [c.notice]
  /-- It is a secret for someone else. -/
  | misdirected {m : PublicKey} {chainId : UInt64} (secret : c.statement = .sent m chainId none)
      (roster : (i.state.step self c.author c.statement).2.roster = i.state.roster) :
      Tries self i c ⟨(i.state.step self c.author c.statement).2, c.hash :: i.handled,
        i.others c.hash⟩ []
  /-- It waits for someone who is not known. -/
  | waits (missing : ¬ i.state.roster.Enabled c.author c.statement) :
      Tries self i c ⟨i.state, i.handled, Progress.insertCandidate c (i.others c.hash)⟩ []
  /-- It is refused. -/
  | refused (enabled : i.state.roster.Enabled c.author c.statement)
      (refused : i.state.roster.Refused c.statement) :
      Tries self i c ⟨i.state, c.hash :: i.handled, i.others c.hash⟩ []

/-- The state after a try is the state after the statement, whatever comes of the entry. -/
theorem Tries.state_eq {told : List Notice} {i j : Index} {c : Candidate}
    (h : Tries self i c j told) : j.state = (i.state.step self c.author c.statement).2 := by
  -- a statement that is not enrolled leaves the state as it is
  have hstays : (¬ ∃ r, i.state.roster.enrol c.author c.statement = .ok r) →
      i.state = (i.state.step self c.author c.statement).2 := by
    intro hne
    cases he : i.state.roster.enrol c.author c.statement with
    | ok r => exact absurd ⟨r, he⟩ hne
    | error cause => rw [State.step_of_error self he]
  cases h with
  | applied enrolled roster => rfl
  | misdirected secret roster => rfl
  | waits missing =>
    apply hstays
    rintro ⟨r, hr⟩
    exact missing (Roster.enrol_ok hr).1
  | refused enabled refused =>
    apply hstays
    rintro ⟨r, hr⟩
    exact (Roster.enrol_ok hr).2.1 refused

/-- One move of a replay of some entries, and what is told of it. -/
inductive Move (self : Participant) (reader : Log.Reader) (log : List Log.Entry) :
    Index → Index → List Notice → Prop
  /-- An entry whose own claims do not hold is done with. -/
  | invalid {i : Index} {e : Log.Entry} {opened : Log.Opened} {event : Event} {cause : Error}
      (mem : e ∈ log) (fresh : i.knows e.hash = false)
      (opens : Progress.openEntry reader e = .ok (opened, event))
      (invalid : event.statement self opened.sender = .error cause) :
      Move self reader log i ⟨i.state, e.hash :: i.handled, i.deferred⟩ []
  /-- An entry that is not done with is tried. -/
  | tried {i j : Index} {c : Candidate} {told : List Notice} (offered : Offered self reader log c)
      (fresh : c.hash ∉ i.handled) (tries : Tries self i c j told) :
      Move self reader log i j told

/-- Moves one after the other, and all that is told of them. -/
inductive Moves (self : Participant) (reader : Log.Reader) (log : List Log.Entry) :
    Index → Index → List Notice → Prop
  | refl (i : Index) : Moves self reader log i i []
  | snoc {i j k : Index} {told more : List Notice} (before : Moves self reader log i j told)
      (last : Move self reader log j k more) : Moves self reader log i k (told ++ more)

variable {log log' : List Log.Entry} {i j k : Index} {c : Candidate} {told more : List Notice}
  {e : Log.Entry}

theorem Moves.trans (h : Moves self reader log i j told) (h' : Moves self reader log j k more) :
    Moves self reader log i k (told ++ more) := by
  induction h' with
  | refl => rwa [List.append_nil]
  | snoc before last ih =>
    rw [← List.append_assoc]
    exact ih.snoc last

theorem Offered.mono (h : Offered self reader log c) (sub : ∀ e ∈ log, e ∈ log') :
    Offered self reader log' c := by
  obtain ⟨e, he, hc⟩ := h
  exact ⟨e, sub e he, hc⟩

/-- What a move does to the roster: nothing, or what the statement of an entry says, and then
notice is given of the entry. -/
theorem Move.roster_cases (h : Move self reader log i j told) :
    (told = [] ∧ j.state.roster = i.state.roster) ∨
      ∃ c, Offered self reader log c ∧ told = [c.notice] ∧
        i.state.roster.enrol c.author c.statement = .ok j.state.roster := by
  cases h with
  | invalid mem fresh opens invalid => exact Or.inl ⟨rfl, rfl⟩
  | @tried _ c _ offered fresh tries =>
    cases tries with
    | applied enrolled roster => exact Or.inr ⟨c, offered, rfl, roster ▸ enrolled⟩
    | misdirected secret roster => exact Or.inl ⟨rfl, roster⟩
    | waits missing => exact Or.inl ⟨rfl, rfl⟩
    | refused enabled refused => exact Or.inl ⟨rfl, rfl⟩

theorem Tries.handled_subset (h : Tries self i c j told) : i.handled ⊆ j.handled := by
  cases h with
  | applied enrolled roster => exact List.subset_cons_self _ _
  | misdirected secret roster => exact List.subset_cons_self _ _
  | waits missing => exact fun _ hm => hm
  | refused enabled refused => exact List.subset_cons_self _ _

/-- What a move is done with: nothing, an entry whose own claims do not hold, or an entry all of
whose references are known.  The last is in force then, or is refused for what was said before. -/
theorem Move.handled_cases (h : Move self reader log i j told) :
    (told = [] ∧ j.handled = i.handled ∧ j.state = i.state) ∨
      (told = [] ∧ ∃ e ∈ log, ∃ opened event cause,
        Progress.openEntry reader e = .ok (opened, event) ∧
        event.statement self opened.sender = .error cause ∧
        j.handled = e.hash :: i.handled ∧ j.state = i.state) ∨
      ∃ c, Offered self reader log c ∧ c.hash ∉ i.handled ∧ (∀ n ∈ told, n = c.notice) ∧
        j.handled = c.hash :: i.handled ∧
        j.state = (i.state.step self c.author c.statement).2 ∧
        i.state.roster.Enabled c.author c.statement ∧
        (j.state.roster.Holds c.statement ∨ i.state.roster.Refused c.statement) := by
  cases h with
  | @invalid e opened event cause mem fresh opens invalid =>
    exact Or.inr (Or.inl ⟨rfl, e, mem, opened, event, cause, opens, invalid, rfl, rfl⟩)
  | @tried _ c _ offered fresh tries =>
    have hstate := tries.state_eq
    cases tries with
    | applied enrolled roster =>
      refine Or.inr (Or.inr ⟨c, offered, fresh, by simp, rfl, rfl,
        (Roster.enrol_ok enrolled).1, ?_⟩)
      rw [roster]
      exact Or.inl (Roster.holds_of_enrol enrolled)
    | misdirected secret roster =>
      refine Or.inr (Or.inr ⟨c, offered, fresh, by simp, rfl, rfl, ?_, Or.inl ?_⟩)
      · rw [secret]
        exact trivial
      · rw [secret]
        exact ⟨fun _ hp => (by cases hp), fun _ hm => (by cases hm)⟩
    | waits missing => exact Or.inl ⟨rfl, rfl, rfl⟩
    | refused enabled refused =>
      exact Or.inr (Or.inr ⟨c, offered, fresh, by simp, rfl, hstate, enabled, Or.inr refused⟩)

/-! ## The books of an index -/

/-- The books of an index are in order: an entry is done with or waits but once, what waits is on
offer, and what is done with was opened. -/
structure Index.Tidy (p : Participant) (reader : Log.Reader) (log : List Log.Entry)
    (i : Index) : Prop where
  nodup : (i.handled ++ i.deferred.map (·.hash)).Nodup
  offered : ∀ c ∈ i.deferred, Offered p reader log c
  opened : ∀ hash ∈ i.handled, ∃ e ∈ log, e.hash = hash ∧ Opens reader e

theorem Candidate.Of.opens (h : c.Of self reader e) : Opens reader e := by
  obtain ⟨opened, ho, -⟩ := h
  exact ⟨opened, c.event, ho⟩

omit [Suite] in
theorem Progress.insertCandidate_perm (c : Candidate) (l : List Candidate) :
    (Progress.insertCandidate c l).Perm (c :: l) := by
  induction l with
  | nil => exact List.Perm.refl _
  | cons d rest ih =>
    unfold insertCandidate
    split
    · exact List.Perm.refl _
    · exact (ih.cons d).trans (List.Perm.swap c d rest)

omit [Suite] in
theorem Index.knows_eq_true_iff {hash : EntryHash} :
    i.knows hash = true ↔ hash ∈ i.handled ∨ ∃ c ∈ i.deferred, c.hash = hash := by
  simp [knows]

omit [Suite] in
theorem Index.mem_others {hash : EntryHash} :
    c ∈ i.others hash ↔ c ∈ i.deferred ∧ c.hash ≠ hash := by
  rw [others, List.mem_filter, decide_eq_true_eq]

theorem Index.Tidy.not_mem_handled (hi : i.Tidy self reader log) (hc : c ∈ i.deferred) :
    c.hash ∉ i.handled :=
  fun hh => (List.nodup_append.1 hi.nodup).2.2 c.hash hh c.hash (List.mem_map.2 ⟨c, hc, rfl⟩) rfl

/-- An entry that is tried can be entered once more in the books, in either place. -/
theorem Index.Tidy.nodup_cons (hi : i.Tidy self reader log) {hash : EntryHash}
    (fresh : hash ∉ i.handled) :
    (hash :: (i.handled ++ (i.others hash).map (·.hash))).Nodup := by
  rw [List.nodup_cons]
  constructor
  · intro hm
    rcases List.mem_append.1 hm with hm | hm
    · exact fresh hm
    · obtain ⟨c, hc, rfl⟩ := List.mem_map.1 hm
      exact (Index.mem_others.1 hc).2 rfl
  · refine hi.nodup.sublist (List.Sublist.append (List.Sublist.refl _) ?_)
    exact List.filter_sublist.map _

theorem Move.tidy (h : Move self reader log i j told) (hi : i.Tidy self reader log) :
    j.Tidy self reader log := by
  cases h with
  | @invalid e opened event cause mem fresh opens invalid =>
    have hnot : ¬ i.knows e.hash = true := by simp [fresh]
    rw [Index.knows_eq_true_iff, not_or] at hnot
    refine ⟨?_, hi.offered, ?_⟩
    · rw [List.cons_append, List.nodup_cons]
      refine ⟨fun hm => ?_, hi.nodup⟩
      rcases List.mem_append.1 hm with hm | hm
      · exact hnot.1 hm
      · obtain ⟨c, hc, he⟩ := List.mem_map.1 hm
        exact hnot.2 ⟨c, hc, he⟩
    · intro hash hm
      rcases List.mem_cons.1 hm with rfl | hm
      · exact ⟨e, mem, rfl, opened, event, opens⟩
      · exact hi.opened hash hm
  | @tried _ c _ offered fresh tries =>
    have hnodup := hi.nodup_cons fresh
    have hothers : ∀ d ∈ i.others c.hash, Offered self reader log d :=
      fun d hd => hi.offered d (Index.mem_others.1 hd).1
    -- three ways of being done with it, and one of waiting
    have hdone : ∀ state, Index.Tidy self reader log
        ⟨state, c.hash :: i.handled, i.others c.hash⟩ := by
      intro state
      refine ⟨hnodup, hothers, ?_⟩
      intro hash hm
      rcases List.mem_cons.1 hm with rfl | hm
      · obtain ⟨e, he, hc⟩ := offered
        obtain ⟨opened, ho, hh, -⟩ := hc
        exact ⟨e, he, hh.symm, opened, c.event, ho⟩
      · exact hi.opened hash hm
    cases tries with
    | applied enrolled roster => exact hdone _
    | misdirected secret roster => exact hdone _
    | refused enabled refused => exact hdone _
    | waits missing =>
      have hperm := Progress.insertCandidate_perm c (i.others c.hash)
      refine ⟨?_, ?_, hi.opened⟩
      · have hmap : ((Progress.insertCandidate c (i.others c.hash)).map (·.hash)).Perm
            (c.hash :: (i.others c.hash).map (·.hash)) := hperm.map _
        exact ((hmap.append_left i.handled).trans List.perm_middle).nodup_iff.2 hnodup
      · intro d hd
        rcases List.mem_cons.1 (hperm.mem_iff.1 hd) with rfl | hd
        · exact offered
        · exact hothers d hd

theorem Moves.tidy (h : Moves self reader log i j told) (hi : i.Tidy self reader log) :
    j.Tidy self reader log := by
  induction h with
  | refl => exact hi
  | snoc before last ih => exact last.tidy ih

/-! ## A batch is made of moves -/

namespace Progress

/-- A batch goes on by moves, and gives notice of them. -/
def Runs (self : Participant) (reader : Log.Reader) (log : List Log.Entry) (p q : Progress) :
    Prop :=
  ∃ told, Moves self reader log p.index q.index told ∧ q.notices = p.notices ++ told

variable {p q s : Progress}

theorem Runs.refl (p : Progress) : Runs self reader log p p :=
  ⟨[], .refl _, (List.append_nil _).symm⟩

theorem Runs.trans (h : Runs self reader log p q) (h' : Runs self reader log q s) :
    Runs self reader log p s := by
  obtain ⟨told, hm, hn⟩ := h
  obtain ⟨more, hm', hn'⟩ := h'
  exact ⟨told ++ more, hm.trans hm', by rw [hn', hn, List.append_assoc]⟩

theorem Runs.of_move (h : Move self reader log p.index q.index told)
    (hn : q.notices = p.notices ++ told) : Runs self reader log p q :=
  ⟨told, (Moves.refl _).snoc h, hn⟩

theorem Runs.tidy (h : Runs self reader log p q) (hp : p.index.Tidy self reader log) :
    q.index.Tidy self reader log := by
  obtain ⟨told, hm, -⟩ := h
  exact hm.tidy hp

theorem tries_consider (self : Participant) (h : p.index.others c.hash = p.index.deferred) :
    ∃ told, Tries self p.index c (p.consider self c).2.index told ∧
      (p.consider self c).2.notices = p.notices ++ told := by
  rcases consider_cases self p c with ⟨r, he, hr, hc⟩ | ⟨m, n, hs, hr, hc⟩ | ⟨hne, hc⟩ |
    ⟨he, hre, hc⟩
  · refine ⟨[c.notice], ?_, by rw [hc]; rfl⟩
    rw [hc]
    have ht := Tries.applied he hr
    rwa [h] at ht
  · refine ⟨[], ?_, by rw [hc, List.append_nil]; rfl⟩
    rw [hc]
    have ht := Tries.misdirected hs hr
    rwa [h] at ht
  · refine ⟨[], ?_, by rw [hc, List.append_nil]; rfl⟩
    rw [hc]
    have ht : Tries self p.index c _ _ := .waits hne
    rwa [h] at ht
  · refine ⟨[], ?_, by rw [hc, List.append_nil]; rfl⟩
    rw [hc]
    have ht : Tries self p.index c _ _ := .refused he hre
    rwa [h] at ht

omit [Suite] in
theorem others_eq_deferred (h : p.index.knows e.hash = false) :
    p.index.others e.hash = p.index.deferred := by
  rw [Index.others, List.filter_eq_self]
  intro d hd
  rw [decide_eq_true_eq]
  intro hh
  rw [Index.knows_eq_true_iff.2 (Or.inr ⟨d, hd, hh⟩)] at h
  cases h

/-- An entry that is not known and makes a candidate is tried. -/
theorem take_of_candidate (hc : c.Of self reader e) (fresh : p.index.knows e.hash = false) :
    p.take self reader e = (p.consider self c).2 := by
  obtain ⟨opened, hopen, hhash, hauthor, hsaid⟩ := hc
  obtain ⟨hash, author, event, said⟩ := c
  subst hhash hauthor
  rw [take, fresh, if_neg Bool.false_ne_true, hopen]
  dsimp only
  rw [hsaid]

theorem runs_take (he : e ∈ log) : Runs self reader log p (p.take self reader e) := by
  unfold take
  split
  · exact ⟨[], .refl _, (List.append_nil _).symm⟩
  · next hknown =>
    have hfresh : p.index.knows e.hash = false := by simpa using hknown
    split
    · exact ⟨[], .refl _, (List.append_nil _).symm⟩
    · next opened event hopen =>
      split
      · next cause hs => exact .of_move (.invalid he hfresh hopen hs) (List.append_nil _).symm
      · next said hs =>
        have hothers := others_eq_deferred hfresh
        rw [Index.knows_eq_true_iff, not_or] at hknown
        obtain ⟨told, ht, hn⟩ := tries_consider self
          (c := ⟨e.hash, opened.sender, event, said⟩) hothers
        exact .of_move (.tried ⟨e, he, opened, hopen, rfl, rfl, hs⟩ hknown.1 ht) hn

theorem runs_foldl_take (entries : List Log.Entry) (he : ∀ e ∈ entries, e ∈ log) :
    Runs self reader log p (entries.foldl (take self reader) p) := by
  induction entries generalizing p with
  | nil => exact Runs.refl p
  | cons e rest ih =>
    exact (runs_take (he e List.mem_cons_self)).trans
      (ih fun d hd => he d (List.mem_cons_of_mem e hd))

omit [Suite] in
theorem others_release (hash : EntryHash) :
    (p.release hash).index.others hash = p.index.others hash := by
  simp [release, Index.others, List.filter_filter]

theorem tries_of_release {told : List Notice} (h : Tries self (p.release c.hash).index c j told) :
    Tries self p.index c j told := by
  have ho := others_release (p := p) c.hash
  cases h with
  | applied enrolled roster =>
    rw [ho]
    exact .applied enrolled roster
  | misdirected secret roster =>
    rw [ho]
    exact .misdirected secret roster
  | waits missing =>
    rw [ho]
    exact .waits missing
  | refused enabled refused =>
    rw [ho]
    exact .refused enabled refused

omit [Suite] in
theorem waiting?_eq_some {hash : EntryHash} (h : p.index.waiting? hash = some c) :
    c ∈ p.index.deferred ∧ c.hash = hash :=
  ⟨List.mem_of_find?_eq_some h, by simpa using List.find?_some h⟩

theorem runs_retryEntry (hp : p.index.Tidy self reader log) (hash : EntryHash) :
    Runs self reader log p (p.retryEntry self hash).2 := by
  unfold retryEntry
  split
  · next c hc =>
    obtain ⟨hmem, rfl⟩ := waiting?_eq_some hc
    obtain ⟨told, ht, hn⟩ := tries_consider self (others_release (p := p) c.hash)
    have htries := tries_of_release ht
    exact .of_move (.tried (hp.offered c hmem) (hp.not_mem_handled hmem) htries) hn
  · exact Runs.refl p

theorem runs_retryAll (hp : p.index.Tidy self reader log) (hashes : List EntryHash) :
    Runs self reader log p (p.retryAll self hashes).2 := by
  induction hashes generalizing p with
  | nil => exact Runs.refl p
  | cons hash rest ih =>
    have hhead := runs_retryEntry hp hash
    exact hhead.trans (ih (hhead.tidy hp))

end Progress

end SecureGroup.Metadata
