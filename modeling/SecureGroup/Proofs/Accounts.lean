import SecureGroup.Proofs.Reached
import SecureGroup.Replica

/-!
# Accounts of a replay

A journal (`Journal`) lists the entries that a replay is done with, one after the other, each with
the verdict that the state gave on it at that time.  The books of an index are its journal written
backwards (`Journal.handled_eq`), so no hash is in it twice.  A batch goes on with the journal,
gives notice of the entries that were applied, in order, and counts every verdict once
(`Progress.Accounts`); whatever was taken or waited before is counted or waits afterwards
(`Reached.accounts`).
-/

namespace SecureGroup

theorem Channel.sent_sendAll {α : Type} (c : Channel α) (as : List α) :
    (c.sendAll as).sent.toList = c.sent.toList ++ as := by
  induction as generalizing c with
  | nil => exact (List.append_nil _).symm
  | cons a rest ih =>
    have hrest : (c.sendAll (a :: rest)).sent.toList = ((c.send a).sendAll rest).sent.toList := rfl
    rw [hrest, ih, send, Array.toList_push, List.append_assoc, List.singleton_append]

namespace Metadata

variable [Suite] {self : Participant} {reader : Log.Reader} {log log' entries : List Log.Entry}
  {i j k : Index} {c : Candidate} {told : List Notice} {e : Log.Entry}

/-! ## Verdicts -/

inductive Verdict where
  | applied
  | misdirected
  | dropped
  | waits
deriving DecidableEq

/-- What a state answers to a statement of a device. -/
def State.verdict (self : Participant) (s : State) (author : PublicKey) (said : Statement) :
    Verdict :=
  match (s.step self author said).1 with
  | .ok () => .applied
  | .error (.misdirected _) => .misdirected
  | .error cause => if cause.isMissingDependency then .waits else .dropped

/-- The batch so far with a verdict on an entry. -/
def Progress.judge (p : Progress) (c : Candidate) : Verdict → Progress
  | .applied => p.accept c
  | .misdirected => p.misdirect c.hash
  | .dropped => p.drop c.hash
  | .waits => p.defer c

theorem Progress.consider_eq_judge (self : Participant) (p : Progress) (c : Candidate) :
    (p.consider self c).2 = (p.withState (p.index.state.step self c.author c.statement).2).judge c
      (p.index.state.verdict self c.author c.statement) := by
  unfold consider State.verdict
  rcases p.index.state.step self c.author c.statement with ⟨result, state⟩
  cases result with
  | ok u => rfl
  | error cause =>
    cases cause with
    | misdirected m => rfl
    | _ => dsimp only; split <;> rfl

/-! ## Journals -/

/-- What an index is done with: an entry whose own claims do not hold, or one that was given a
verdict. -/
inductive Outcome where
  | invalid (hash : EntryHash)
  | judged (c : Candidate) (verdict : Verdict)

namespace Outcome

def hash : Outcome → EntryHash
  | invalid hash => hash
  | judged c _ => c.hash

def verdict : Outcome → Verdict
  | invalid _ => .dropped
  | judged _ verdict => verdict

def notice? : Outcome → Option Notice
  | judged c .applied => some c.notice
  | _ => none

end Outcome

/-- What an index is done with on its way to another one, in order, among some entries. -/
inductive Journal (self : Participant) (reader : Log.Reader) (log : List Log.Entry) :
    Index → List Outcome → Index → Prop
  | refl (i : Index) : Journal self reader log i [] i
  | withKeys {i j : Index} {done : List Outcome} (keys : ChainKeys)
      (before : Journal self reader log i done j) : Journal self reader log i done (j.withKeys keys)
  /-- An entry waits, for the first time or again. -/
  | waits {i j : Index} {done : List Outcome} {c : Candidate}
      (before : Journal self reader log i done j) (offered : Offered self reader log c)
      (verdict : j.state.verdict self c.author c.statement = .waits) :
      Journal self reader log i done ⟨(j.state.step self c.author c.statement).2, j.handled,
        Progress.insertCandidate c (j.others c.hash)⟩
  /-- An entry that is not done with is given its verdict. -/
  | judged {i j : Index} {done : List Outcome} {c : Candidate} {verdict : Verdict}
      (before : Journal self reader log i done j) (offered : Offered self reader log c)
      (fresh : c.hash ∉ j.handled) (given : j.state.verdict self c.author c.statement = verdict)
      (decided : verdict ≠ .waits) :
      Journal self reader log i (done ++ [.judged c verdict])
        ⟨(j.state.step self c.author c.statement).2, c.hash :: j.handled, j.others c.hash⟩
  /-- An entry whose own claims do not hold is dropped. -/
  | invalid {i j : Index} {done : List Outcome} {e : Log.Entry} {opened : Log.Opened}
      {event : Event} {cause : Error} (before : Journal self reader log i done j) (mem : e ∈ log)
      (fresh : j.knows e.hash = false)
      (opens : Progress.openEntry reader e = .ok (opened, event))
      (invalid : event.statement self opened.sender = .error cause) :
      Journal self reader log i (done ++ [.invalid e.hash])
        ⟨j.state, e.hash :: j.handled, j.deferred⟩

variable {done more : List Outcome}

theorem Journal.trans (h : Journal self reader log i done j)
    (h' : Journal self reader log j more k) : Journal self reader log i (done ++ more) k := by
  induction h' with
  | refl => rwa [List.append_nil]
  | withKeys keys before ih => exact .withKeys keys ih
  | waits before offered verdict ih => exact .waits ih offered verdict
  | judged before offered fresh given decided ih =>
    rw [← List.append_assoc]
    exact .judged ih offered fresh given decided
  | invalid before mem fresh opens invalid ih =>
    rw [← List.append_assoc]
    exact .invalid ih mem fresh opens invalid

theorem Journal.mono (h : Journal self reader log i done j) (sub : ∀ e ∈ log, e ∈ log') :
    Journal self reader log' i done j := by
  induction h with
  | refl => exact .refl _
  | withKeys keys before ih => exact .withKeys keys ih
  | waits before offered verdict ih => exact .waits ih (offered.mono sub) verdict
  | judged before offered fresh given decided ih =>
    exact .judged ih (offered.mono sub) fresh given decided
  | invalid before mem fresh opens invalid ih => exact .invalid ih (sub _ mem) fresh opens invalid

/-- The books are the journal written backwards. -/
theorem Journal.handled_eq (h : Journal self reader log i done j) :
    j.handled = (done.map (·.hash)).reverse ++ i.handled := by
  induction h with
  | refl => rfl
  | withKeys keys before ih => exact ih
  | waits before offered verdict ih => exact ih
  | judged before offered fresh given decided ih =>
    rw [List.map_append, List.reverse_append, ih]
    rfl
  | invalid before mem fresh opens invalid ih =>
    rw [List.map_append, List.reverse_append, ih]
    rfl

/-- What is done with does not wait. -/
theorem Journal.verdict_ne_waits (h : Journal self reader log i done j) :
    ∀ o ∈ done, o.verdict ≠ .waits := by
  induction h with
  | refl => exact fun o ho => by cases ho
  | withKeys keys before ih => exact ih
  | waits before offered verdict ih => exact ih
  | judged before offered fresh given decided ih =>
    intro o ho
    rcases List.mem_append.1 ho with ho | ho
    · exact ih o ho
    · rw [List.mem_singleton.1 ho]
      exact decided
  | invalid before mem fresh opens invalid ih =>
    intro o ho
    rcases List.mem_append.1 ho with ho | ho
    · exact ih o ho
    · rw [List.mem_singleton.1 ho]
      intro hwaits
      cases hwaits

omit [Suite] in
/-- What is done with has one of three verdicts. -/
theorem Outcome.length_eq_countP (h : ∀ o ∈ done, o.verdict ≠ .waits) :
    done.length = done.countP (·.verdict = .applied) + done.countP (·.verdict = .misdirected) +
      done.countP (·.verdict = .dropped) := by
  induction done with
  | nil => rfl
  | cons o rest ih =>
    have hrest := ih fun o ho => h o (List.mem_cons_of_mem _ ho)
    have ho := h o List.mem_cons_self
    cases hv : o.verdict with
    | waits => exact absurd hv ho
    | _ =>
      simp only [List.countP_cons, List.length_cons, hv, hrest, reduceCtorEq, decide_true,
        decide_false, Bool.false_eq_true, if_true, if_false]
      omega

omit [Suite] in
/-- Notices name the entries that they are given of, in order. -/
theorem Outcome.notices_sublist (done : List Outcome) :
    ((done.filterMap (·.notice?)).map (·.entry)).Sublist (done.map (·.hash)) := by
  induction done with
  | nil => exact List.Sublist.refl _
  | cons o rest ih =>
    cases o with
    | invalid hash => exact ih.cons _
    | judged c verdict =>
      cases verdict with
      | applied => exact ih.cons_cons c.hash
      | _ => exact ih.cons _

/-! ## The accounts of a batch -/

namespace Progress

/-- All that was counted so far, and what waits. -/
def balance (p : Progress) : Nat :=
  p.summary.applied + p.summary.duplicates + p.summary.misdirected + p.summary.failed +
    p.index.deferred.length

/-- How a batch goes on: `taken` are the entries that it takes, `unread` those of them that could
not be opened, and `done` is what it is done with, in order. -/
structure Accounts (owner : Participant) (reader : Log.Reader) (log taken unread : List Log.Entry)
    (done : List Outcome) (p q : Progress) : Prop where
  journal : Journal owner reader log p.index done q.index
  notices : q.notices = p.notices ++ done.filterMap (·.notice?)
  applied : q.summary.applied = p.summary.applied + done.countP (·.verdict = .applied)
  misdirected : q.summary.misdirected =
    p.summary.misdirected + done.countP (·.verdict = .misdirected)
  failed : q.summary.failed =
    p.summary.failed + done.countP (·.verdict = .dropped) + unread.length
  balance : q.balance = p.balance + taken.length
  sublist : unread.Sublist taken
  not_opens : ∀ e ∈ unread, ¬ Opens reader e

variable {p q s : Progress} {taken taken' unread unread' : List Log.Entry}

theorem Accounts.refl (p : Progress) : Accounts self reader log [] [] [] p p where
  journal := .refl _
  notices := (List.append_nil _).symm
  applied := rfl
  misdirected := rfl
  failed := rfl
  balance := rfl
  sublist := List.Sublist.refl _
  not_opens e he := by cases he

theorem Accounts.trans (h : Accounts self reader log taken unread done p q)
    (h' : Accounts self reader log taken' unread' more q s) :
    Accounts self reader log (taken ++ taken') (unread ++ unread') (done ++ more) p s where
  journal := h.journal.trans h'.journal
  notices := by rw [h'.notices, h.notices, List.filterMap_append, List.append_assoc]
  applied := by rw [h'.applied, h.applied, List.countP_append, Nat.add_assoc]
  misdirected := by rw [h'.misdirected, h.misdirected, List.countP_append, Nat.add_assoc]
  failed := by
    rw [h'.failed, h.failed, List.countP_append, List.length_append]
    omega
  balance := by rw [h'.balance, h.balance, List.length_append, Nat.add_assoc]
  sublist := h.sublist.append h'.sublist
  not_opens e he := (List.mem_append.1 he).elim (h.not_opens e) (h'.not_opens e)

/-- What is done with is what the books grow by. -/
theorem Accounts.length_handled (h : Accounts self reader log taken unread done p q) :
    q.index.handled.length = p.index.handled.length + done.countP (·.verdict = .applied) +
      done.countP (·.verdict = .misdirected) + done.countP (·.verdict = .dropped) := by
  rw [h.journal.handled_eq, List.length_append, List.length_reverse, List.length_map,
    Outcome.length_eq_countP h.journal.verdict_ne_waits]
  omega

theorem Accounts.of_start (h : Accounts self reader log taken unread done (.start i) q) :
    q.notices = done.filterMap (·.notice?) ∧
      q.summary.applied = done.countP (·.verdict = .applied) ∧
      q.summary.misdirected = done.countP (·.verdict = .misdirected) ∧
      q.summary.failed = done.countP (·.verdict = .dropped) + unread.length ∧
      q.balance = taken.length + i.deferred.length := by
  obtain ⟨-, hnotices, happlied, hmisdirected, hfailed, hbalance, -, -⟩ := h
  have hstart : (Progress.start i).balance = i.deferred.length := by
    simp only [start, Progress.balance, Nat.zero_add]
  rw [hstart, Nat.add_comm] at hbalance
  simp only [start, Nat.zero_add, List.nil_append] at hnotices happlied hmisdirected hfailed
  exact ⟨hnotices, happlied, hmisdirected, hfailed, hbalance⟩

/-- An entry that is given a verdict is counted, or waits. -/
theorem accounts_consider (offered : Offered self reader log c) (fresh : c.hash ∉ p.index.handled)
    (counted : (p.index.others c.hash).length + 1 = p.index.deferred.length + taken.length) :
    ∃ done, Accounts self reader log taken [] done p ((p.release c.hash).consider self c).2 := by
  have hnone : ∀ e ∈ ([] : List Log.Entry), ¬ Opens reader e := fun e he => by cases he
  rw [consider_eq_judge]
  cases hv : (p.release c.hash).index.state.verdict self c.author c.statement with
  | waits =>
    have hlen := (insertCandidate_perm c (p.index.others c.hash)).length_eq
    refine ⟨[], .waits (.refl _) offered hv, (List.append_nil _).symm, rfl, rfl, rfl, ?_,
      List.nil_sublist _, hnone⟩
    simp only [balance, judge, defer, withState, release, hlen, List.length_cons]
    omega
  | applied =>
    refine ⟨[.judged c .applied], .judged (.refl _) offered fresh hv (by decide), rfl, rfl, rfl,
      rfl, ?_, List.nil_sublist _, hnone⟩
    simp only [balance, judge, accept, handle, withState, release]
    omega
  | misdirected =>
    refine ⟨[.judged c .misdirected], .judged (.refl _) offered fresh hv (by decide),
      (List.append_nil _).symm, rfl, rfl, rfl, ?_, List.nil_sublist _, hnone⟩
    simp only [balance, judge, misdirect, handle, withState, release]
    omega
  | dropped =>
    refine ⟨[.judged c .dropped], .judged (.refl _) offered fresh hv (by decide),
      (List.append_nil _).symm, rfl, rfl, rfl, ?_, List.nil_sublist _, hnone⟩
    simp only [balance, judge, drop, unreadable, handle, withState, release]
    omega

theorem accounts_take (he : e ∈ log) :
    ∃ unread done, Accounts self reader log [e] unread done p (p.take self reader e) := by
  unfold take
  split
  · refine ⟨[], [], .refl _, (List.append_nil _).symm, rfl, rfl, rfl, ?_, List.nil_sublist _,
      fun e he => by cases he⟩
    simp only [balance, duplicate, List.length_singleton]
    omega
  · next hknown =>
    have hfresh : p.index.knows e.hash = false := by simpa using hknown
    have hothers := others_eq_deferred hfresh
    rw [Index.knows_eq_true_iff, not_or] at hknown
    split
    · next cause hopen =>
      have hnot : ∀ d ∈ [e], ¬ Opens reader d := by
        intro d hd
        rw [List.mem_singleton.1 hd]
        rintro ⟨opened, event, ho⟩
        rw [hopen] at ho
        cases ho
      refine ⟨[e], [], .refl _, (List.append_nil _).symm, rfl, rfl, rfl, ?_, List.Sublist.refl _,
        hnot⟩
      simp only [balance, unreadable, List.length_singleton]
      omega
    · next opened event hopen =>
      split
      · next cause hs =>
        refine ⟨[], [.invalid e.hash], .invalid (.refl _) he hfresh hopen hs,
          (List.append_nil _).symm, rfl, rfl, rfl, ?_, List.nil_sublist _, fun e he => by cases he⟩
        simp only [balance, drop, handle, unreadable, List.length_singleton]
        omega
      · next said hs =>
        -- nothing waits under this hash, so nothing is taken out
        have hrelease : p.release e.hash = p := by rw [release, hothers]
        have hoffered : Offered self reader log ⟨e.hash, opened.sender, event, said⟩ :=
          ⟨e, he, opened, hopen, rfl, rfl, hs⟩
        have hcounted : (p.index.others e.hash).length + 1 =
            p.index.deferred.length + [e].length := by
          rw [hothers, List.length_singleton]
        obtain ⟨done, h⟩ := accounts_consider hoffered hknown.1 hcounted
        rw [hrelease] at h
        exact ⟨[], done, h⟩

theorem accounts_foldl_take (entries : List Log.Entry) (sub : ∀ e ∈ entries, e ∈ log) :
    ∃ unread done,
      Accounts self reader log entries unread done p (entries.foldl (take self reader) p) := by
  induction entries generalizing p with
  | nil => exact ⟨[], [], .refl p⟩
  | cons e rest ih =>
    have htake : ∃ unread done, Accounts self reader log [e] unread done p (p.take self reader e) :=
      accounts_take (sub e List.mem_cons_self)
    obtain ⟨unread, done, hhead⟩ := htake
    obtain ⟨unread', more, hrest⟩ := ih (p := p.take self reader e)
      fun d hd => sub d (List.mem_cons_of_mem e hd)
    exact ⟨unread ++ unread', done ++ more, hhead.trans hrest⟩

theorem accounts_retryEntry (hp : p.index.Tidy self reader log) (hash : EntryHash) :
    ∃ done, Accounts self reader log [] [] done p (p.retryEntry self hash).2 := by
  unfold retryEntry
  split
  · next c hc =>
    obtain ⟨hmem, rfl⟩ := waiting?_eq_some hc
    exact accounts_consider (hp.offered c hmem) (hp.not_mem_handled hmem)
      (cons_others_perm hp.nodup_deferred hmem).length_eq
  · exact ⟨[], .refl p⟩

theorem accounts_retryAll (hp : p.index.Tidy self reader log) (hashes : List EntryHash) :
    ∃ done, Accounts self reader log [] [] done p (p.retryAll self hashes).2 := by
  induction hashes generalizing p with
  | nil => exact ⟨[], .refl p⟩
  | cons hash rest ih =>
    obtain ⟨done, hhead⟩ := accounts_retryEntry hp hash
    obtain ⟨more, hrest⟩ := ih ((runs_retryEntry hp hash).tidy hp)
    exact ⟨done ++ more, hhead.trans hrest⟩

theorem accounts_retry (hp : p.index.Tidy self reader log) (rounds : Nat) :
    ∃ done, Accounts self reader log [] [] done p (p.retry self rounds) := by
  induction rounds generalizing p with
  | zero => exact ⟨[], .refl p⟩
  | succ rounds ih =>
    obtain ⟨done, hround⟩ := accounts_retryAll hp (p.index.deferred.map (·.hash))
    have htidy := (runs_retryAll hp (p.index.deferred.map (·.hash))).tidy hp
    rw [← retryOnce] at hround htidy
    unfold retry
    split
    · next q hq =>
      rw [hq] at hround htidy
      obtain ⟨more, hrest⟩ := ih htidy
      exact ⟨done ++ more, hround.trans hrest⟩
    · next q hq =>
      rw [hq] at hround
      exact ⟨done, hround⟩

end Progress

theorem Index.accounts_update (hi : i.Tidy self reader log) (sub : ∀ e ∈ entries, e ∈ log) :
    ∃ unread done, Progress.Accounts self reader log entries unread done (.start i)
      (i.update self reader entries) := by
  have hbatch : ∃ unread done, Progress.Accounts self reader log entries unread done (.start i)
      (entries.foldl (Progress.take self reader) (.start i)) :=
    Progress.accounts_foldl_take entries sub
  obtain ⟨unread, done, htake⟩ := hbatch
  have htidy := (Progress.runs_foldl_take entries sub).tidy (p := .start i) hi
  obtain ⟨more, hretry⟩ := Progress.accounts_retry htidy
    ((entries.foldl (Progress.take self reader) (.start i)).index.deferred.length + 1)
  obtain ⟨journal, notices, applied, misdirected, failed, balance, sublist, not_opens⟩ :=
    htake.trans hretry
  simp only [List.append_nil] at failed balance sublist not_opens
  exact ⟨unread, done ++ more, journal, notices, applied, misdirected, failed, balance, sublist,
    not_opens⟩

namespace Reached

/-- All that a reached index is done with stands in one journal, and notice was given of it. -/
theorem journal (h : Reached self reader log told i) :
    ∃ keys past, Journal self reader log (.empty keys) past i ∧
      told = past.filterMap (·.notice?) := by
  induction h with
  | empty keys => exact ⟨keys, [], .refl _, rfl⟩
  | withKeys keys before ih =>
    obtain ⟨first, past, hjournal, htold⟩ := ih
    exact ⟨first, past, .withKeys keys hjournal, htold⟩
  | @update log told i entries before ih =>
    obtain ⟨first, past, hjournal, htold⟩ := ih
    obtain ⟨unread, done, haccounts⟩ := Index.accounts_update
      (before.tidy.mono fun e he => List.mem_append_left entries he)
      fun e he => List.mem_append_right log he
    have hnotices := haccounts.of_start.1
    refine ⟨first, past ++ done, ?_, ?_⟩
    · exact (hjournal.mono fun e he => List.mem_append_left entries he).trans haccounts.journal
    · rw [List.filterMap_append, htold, hnotices]

/-- No hash is done with twice: the books hold each of them once. -/
theorem nodup_hashes {keys : ChainKeys} {past : List Outcome} (h : Reached self reader log told i)
    (hpast : Journal self reader log (.empty keys) past i) : (past.map (·.hash)).Nodup := by
  have hbooks := hpast.handled_eq
  rw [show (Index.empty keys).handled = [] from rfl, List.append_nil] at hbooks
  rw [← List.nodup_reverse, ← hbooks]
  exact h.tidy.nodup_handled

/-- Every entry that was taken or waited is counted once or waits, no hash is done with twice, and
notice is given of the entries that were applied, in order, and of no other ones. -/
theorem accounts (h : Reached self reader log told i) (entries : List Log.Entry) :
    let p := i.update self reader entries
    entries.length + i.deferred.length = p.summary.applied + p.summary.duplicates +
        p.summary.misdirected + p.summary.failed + p.summary.deferred ∧
      p.summary.deferred = p.index.deferred.length ∧
      (i.handled ++ i.deferred.map (·.hash)).Nodup ∧
      (p.index.handled ++ p.index.deferred.map (·.hash)).Nodup ∧
      (∃ (keys : ChainKeys) (past done : List Outcome) (unread : List Log.Entry),
        Journal self reader (log ++ entries) (.empty keys) past i ∧
        Journal self reader (log ++ entries) i done p.index ∧
        ((past ++ done).map (·.hash)).Nodup ∧
        told = past.filterMap (·.notice?) ∧ p.notices = done.filterMap (·.notice?) ∧
        p.summary.applied = done.countP (·.verdict = .applied) ∧
        p.summary.misdirected = done.countP (·.verdict = .misdirected) ∧
        p.summary.failed = done.countP (·.verdict = .dropped) + unread.length ∧
        unread.Sublist entries ∧ (∀ e ∈ unread, ¬ Opens reader e) ∧
        p.index.handled = (done.map (·.hash)).reverse ++ i.handled ∧
        p.index.handled.length = i.handled.length + p.summary.applied + p.summary.misdirected +
          done.countP (·.verdict = .dropped)) ∧
      ((told ++ p.notices).map (·.entry)).Nodup ∧
      ∀ r : Replica, r.self = self → r.metadata.toReader = reader → r.index = i →
        (r.update entries).1 = p.summary ∧ (r.update entries).2.index = p.index ∧
        (r.update entries).2.notices.sent.toList =
          r.notices.sent.toList ++ p.notices.map .metadata := by
  intro p
  obtain ⟨keys, past, hpast, htold⟩ := h.journal
  have hpast := hpast.mono fun e he => List.mem_append_left entries he
  obtain ⟨unread, done, hbatch⟩ := Index.accounts_update
    (h.tidy.mono fun e he => List.mem_append_left entries he)
    fun e he => List.mem_append_right log he
  obtain ⟨hnotices, happlied, hmisdirected, hfailed, hbalance⟩ := hbatch.of_start
  have hnext := h.update entries
  have hnodup := hnext.nodup_hashes (hpast.trans hbatch.journal)
  refine ⟨?_, rfl, h.tidy.nodup, hnext.tidy.nodup, ⟨keys, past, done, unread, hpast,
    hbatch.journal, hnodup, htold, hnotices, happlied, hmisdirected, hfailed, hbatch.sublist,
    hbatch.not_opens, hbatch.journal.handled_eq, ?_⟩, ?_, ?_⟩
  · exact hbalance.symm
  · rw [happlied, hmisdirected]
    exact hbatch.length_handled
  · have htold' : told ++ p.notices = (past ++ done).filterMap (·.notice?) := by
      rw [htold, List.filterMap_append]
      exact congrArg _ hnotices
    rw [htold']
    exact hnodup.sublist (Outcome.notices_sublist _)
  · rintro r rfl rfl rfl
    exact ⟨rfl, rfl, Channel.sent_sendAll _ _⟩

end Reached

end Metadata

end SecureGroup

namespace SecureGroup.Metadata

attribute [local instance] Suite.plain

open Plain

/-- A member joins before the inviter is announced, waits, and is applied in the next batch, next to
an entry that is known, one that is refused and one that cannot be opened. -/
theorem accounts_joinedEarly :
    let early := [entry 4 (joined 1 3 4)]
    let i := ((Index.empty (chains 2)).update (participant 1 2) reader early).index
    let batch :=
      [entry 2 (announced 1 2), entry 4 (joined 1 3 4), entry 5 (announced 1 2), .at 0 []]
    let p := i.update (participant 1 2) reader batch
    Reached (participant 1 2) reader ([] ++ early) ([] ++ ((Index.empty (chains 2)).update
        (participant 1 2) reader early).notices) i ∧
      p.summary.applied = 2 ∧ i.deferred.length = 1 ∧
      batch.length + i.deferred.length = p.summary.applied + p.summary.duplicates +
        p.summary.misdirected + p.summary.failed + p.summary.deferred := by
  intro early i batch p
  have hreached : Reached (participant 1 2) reader ([] ++ early) _ i :=
    .update early (.empty (chains 2))
  refine ⟨hreached, by decide +kernel, by decide +kernel, ?_⟩
  exact (Reached.accounts hreached batch).1

end SecureGroup.Metadata
