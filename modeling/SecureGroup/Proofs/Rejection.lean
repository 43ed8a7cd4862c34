import SecureGroup.Proofs.Failures
import SecureGroup.Proofs.Secrets

/-!
# What is rejected has no effect

The handler of an event checks what the event says by itself, and then whether it fits what the log
said before (`State.handle`).  Whatever a batch takes or tries again goes through it, and the batch
goes on as its answer says (`Progress.accepts_of_handles`, `Progress.rejects_of_handles`).  A
handler that fails leaves the state as it is, with one exception: that the local device sent one of
its chains to another member is noted although the entry is reported as misdirected
(`State.handle_error`).  An entry that cannot be opened does not reach a handler, and the batch goes
on as if it were not there (`Index.update_filter`).  Main statement:
`Reached.rejected_without_effect`.
-/

namespace SecureGroup.Metadata

variable [Suite] {self : Participant} {reader : Log.Reader} {log entries : List Log.Entry}
  {told : List Notice} {i : Index} {e : Log.Entry} {s s' : State} {author dest : PublicKey}
  {chainId : UInt64} {event : Event} {said : Statement} {cause : Error} {c : Candidate}
  {hash : EntryHash}

/-! ## Handlers -/

/-- The local device says that it sent one of its chains to another member. -/
def Event.SendsElsewhere (self : Participant) (author dest : PublicKey) (chainId : UInt64)
    (event : Event) : Prop :=
  author = self.ids.device ∧ dest ≠ self.ids.member ∧ ∃ device recipient secret,
    event = .secretAdded device recipient chainId secret ∧
      PublicKey.ofBytes device = .ok self.ids.device ∧ PublicKey.ofBytes recipient = .ok dest

theorem Event.sendsElsewhere_iff : event.SendsElsewhere self author dest chainId ↔
    author = self.ids.device ∧ event.statement self author = .ok (.sent dest chainId none) := by
  rw [statement_eq_sent_iff]
  constructor
  · rintro ⟨rfl, hdest, device, member, secret, rfl, hdevice, hmember⟩
    exact ⟨rfl, device, member, secret, rfl, hdevice, hmember, by rw [if_neg hdest]⟩
  · rintro ⟨rfl, device, member, secret, rfl, hdevice, hmember, hchain⟩
    by_cases hown : dest = self.ids.member
    · rw [if_pos hown] at hchain
      obtain ⟨-, k, -, -, -, hchain⟩ := hchain
      cases hchain
    · exact ⟨rfl, hown, device, member, secret, rfl, hdevice, hmember⟩

/-- A statement fails when the roster refuses it, and then nothing happens, or when it is a secret
for someone else, and then only that it was sent is noted. -/
theorem State.step_error (h : s.step self author said = (.error cause, s')) :
    (s.roster.enrol author said = .error cause ∧ s' = s) ∨
      ∃ dest chainId, said = .sent dest chainId none ∧ cause = .misdirected dest ∧
        s' = if author = self.ids.device then s.noteSent dest chainId else s := by
  cases henrol : s.roster.enrol author said with
  | error cause' =>
    rw [step_of_error self henrol] at h
    cases h
    exact Or.inl ⟨rfl, rfl⟩
  | ok r =>
    rcases step_of_ok self henrol with hok | ⟨dest, chainId, rfl, -, -⟩
    · rw [h] at hok
      cases hok
    · cases h
      exact Or.inr ⟨dest, chainId, rfl, rfl, rfl⟩

/-- A handler that fails leaves the state as it is, unless the local device says that it sent a
chain to another member.  That is noted, and the event is misdirected. -/
theorem State.handle_error (h : s.handle self author event = (.error cause, s')) :
    (s' = s ∧ ∀ dest chainId, ¬ event.SendsElsewhere self author dest chainId) ∨
      ∃ dest chainId, event.SendsElsewhere self author dest chainId ∧ cause = .misdirected dest ∧
        s' = s.noteSent dest chainId := by
  unfold handle at h
  simp only [Event.sendsElsewhere_iff]
  cases hsaid : event.statement self author with
  | error cause' =>
    rw [hsaid] at h
    cases h
    refine Or.inl ⟨rfl, ?_⟩
    rintro dest chainId ⟨-, hsent⟩
    cases hsent
  | ok said =>
    rw [hsaid] at h
    rcases step_error h with ⟨henrol, rfl⟩ | ⟨dest, chainId, rfl, rfl, rfl⟩
    · refine Or.inl ⟨rfl, ?_⟩
      rintro dest chainId ⟨-, hsent⟩
      cases hsent
      cases henrol
    · by_cases hauthor : author = self.ids.device
      · exact Or.inr ⟨dest, chainId, ⟨hauthor, rfl⟩, rfl, if_pos hauthor⟩
      · exact Or.inl ⟨if_neg hauthor, fun dest chainId hsent => hauthor hsent.1⟩

/-! ## Why an event fails by itself -/

/-- A check that never fails because someone is not known yet, or because a secret is for someone
else. -/
def Inherent {α : Type} (x : Except Error α) : Prop :=
  ∀ cause, x = .error cause → cause.isMissingDependency = false ∧ ∀ m, cause ≠ .misdirected m

/-- What an event says by itself is wrong for good. -/
theorem Inherent.statement (p : Participant) (author : PublicKey) (event : Event) :
    Inherent (event.statement p author) := by
  intro cause h
  have hraises := event.raises_statement p author
  refine ⟨not_missing_of_raises hraises h (by decide), ?_⟩
  rintro m rfl
  have hkind : Error.Kind.secretMisdirected ∈ Error.inherentKinds := hraises _ h
  exact absurd hkind (by decide)

/-! ## Rejected entries -/

namespace Progress

variable {p q : Progress}

/-- A batch gives the event of an entry to its handler and goes on from what comes of it: an entry
that is taken and opens, or one that waits and is tried again. -/
inductive Handles (self : Participant) (reader : Log.Reader) (p : Progress) :
    EntryHash → PublicKey → Event → Progress → Prop
  | taken {e : Log.Entry} {opened : Log.Opened} {event : Event}
      (fresh : p.index.knows e.hash = false) (opens : openEntry reader e = .ok (opened, event)) :
      Handles self reader p e.hash opened.sender event (p.take self reader e)
  | retried {c : Candidate} (waits : p.index.waiting? c.hash = some c) :
      Handles self reader p c.hash c.author c.event (p.retryEntry self c.hash).2

/-- What is left of an entry whose handler fails: it waits, or the batch is done with it, and
nothing is told of it. -/
structure Rejects (p : Progress) (hash : EntryHash) (author : PublicKey) (event : Event)
    (cause : Error) (s : State) (q : Progress) : Prop where
  state : q.index.state = s
  notices : q.notices = p.notices
  applied : q.summary.applied = p.summary.applied
  others : q.index.others hash = p.index.others hash
  waits : cause.isMissingDependency = true → q.index.handled = p.index.handled ∧
    ∃ c, q.index.waiting? hash = some c ∧ c.author = author ∧ c.event = event
  done : cause.isMissingDependency = false → q.index.handled = hash :: p.index.handled ∧
    q.index.waiting? hash = none
  misdirected : ∀ m, cause = .misdirected m →
    q.summary.misdirected = p.summary.misdirected + 1

omit [Suite] in
theorem waiting?_eq_none (fresh : p.index.knows hash = false) : p.index.waiting? hash = none := by
  refine List.find?_eq_none.2 fun c hc hhash => ?_
  rw [Index.knows_eq_true_iff.2 (Or.inr ⟨c, hc, by simpa using hhash⟩)] at fresh
  cases fresh

omit [Suite] in
theorem waiting?_release (p : Progress) (hash : EntryHash) :
    (p.release hash).index.waiting? hash = none := by
  refine List.find?_eq_none.2 fun c hc hhash => ?_
  exact (Index.mem_others.1 hc).2 (by simpa using hhash)

omit [Suite] in
/-- The waiting entry of a hash is found when no other one has the hash. -/
theorem find?_insertCandidate {l : List Candidate} (h : l.find? (·.hash = c.hash) = none) :
    (insertCandidate c l).find? (·.hash = c.hash) = some c := by
  induction l with
  | nil => simp [insertCandidate]
  | cons d rest ih =>
    rw [List.find?_cons] at h
    split at h
    · cases h
    · next hd =>
      unfold insertCandidate
      split
      · simp
      · rw [List.find?_cons, hd]
        exact ih h

omit [Suite] in
theorem filter_insertCandidate (c : Candidate) (l : List Candidate) :
    (insertCandidate c l).filter (·.hash ≠ c.hash) = l.filter (·.hash ≠ c.hash) := by
  induction l with
  | nil => simp [insertCandidate]
  | cons d rest ih =>
    unfold insertCandidate
    split
    · simp
    · rw [List.filter_cons, List.filter_cons, ih]

omit [Suite] in
theorem rejects_drop (alone : p.index.waiting? hash = none)
    (missing : cause.isMissingDependency = false) (elsewhere : ∀ m, cause ≠ .misdirected m) :
    p.Rejects hash author event cause s ((p.withState s).drop hash) where
  state := rfl
  notices := rfl
  applied := rfl
  others := rfl
  waits h := absurd (missing.symm.trans h) Bool.false_ne_true
  done _ := ⟨rfl, alone⟩
  misdirected m h := absurd h (elsewhere m)

omit [Suite] in
theorem rejects_misdirect {m : PublicKey} (alone : p.index.waiting? hash = none) :
    p.Rejects hash author event (.misdirected m) s ((p.withState s).misdirect hash) where
  state := rfl
  notices := rfl
  applied := rfl
  others := rfl
  waits h := by cases h
  done _ := ⟨rfl, alone⟩
  misdirected _ _ := rfl

omit [Suite] in
theorem rejects_defer (alone : p.index.waiting? c.hash = none)
    (missing : cause.isMissingDependency = true) :
    p.Rejects c.hash c.author c.event cause s ((p.withState s).defer c) where
  state := rfl
  notices := rfl
  applied := rfl
  others := filter_insertCandidate c _
  waits _ := ⟨rfl, c, find?_insertCandidate alone, rfl, rfl⟩
  done h := absurd (h.symm.trans missing) Bool.false_ne_true
  misdirected m h := absurd h (ne_misdirected missing m)

theorem rejects_consider (alone : p.index.waiting? c.hash = none)
    (h : p.index.state.step self c.author c.statement = (.error cause, s)) :
    p.Rejects c.hash c.author c.event cause s (p.consider self c).2 := by
  simp only [consider, h]
  split
  · next heq => cases heq
  · next m heq =>
    cases heq
    exact rejects_misdirect alone
  · next cause' hne heq =>
    cases heq
    split
    · next hmissing => exact rejects_defer alone hmissing
    · next hmissing =>
      exact rejects_drop alone (by simpa using hmissing) hne

/-- What a batch gives to a handler is dropped for what it says by itself, or is tried, and waits
nowhere meanwhile. -/
theorem handles_cases (tidy : p.index.Tidy self reader log)
    (h : Handles self reader p hash author event q) :
    (∃ cause, event.statement self author = .error cause ∧ p.index.waiting? hash = none ∧
        q = p.drop hash) ∨
      ∃ c : Candidate, c.hash = hash ∧ c.author = author ∧ c.event = event ∧
        event.statement self author = .ok c.statement ∧
        q = ((p.release hash).consider self c).2 := by
  cases h with
  | @taken e opened event fresh opens =>
    rw [take, fresh, if_neg Bool.false_ne_true, opens]
    dsimp only
    cases hsaid : event.statement self opened.sender with
    | error cause => exact Or.inl ⟨cause, rfl, waiting?_eq_none fresh, rfl⟩
    | ok said =>
      have hrelease : p.release e.hash = p := by rw [release, others_eq_deferred fresh]
      exact Or.inr ⟨⟨e.hash, opened.sender, event, said⟩, rfl, rfl, rfl, rfl, by rw [hrelease]⟩
  | @retried c waits =>
    obtain ⟨hc, -⟩ := waiting?_eq_some waits
    obtain ⟨-, -, -, -, -, -, hsaid⟩ := tidy.offered c hc
    exact Or.inr ⟨c, rfl, rfl, rfl, hsaid, by rw [retryEntry, waits]⟩

theorem rejects_of_handles (tidy : p.index.Tidy self reader log)
    (h : Handles self reader p hash author event q)
    (failed : p.index.state.handle self author event = (.error cause, s)) :
    p.Rejects hash author event cause s q := by
  unfold State.handle at failed
  rcases handles_cases tidy h with ⟨cause', hsaid, halone, rfl⟩ | ⟨c, rfl, rfl, rfl, hsaid, rfl⟩
  · rw [hsaid] at failed
    cases failed
    obtain ⟨hmissing, helsewhere⟩ := Inherent.statement self author event cause hsaid
    exact rejects_drop halone hmissing helsewhere
  · rw [hsaid] at failed
    have hrejects := rejects_consider (p := p.release c.hash) (waiting?_release p c.hash) failed
    exact ⟨hrejects.state, hrejects.notices, hrejects.applied,
      hrejects.others.trans (others_release c.hash), hrejects.waits, hrejects.done,
      hrejects.misdirected⟩

/-- Whatever a batch gives to a handler that accepts it is done with and told of, and the batch goes
on in the state that the handler leaves. -/
theorem accepts_of_handles (tidy : p.index.Tidy self reader log)
    (h : Handles self reader p hash author event q)
    (accepted : p.index.state.handle self author event = (.ok (), s)) :
    q.index.state = s ∧ q.notices = p.notices ++ [⟨hash, author, event⟩] ∧
      q.index.handled = hash :: p.index.handled ∧ q.index.deferred = p.index.others hash := by
  unfold State.handle at accepted
  rcases handles_cases tidy h with ⟨cause, hsaid, -, -⟩ | ⟨c, rfl, rfl, rfl, hsaid, rfl⟩
  · rw [hsaid] at accepted
    cases accepted
  · rw [hsaid] at accepted
    have hconsider : (p.release c.hash).consider self c =
        (true, ((p.release c.hash).withState s).accept c) := by
      have hstep : (p.release c.hash).index.state.step self c.author c.statement = (.ok (), s) :=
        accepted
      simp only [consider, hstep]
    rw [hconsider]
    exact ⟨rfl, rfl, rfl, rfl⟩

/-! ## Entries that cannot be opened -/

def readable (reader : Log.Reader) (e : Log.Entry) : Bool := (openEntry reader e).isOk

/-- The batch so far with more duplicates and more failures counted. -/
def tally (duplicates failed : Nat) (p : Progress) : Progress :=
  { p with summary := { p.summary with
      duplicates := p.summary.duplicates + duplicates
      failed := p.summary.failed + failed } }

omit [Suite] in
theorem tally_tally (d f d' f' : Nat) (p : Progress) :
    (p.tally d f).tally d' f' = p.tally (d + d') (f + f') := by
  simp only [tally, Nat.add_assoc]

omit [Suite] in
theorem unreadable_tally (d f : Nat) (p : Progress) :
    (p.tally d f).unreadable = p.unreadable.tally d f := by
  simp only [tally, unreadable, Nat.add_right_comm]

omit [Suite] in
theorem duplicate_tally (d f : Nat) (p : Progress) :
    (p.tally d f).duplicate = p.duplicate.tally d f := by
  simp only [tally, duplicate, Nat.add_right_comm]

/-- What was counted before makes no difference to what becomes of an entry. -/
theorem consider_tally (self : Participant) (d f : Nat) (p : Progress) (c : Candidate) :
    (p.tally d f).consider self c =
      ((p.consider self c).1, (p.consider self c).2.tally d f) := by
  have hstate : (p.tally d f).index.state = p.index.state := rfl
  unfold consider
  rw [hstate]
  rcases p.index.state.step self c.author c.statement with ⟨result, s⟩
  dsimp only
  split
  · rfl
  · rfl
  · split
    · rfl
    · exact congrArg (Prod.mk true) (unreadable_tally d f ((p.withState s).handle c.hash))

theorem take_tally (d f : Nat) (p : Progress) (e : Log.Entry) :
    (p.tally d f).take self reader e = (p.take self reader e).tally d f := by
  have hknows : (p.tally d f).index.knows e.hash = p.index.knows e.hash := rfl
  unfold take
  rw [hknows]
  split
  · exact duplicate_tally d f p
  · split
    · exact unreadable_tally d f p
    · split
      · exact unreadable_tally d f (p.handle e.hash)
      · rw [consider_tally]

theorem retryEntry_tally (d f : Nat) (p : Progress) (hash : EntryHash) :
    (p.tally d f).retryEntry self hash =
      ((p.retryEntry self hash).1, (p.retryEntry self hash).2.tally d f) := by
  have hwaiting : (p.tally d f).index.waiting? hash = p.index.waiting? hash := rfl
  unfold retryEntry
  rw [hwaiting]
  split
  · exact consider_tally self d f (p.release hash) _
  · rfl

theorem retryAll_tally (d f : Nat) (p : Progress) (hashes : List EntryHash) :
    (p.tally d f).retryAll self hashes =
      ((p.retryAll self hashes).1, (p.retryAll self hashes).2.tally d f) := by
  induction hashes generalizing p with
  | nil => rfl
  | cons hash rest ih =>
    unfold retryAll
    rw [retryEntry_tally]
    dsimp only
    rw [ih]

theorem retry_tally (d f : Nat) (p : Progress) (rounds : Nat) :
    (p.tally d f).retry self rounds = (p.retry self rounds).tally d f := by
  induction rounds generalizing p with
  | zero => rfl
  | succ rounds ih =>
    have hround : (p.tally d f).retryOnce self =
        ((p.retryOnce self).1, (p.retryOnce self).2.tally d f) := retryAll_tally d f p _
    unfold retry
    rw [hround]
    rcases p.retryOnce self with ⟨_ | _, q⟩
    · rfl
    · exact ih q

theorem finish_tally (d f : Nat) (p : Progress) :
    (p.tally d f).finish self = (p.finish self).tally d f := by
  have hdeferred : (p.tally d f).index.deferred = p.index.deferred := rfl
  unfold finish
  rw [hdeferred, retry_tally]
  rfl

theorem foldl_take_tally (d f : Nat) (p : Progress) (entries : List Log.Entry) :
    entries.foldl (take self reader) (p.tally d f) =
      (entries.foldl (take self reader) p).tally d f := by
  induction entries generalizing p with
  | nil => rfl
  | cons e rest ih => rw [List.foldl_cons, take_tally, ih, List.foldl_cons]

theorem take_of_error (self : Participant) (p : Progress)
    (h : openEntry reader e = .error cause) :
    ∃ d f, d + f = 1 ∧ p.take self reader e = p.tally d f := by
  unfold take
  split
  · exact ⟨1, 0, rfl, rfl⟩
  · rw [h]
    exact ⟨0, 1, rfl, rfl⟩

theorem foldl_take_filter (self : Participant) (reader : Log.Reader) (p : Progress)
    (entries : List Log.Entry) :
    ∃ d f, d + f = entries.countP (!readable reader ·) ∧
      entries.foldl (take self reader) p =
        ((entries.filter (readable reader)).foldl (take self reader) p).tally
          d f := by
  induction entries generalizing p with
  | nil => exact ⟨0, 0, rfl, rfl⟩
  | cons e rest ih =>
    cases hopen : openEntry reader e with
    | ok found =>
      have hreadable : readable reader e = true := by
        rw [readable, hopen]
        rfl
      obtain ⟨d, f, hcount, hrest⟩ := ih (p.take self reader e)
      refine ⟨d, f, ?_, ?_⟩
      · rw [hcount, List.countP_cons_of_neg (by simp [hreadable])]
      · rw [List.filter_cons_of_pos hreadable]
        exact hrest
    | error cause =>
      have hreadable : readable reader e = false := by
        rw [readable, hopen]
        rfl
      obtain ⟨d', f', hone, htake⟩ := take_of_error self p hopen
      obtain ⟨d, f, hcount, hrest⟩ := ih p
      refine ⟨d + d', f + f', ?_, ?_⟩
      · rw [List.countP_cons_of_pos (by simp [hreadable])]
        omega
      · rw [List.filter_cons_of_neg (by simp [hreadable]), List.foldl_cons, htake,
          foldl_take_tally, hrest, tally_tally]

end Progress

/-- A batch comes to the same without the entries that cannot be opened, which are counted only. -/
theorem Index.update_filter (self : Participant) (reader : Log.Reader) (i : Index)
    (entries : List Log.Entry) :
    ∃ d f, d + f = entries.countP (!Progress.readable reader ·) ∧
      i.update self reader entries = (i.update self reader
        (entries.filter (Progress.readable reader))).tally d f := by
  obtain ⟨d, f, hcount, hfilter⟩ := Progress.foldl_take_filter self reader (.start i) entries
  refine ⟨d, f, hcount, ?_⟩
  unfold update
  rw [hfilter, Progress.finish_tally]

/-! ## Main statement -/

/-- A handler that fails leaves the roster and the chain keys of any state as they are, and what was
sent too, unless the local device says that it sent a chain to another member: that is noted, once,
and the event is misdirected.  Wherever a batch gives an entry to a handler that fails, the entry
waits or is done with and nothing else changes.  Entries that cannot be opened change nothing but
two counts of the batch. -/
theorem Reached.rejected_without_effect (h : Reached self reader log told i)
    (entries : List Log.Entry) :
    (∀ (s s' : State) (author : PublicKey) (event : Event) (cause : Error),
      s.handle self author event = (.error cause, s') →
        s'.roster = s.roster ∧ s'.keys = s.keys ∧
          ((s'.sent = s.sent ∧ ∀ dest chainId, ¬ event.SendsElsewhere self author dest chainId) ∨
            ∃ dest chainId, event.SendsElsewhere self author dest chainId ∧
              cause = .misdirected dest ∧
              ∀ x, x ∈ s'.sent ↔ x ∈ s.sent ∨ x = (dest, chainId))) ∧
    (∀ p q hash author event, Progress.Runs self reader (log ++ entries) (.start i) p →
      p.Handles self reader hash author event q → ∀ cause s,
        p.index.state.handle self author event = (.error cause, s) →
          p.Rejects hash author event cause s q) ∧
    ∃ duplicates failed,
      duplicates + failed = entries.countP (!Progress.readable reader ·) ∧
        i.update self reader entries =
          (i.update self reader (entries.filter (Progress.readable reader))).tally
            duplicates failed := by
  refine ⟨?_, ?_, Index.update_filter self reader i entries⟩
  · intro s s' author event cause hfailed
    rcases State.handle_error hfailed with ⟨rfl, hnone⟩ | ⟨dest, chainId, hsends, hcause, rfl⟩
    · exact ⟨rfl, rfl, Or.inl ⟨rfl, hnone⟩⟩
    · exact ⟨State.roster_noteSent _ _ _, State.keys_noteSent _ _ _,
        Or.inr ⟨dest, chainId, hsends, hcause, fun x => State.mem_sent_noteSent⟩⟩
  · intro p q hash author event hrun hhandles cause s hfailed
    have htidy := hrun.tidy (h.tidy.mono fun d hd => List.mem_append_left entries hd)
    exact Progress.rejects_of_handles htidy hhandles hfailed

end SecureGroup.Metadata

/-! ## A secret for someone else -/

namespace SecureGroup.Metadata

attribute [local instance] Suite.plain

open Plain

/-- Device 2 finds in the log that it sent its chain to member 3, and an entry that is no event. -/
theorem rejected_without_effect_misdirected :
    let self := participant 1 2
    let i := Index.empty (chains 2)
    let sent :=
      Event.secretAdded (key 2).pub.bytes.toList (key 3).pub.bytes.toList 0 ⟨.fit 32 [], []⟩
    (Progress.start i).Rejects (entry 2 sent).hash (key 2).pub sent (.misdirected (key 3).pub)
        (i.state.noteSent (key 3).pub 0) ((Progress.start i).take self reader (entry 2 sent)) ∧
      ∃ duplicates failed, duplicates + failed = 1 ∧
        i.update self reader [entry 2 sent, .at 0 []] =
          (i.update self reader [entry 2 sent]).tally duplicates failed := by
  intro self i sent
  have hreached : Reached self reader [] [] i := .empty (chains 2)
  obtain ⟨-, hrejects, hunreadable⟩ := hreached.rejected_without_effect [entry 2 sent, .at 0 []]
  have hopens : Progress.openEntry reader (entry 2 sent) =
      .ok (⟨(entry 2 sent).hash, 0, (key 2).pub, 0, Event.codec.encode sent⟩, sent) := by
    decide +kernel
  have hsaid : sent.statement self (key 2).pub = .ok (.sent (key 3).pub 0 none) := by
    decide +kernel
  refine ⟨hrejects _ _ _ _ _ (.refl _) (.taken rfl hopens) _ _ ?_, ?_⟩
  · rw [State.handle, hsaid]
    rfl
  · have hreadable : Progress.readable reader (entry 2 sent) = true ∧
        Progress.readable reader (.at 0 []) = false := by decide +kernel
    rwa [List.countP_cons_of_neg (by simp [hreadable]), List.countP_cons_of_pos
      (by simp [hreadable]), List.filter_cons_of_pos hreadable.1, List.filter_cons_of_neg
      (by simp [hreadable])] at hunreadable

end SecureGroup.Metadata
