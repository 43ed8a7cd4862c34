import SecureGroup.Proofs.Rejection

/-!
# What waits

An event passes its checks when its keys are keys, its author is the right one, and its signatures,
its proof or its secret are in order (`Event.Checks`); that depends on nothing but the event.  A
replay goes on after whatever comes of opening an entry, reading its event and handling it.  An
entry waits exactly if its event passes the checks and its handler misses someone: a member, a
device or an admin.  So what is forged or malformed never waits (`Reached.waits_iff`).
-/

namespace SecureGroup.Metadata

variable [Suite] {self : Participant} {reader : Log.Reader} {log entries : List Log.Entry}
  {told : List Notice} {i : Index} {e : Log.Entry} {s s' : State} {author : PublicKey}
  {event : Event} {cause : Error} {hash : EntryHash} {p q : Progress}

/-! ## Checks of an event -/

/-- An event of a device passes the checks that do not depend on the log: it announces a member,
lets one join, adds a device, makes an admin or sends a chain, as it should. -/
def Event.Checks (p : Participant) (author : PublicKey) (event : Event) : Prop :=
  (∃ pair, event.Announces p author pair) ∨ (∃ pair inviter, event.Invites p inviter pair) ∨
    (∃ pair, event.AddsDevice p pair) ∨ (∃ member, event.Grants member) ∨
      ∃ recipient chainId chain, event.Sends p author recipient chainId chain

/-- An event passes the checks exactly if it makes a statement. -/
theorem Event.checks_iff {p : Participant} :
    event.Checks p author ↔ ∃ said, event.statement p author = .ok said := by
  constructor
  · rintro (⟨pair, h⟩ | ⟨pair, inviter, h⟩ | ⟨pair, h⟩ | ⟨member, h⟩ |
      ⟨recipient, chainId, chain, h⟩)
    · exact ⟨_, statement_eq_announced_iff.2 h⟩
    · exact ⟨_, statement_eq_joined_iff.2 h⟩
    · exact ⟨_, statement_eq_extended_iff.2 h⟩
    · exact ⟨_, statement_eq_granted_iff.2 h⟩
    · exact ⟨_, statement_eq_sent_iff.2 h⟩
  · rintro ⟨said, h⟩
    cases said with
    | announced pair => exact Or.inl ⟨pair, statement_eq_announced_iff.1 h⟩
    | joined pair inviter => exact Or.inr (Or.inl ⟨pair, inviter, statement_eq_joined_iff.1 h⟩)
    | extended pair => exact Or.inr (Or.inr (Or.inl ⟨pair, statement_eq_extended_iff.1 h⟩))
    | granted member =>
      exact Or.inr (Or.inr (Or.inr (Or.inl ⟨member, statement_eq_granted_iff.1 h⟩)))
    | sent recipient chainId chain =>
      exact Or.inr (Or.inr (Or.inr (Or.inr
        ⟨recipient, chainId, chain, statement_eq_sent_iff.1 h⟩)))

/-! ## Errors of handlers -/

def handlerKinds : List Error.Kind :=
  .secretMisdirected :: Error.inherentKinds ++ Error.missingKinds

theorem State.raises_handle (self : Participant) (s : State) (author : PublicKey) (event : Event) :
    Raises handlerKinds (s.handle self author event).1 := by
  have hsaid := event.raises_statement self author
  intro cause h
  unfold handle at h
  cases hstatement : event.statement self author with
  | error cause' =>
    rw [hstatement] at h
    obtain rfl := Except.error.inj h
    exact List.mem_append_left _ (List.mem_cons_of_mem _ (hsaid _ hstatement))
  | ok said =>
    rw [hstatement] at h
    rcases step_error (Prod.ext h rfl) with ⟨henrol, -⟩ | ⟨dest, chainId, -, rfl, -⟩
    · have hsub : Error.Kind.internal :: Error.missingKinds ⊆ handlerKinds := by decide
      exact hsub (s.roster.raises_enrol author said _ henrol)
    · exact List.mem_cons_self

/-- A handler misses someone only after the checks. -/
theorem Event.checks_of_missing (h : s.handle self author event = (.error cause, s'))
    (missing : cause.isMissingDependency = true) : event.Checks self author := by
  rw [checks_iff]
  unfold State.handle at h
  cases hsaid : event.statement self author with
  | ok said => exact ⟨said, rfl⟩
  | error cause' =>
    rw [hsaid] at h
    cases h
    rw [(Inherent.statement self author event cause hsaid).1] at missing
    cases missing

namespace Progress

theorem index_take_of_error (self : Participant) (p : Progress)
    (h : openEntry reader e = .error cause) : (p.take self reader e).index = p.index := by
  obtain ⟨d, f, -, htake⟩ := take_of_error self p h
  rw [htake]
  rfl

theorem waits_iff_of_handles (tidy : p.index.Tidy self reader log)
    (h : Handles self reader p hash author event q) :
    (∃ c, q.index.waiting? hash = some c) ↔ ∃ cause,
      (p.index.state.handle self author event).1 = .error cause ∧
        cause.isMissingDependency = true := by
  cases hresult : (p.index.state.handle self author event).1 with
  | ok done =>
    obtain ⟨-, -, -, hdeferred⟩ := accepts_of_handles tidy h (Prod.ext hresult rfl)
    have hnone : q.index.waiting? hash = none := by
      rw [Index.waiting?, hdeferred]
      exact waiting?_release p hash
    rw [hnone]
    simp
  | error cause =>
    have hrejects := rejects_of_handles tidy h (Prod.ext hresult rfl)
    cases hmissing : cause.isMissingDependency with
    | false =>
      rw [(hrejects.done hmissing).2]
      simp [hmissing]
    | true =>
      obtain ⟨-, c, hc, -⟩ := hrejects.waits hmissing
      exact iff_of_true ⟨c, hc⟩ ⟨cause, rfl, hmissing⟩

end Progress

/-! ## Main statement -/

/-- In whatever state of the index, a replay goes on after every error of opening an entry, reading
its event and handling it.  An entry that cannot be opened or read leaves the index as it is.
Wherever a batch gives an entry to its handler, the entry waits afterwards exactly if its event
passes the checks and the handler fails because of an unknown member, an unknown device or someone
who is no admin.  So all that waits was opened from the log and passes the checks. -/
theorem Reached.waits_iff (h : Reached self reader log told i) (entries : List Log.Entry) :
    (∀ e cause, Progress.openEntry reader e = .error cause →
      cause.recoverable = true ∧ cause.kind ∉ Error.missingKinds ∧
        ∀ p : Progress, (p.take self reader e).index = p.index) ∧
    (∀ (s s' : State) author event cause, s.handle self author event = (.error cause, s') →
      cause.recoverable = true) ∧
    (∀ p q hash author event, Progress.Runs self reader (log ++ entries) (.start i) p →
      p.Handles self reader hash author event q →
        ((∃ c, q.index.waiting? hash = some c) ↔ event.Checks self author ∧ ∃ cause,
          (p.index.state.handle self author event).1 = .error cause ∧
            cause.kind ∈ Error.missingKinds)) ∧
    ∀ c ∈ i.deferred, c.event.Checks self c.author ∧ ∃ e ∈ log, ∃ opened,
      Progress.openEntry reader e = .ok (opened, c.event) ∧ c.hash = e.hash ∧
        c.author = opened.sender := by
  refine ⟨fun e cause hopen => ?_, fun s s' author event cause hfailed => ?_,
    fun p q hash author event hrun hhandles => ?_, fun c hc => ?_⟩
  · have hraises := Progress.raises_openEntry reader e
    refine ⟨recoverable_of_raises hraises hopen (by decide), ?_, fun p => ?_⟩
    · have hmissing := not_missing_of_raises hraises hopen (by decide)
      rw [← Error.isMissingDependency_iff_kind, hmissing]
      exact Bool.false_ne_true
    · exact Progress.index_take_of_error self p hopen
  · exact recoverable_of_raises (s.raises_handle self author event) (congrArg Prod.fst hfailed)
      (by decide)
  · have htidy := hrun.tidy (h.tidy.mono fun d hd => List.mem_append_left entries hd)
    simp only [← Error.isMissingDependency_iff_kind]
    rw [Progress.waits_iff_of_handles htidy hhandles]
    refine ⟨fun hwaits => ⟨?_, hwaits⟩, And.right⟩
    obtain ⟨cause, hresult, hmissing⟩ := hwaits
    exact Event.checks_of_missing (Prod.ext hresult rfl) hmissing
  · obtain ⟨e, he, opened, hopen, hhash, hauthor, hsaid⟩ := h.tidy.offered c hc
    exact ⟨Event.checks_iff.2 ⟨_, hsaid⟩, e, he, opened, hopen, hhash, hauthor⟩

end SecureGroup.Metadata

/-! ## A member who joins early, and a forged one -/

namespace SecureGroup.Metadata

attribute [local instance] Suite.plain

open Plain

/-- A member joins before the log tells of the inviter, and waits.  A device without the signature
of its member does not wait, and octets that are no entry are passed over. -/
theorem Reached.waits_iff_joined_early :
    let self := participant 1 2
    let p := Progress.start (.empty (chains 2))
    let early := entry 4 (joined 1 3 4)
    let unsigned := Event.deviceAdded (key 3).pub.bytes.toList (key 4).pub.bytes.toList [] none
    let forged := entry 4 unsigned
    ((∃ c, (p.take self reader early).index.waiting? early.hash = some c) ∧
        (joined 1 3 4).Checks self (key 4).pub) ∧
      (¬ ∃ c, (p.take self reader forged).index.waiting? forged.hash = some c) ∧
      (p.take self reader (.at 0 [])).index = p.index := by
  intro self p early unsigned forged
  have hreached : Reached self reader [] [] (.empty (chains 2)) := .empty (chains 2)
  obtain ⟨hopening, -, hwaits, -⟩ := hreached.waits_iff [early, forged, .at 0 []]
  have hfacts : Progress.openEntry reader early = .ok (⟨early.hash, 0, (key 4).pub, 0,
        Event.codec.encode (joined 1 3 4)⟩, joined 1 3 4) ∧
      Progress.openEntry reader forged =
        .ok (⟨forged.hash, 0, (key 4).pub, 0, Event.codec.encode unsigned⟩, unsigned) ∧
      Progress.openEntry reader (.at 0 []) = .error (.undecodable .envelope .endOfInput) ∧
      (joined 1 3 4).statement self (key 4).pub =
        .ok (.joined ⟨(key 3).pub, (key 4).pub⟩ (key 1).pub) ∧
      unsigned.statement self (key 4).pub =
        .error (.deviceNotAuthorized (key 3).pub (key 4).pub) := by
    decide +kernel
  obtain ⟨hearly, hforged, hnone, hjoined, hunsigned⟩ := hfacts
  have hchecks : (joined 1 3 4).Checks self (key 4).pub := Event.checks_iff.2 ⟨_, hjoined⟩
  refine ⟨⟨?_, hchecks⟩, ?_, (hopening _ _ hnone).2.2 p⟩
  · refine (hwaits _ _ _ _ _ (.refl _) (.taken rfl hearly)).2
      ⟨hchecks, .unknownMember (key 1).pub, ?_, by decide⟩
    rw [State.handle, hjoined]
    rfl
  · rw [hwaits _ _ _ _ _ (.refl _) (.taken rfl hforged)]
    rintro ⟨-, cause, hresult, hkind⟩
    rw [State.handle, hunsigned] at hresult
    obtain rfl := Except.error.inj hresult
    exact absurd hkind (by decide)

end SecureGroup.Metadata
