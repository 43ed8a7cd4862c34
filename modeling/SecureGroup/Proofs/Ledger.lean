import SecureGroup.Proofs.Signatures
import SecureGroup.Proofs.Views

/-!
# What is done with and what waits

When a hash stands for one payload only, an index is done with exactly those entries that open and
whose references are known, or whose own claims do not hold (`Reached.mem_handled_iff`).  The rest
of what is on offer waits (`Reached.mem_deferred_iff`), and the secrets that this device sent are
those in the log (`Reached.mem_sent_iff`).  None of this depends on the order of the entries
otherwise than through the roster.
-/

namespace SecureGroup.Metadata

variable [Suite] {self : Participant} {reader : Log.Reader} {log entries : List Log.Entry}
  {told more : List Notice} {i j : Index} {c c' : Candidate} {e e' : Log.Entry} {hash : EntryHash}

/-! ## Entries of one payload -/

/-- A hash stands for one payload only. -/
def OnePayload (log : List Log.Entry) : Prop :=
  ∀ e ∈ log, ∀ e' ∈ log, e.hash = e'.hash → e.payload = e'.payload

instance (log : List Log.Entry) : Decidable (OnePayload log) :=
  inferInstanceAs (Decidable (∀ e ∈ log, ∀ e' ∈ log, e.hash = e'.hash → e.payload = e'.payload))

omit [Suite] in
theorem OnePayload.of_subset (h : OnePayload entries) (sub : ∀ e ∈ log, e ∈ entries) :
    OnePayload log :=
  fun e he e' he' => h e (sub e he) e' (sub e' he')

/-- What an entry opens to depends on its payload, its hash and place apart. -/
theorem openEntry_of_payload {opened : Log.Opened} {event : Event} (hp : e.payload = e'.payload)
    (h : Progress.openEntry reader e = .ok (opened, event)) :
    ∃ opened', Progress.openEntry reader e' = .ok (opened', event) ∧
      opened'.sender = opened.sender := by
  simp only [Progress.openEntry, Log.Reader.read, bind_eq_ok_iff] at h
  obtain ⟨_, ⟨envelope, henvelope, payload, hpayload, hread⟩, event', hevent, hpair⟩ := h
  cases hread
  cases hpair
  refine ⟨⟨e'.hash, e'.position, envelope.sender, envelope.clock, payload⟩, ?_, rfl⟩
  simp only [Progress.openEntry, Log.Reader.read, bind_eq_ok_iff]
  rw [hp] at henvelope
  exact ⟨_, ⟨envelope, henvelope, payload, hpayload, rfl⟩, event, hevent, rfl⟩

theorem Candidate.Of.hash_eq (h : c.Of self reader e) : c.hash = e.hash := by
  obtain ⟨-, -, hc, -⟩ := h
  exact hc

theorem Candidate.Of.congr (h : c.Of self reader e) (hh : e.hash = e'.hash)
    (hp : e.payload = e'.payload) : c.Of self reader e' := by
  obtain ⟨opened, ho, hc, ha, hs⟩ := h
  obtain ⟨opened', ho', hsender⟩ := openEntry_of_payload hp ho
  exact ⟨opened', ho', hc.trans hh, ha.trans hsender.symm, hs⟩

theorem Candidate.Of.unique (h : c.Of self reader e) (h' : c'.Of self reader e) : c = c' := by
  obtain ⟨hash, author, event, said⟩ := c
  obtain ⟨hash', author', event', said'⟩ := c'
  obtain ⟨opened, ho, hc, ha, hs⟩ := h
  obtain ⟨opened', ho', hc', ha', hs'⟩ := h'
  obtain ⟨rfl, rfl⟩ := Prod.mk.inj (Except.ok.inj (ho.symm.trans ho'))
  dsimp only at hc hc' ha ha' hs hs'
  subst hc hc' ha ha'
  rw [Except.ok.inj (hs.symm.trans hs')]

/-- An entry of the hash of a candidate makes that candidate. -/
theorem Offered.of_hash (h : Offered self reader log c) (hd : OnePayload log) (he : e ∈ log)
    (hh : c.hash = e.hash) : c.Of self reader e := by
  obtain ⟨d, hd', hc⟩ := h
  have hhash : d.hash = e.hash := hc.hash_eq.symm.trans hh
  exact hc.congr hhash (hd d hd' e he hhash)

theorem Offered.unique (h : Offered self reader log c) (h' : Offered self reader log c')
    (hd : OnePayload log) (hh : c.hash = c'.hash) : c = c' := by
  obtain ⟨e, he, hc'⟩ := h'
  exact (h.of_hash hd he (hh.trans hc'.hash_eq)).unique hc'

/-! ## The ledger -/

/-- The books of an index beside its state: what was told is done with, everything that is done
with has its references, and the chains that were sent are those of its entries. -/
structure Ledger (p : Participant) (reader : Log.Reader) (log : List Log.Entry)
    (told : List Notice) (i : Index) : Prop where
  told : ∀ n ∈ told, n.entry ∈ i.handled
  enabled : ∀ c, Offered p reader log c → c.hash ∈ i.handled →
    i.state.roster.Enabled c.author c.statement
  sent : ∀ x, x ∈ i.state.sent ↔ ∃ c, Offered p reader log c ∧ c.hash ∈ i.handled ∧
    c.author = p.ids.device ∧ c.statement.sent? = some x

theorem Offered.hash_ne_of_error {opened : Log.Opened} {event : Event} {cause : Error}
    (h : Offered self reader log c) (hd : OnePayload log) (he : e ∈ log)
    (ho : Progress.openEntry reader e = .ok (opened, event))
    (hs : event.statement self opened.sender = .error cause) : c.hash ≠ e.hash := by
  intro hh
  obtain ⟨opened', ho', -, ha, hs'⟩ := h.of_hash hd he hh
  obtain ⟨rfl, rfl⟩ := Prod.mk.inj (Except.ok.inj (ho.symm.trans ho'))
  rw [ha, hs] at hs'
  cases hs'

theorem ledger_empty (keys : ChainKeys) : Ledger self reader log [] (.empty keys) where
  told n hn := by cases hn
  enabled c _ hm := by cases hm
  sent x := by
    constructor
    · intro hx
      cases hx
    · rintro ⟨c, -, hm, -⟩
      cases hm

/-! ## What a move adds to the ledger -/

/-- An entry that a move is done with was done with before, or had all its references known and is
in force now, or is refused. -/
theorem Move.mem_handled_cases (h : Move self reader log i j more) (hd : OnePayload log)
    (hc : Offered self reader log c) (hm : c.hash ∈ j.handled) :
    c.hash ∈ i.handled ∨ c.hash ∉ i.handled ∧ i.state.roster.Enabled c.author c.statement ∧
      (j.state.roster.Holds c.statement ∨ i.state.roster.Refused c.statement) := by
  rcases h.handled_cases with ⟨-, hh, -⟩ | ⟨-, e, he, opened, event, cause, ho, hbad, hh, -⟩ |
    ⟨d, hdc, hfresh, -, hh, -, hen, hor⟩
  · exact Or.inl (hh ▸ hm)
  · -- nothing on offer has the hash of the invalid entry
    rw [hh, List.mem_cons] at hm
    exact Or.inl (hm.resolve_left (hc.hash_ne_of_error hd he ho hbad))
  · rw [hh, List.mem_cons] at hm
    rcases hm with hm | hm
    · obtain rfl := hc.unique hdc hd hm
      exact Or.inr ⟨hfresh, hen, hor⟩
    · exact Or.inl hm

theorem Move.mem_handled_of_told (h : Move self reader log i j more) :
    ∀ n ∈ more, n.entry ∈ j.handled := by
  intro n hn
  rcases h.handled_cases with ⟨rfl, -⟩ | ⟨rfl, -⟩ | ⟨c, -, -, htold, hh, -⟩
  · cases hn
  · cases hn
  · rw [htold n hn, hh]
    exact List.mem_cons_self

/-- The chains that a move adds are those of the entry that it is done with. -/
theorem Move.mem_sent_iff (h : Move self reader log i j more) (hd : OnePayload log)
    {x : PublicKey × UInt64} : x ∈ j.state.sent ↔ x ∈ i.state.sent ∨
      ∃ c, Offered self reader log c ∧ c.hash ∉ i.handled ∧ c.hash ∈ j.handled ∧
        c.author = self.ids.device ∧ c.statement.sent? = some x := by
  rcases h.handled_cases with ⟨-, hh, hs⟩ | ⟨-, e, he, opened, event, cause, ho, hbad, hh, hs⟩ |
    ⟨c, hc, hfresh, -, hh, hs, -⟩
  · rw [hs, hh]
    refine (or_iff_left ?_).symm
    rintro ⟨c, -, hnew, hm, -⟩
    exact hnew hm
  · rw [hs, hh]
    refine (or_iff_left ?_).symm
    rintro ⟨c, hc, hnew, hm, -⟩
    exact hnew ((List.mem_cons.1 hm).resolve_left (hc.hash_ne_of_error hd he ho hbad))
  · rw [hs, hh, State.mem_sent_step]
    refine or_congr_right ⟨fun hx => ⟨c, hc, hfresh, List.mem_cons_self, hx⟩, ?_⟩
    rintro ⟨d, hdc, hnew, hm, hx⟩
    obtain rfl := hdc.unique hc hd ((List.mem_cons.1 hm).resolve_right hnew)
    exact hx

theorem Move.ledger (h : Move self reader log i j more) (hd : OnePayload log)
    (hi : Ledger self reader log told i) : Ledger self reader log (told ++ more) j where
  told n hn := by
    rcases List.mem_append.1 hn with hn | hn
    · exact h.extends.handled (hi.told n hn)
    · exact h.mem_handled_of_told n hn
  enabled c hc hm := by
    rcases h.mem_handled_cases hd hc hm with hold | ⟨-, hen, -⟩
    · exact (hi.enabled c hc hold).mono h.extends.roster.within
    · exact hen.mono h.extends.roster.within
  sent x := by
    rw [h.mem_sent_iff hd, hi.sent]
    constructor
    · rintro (⟨c, hc, hm, hx⟩ | ⟨c, hc, -, hm, hx⟩)
      · exact ⟨c, hc, h.extends.handled hm, hx⟩
      · exact ⟨c, hc, hm, hx⟩
    · rintro ⟨c, hc, hm, hx⟩
      by_cases hold : c.hash ∈ i.handled
      · exact Or.inl ⟨c, hc, hold, hx⟩
      · exact Or.inr ⟨c, hc, hold, hm, hx⟩

namespace Reached

theorem ledger (h : Reached self reader log told i) (hd : OnePayload log) :
    Ledger self reader log told i := by
  refine h.invariant (P := fun told i => Ledger self reader log told i) ?_ ?_ ?_
  · exact fun keys => ledger_empty keys
  · exact fun keys hi => ⟨hi.told, hi.enabled, hi.sent⟩
  · exact fun _ hi hm => hm.ledger hd hi

/-- Whatever is on offer and has its references is done with. -/
theorem mem_handled_of_enabled (h : Reached self reader log told i) (hd : OnePayload log)
    (hc : Offered self reader log c) (hen : i.state.roster.Enabled c.author c.statement) :
    c.hash ∈ i.handled := by
  obtain ⟨e, he, hce⟩ := id hc
  have hhash := hce.hash_eq
  rcases Index.knows_eq_true_iff.1 (h.knows he hce.opens) with hm | ⟨d, hm, hdh⟩
  · rwa [hhash]
  · obtain rfl := (h.tidy.offered d hm).unique hc hd (hdh.trans hhash.symm)
    exact absurd hen (h.settled d hm)

theorem mem_deferred_iff (h : Reached self reader log told i) (hd : OnePayload log) :
    c ∈ i.deferred ↔
      Offered self reader log c ∧ ¬ i.state.roster.Enabled c.author c.statement := by
  constructor
  · intro hc
    exact ⟨h.tidy.offered c hc, h.settled c hc⟩
  · rintro ⟨hc, hne⟩
    obtain ⟨e, he, hce⟩ := id hc
    have hhash := hce.hash_eq
    rcases Index.knows_eq_true_iff.1 (h.knows he hce.opens) with hm | ⟨d, hm, hdh⟩
    · exact absurd ((h.ledger hd).enabled c hc (hhash ▸ hm)) hne
    · obtain rfl := (h.tidy.offered d hm).unique hc hd (hdh.trans hhash.symm)
      exact hm

theorem mem_handled_iff (h : Reached self reader log told i) (hd : OnePayload log) :
    hash ∈ i.handled ↔ ∃ e ∈ log, e.hash = hash ∧ Opens reader e ∧
      ∀ c : Candidate, c.Of self reader e →
        i.state.roster.Enabled c.author c.statement := by
  constructor
  · intro hm
    obtain ⟨e, he, rfl, ho⟩ := h.tidy.opened hash hm
    refine ⟨e, he, rfl, ho, fun c hc => ?_⟩
    exact (h.ledger hd).enabled c ⟨e, he, hc⟩ (hc.hash_eq ▸ hm)
  · rintro ⟨e, he, rfl, ho, hall⟩
    rcases Index.knows_eq_true_iff.1 (h.knows he ho) with hm | ⟨c, hc, hh⟩
    · exact hm
    · exact absurd (hall c ((h.tidy.offered c hc).of_hash hd he hh)) (h.settled c hc)

/-- The chains that this device sent are those that the log says it sent. -/
theorem mem_sent_iff (h : Reached self reader log told i) (hd : OnePayload log)
    {x : PublicKey × UInt64} : x ∈ i.state.sent ↔ ∃ c, Offered self reader log c ∧
      c.author = self.ids.device ∧ c.statement.sent? = some x := by
  rw [(h.ledger hd).sent]
  constructor
  · rintro ⟨c, hc, -, hx⟩
    exact ⟨c, hc, hx⟩
  · rintro ⟨c, hc, ha, hx⟩
    -- a secret needs nobody to be known
    have hen : i.state.roster.Enabled c.author c.statement := by
      cases hs : c.statement with
      | sent recipient chainId chain => trivial
      | announced pair => rw [hs] at hx; cases hx
      | joined pair inviter => rw [hs] at hx; cases hx
      | extended pair => rw [hs] at hx; cases hx
      | granted member => rw [hs] at hx; cases hx
    exact ⟨c, hc, h.mem_handled_of_enabled hd hc hen, ha, hx⟩

end Reached

end SecureGroup.Metadata
