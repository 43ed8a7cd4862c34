import SecureGroup.Proofs.Signatures
import SecureGroup.Proofs.Views

/-!
# Where membership comes from

Everyone in a roster is there for a reason that can be shown from the notices.  `Record` follows a
roster along the notices that were given; the roster at any moment is what the notices up to then
lead to (`Roster.after`).  `Lineage` is the chain of inviters of a member, each of whom was a member
before, down to one that the group announced.  `Empowered` is the announcement or the grant that
made an admin, with the standing of the granter at that moment.  `Reached.provenance` gives them for
every reached index.
-/

namespace SecureGroup.Metadata

variable [Suite] {self p : Participant} {reader : Log.Reader} {log log' : List Log.Entry}
  {told more : List Notice} {r r' : Roster} {i j : Index} {c : Candidate} {m d : PublicKey}

/-- A notice tells what an entry of the log was opened to. -/
def Notice.Delivered (n : Notice) (reader : Log.Reader) (log : List Log.Entry) : Prop :=
  ∃ e ∈ log, ∃ opened, Progress.openEntry reader e = .ok (opened, n.event) ∧ n.entry = e.hash ∧
    n.sender = opened.sender

/-- The roster with what a notice tells. -/
def Roster.follow (p : Participant) (r : Roster) (n : Notice) : Roster :=
  match n.event.statement p n.sender with
  | .error _ => r
  | .ok said =>
    match r.enrol n.sender said with
    | .error _ => r
    | .ok r => r

/-- The roster when so much was told. -/
def Roster.after (p : Participant) (told : List Notice) : Roster :=
  told.foldl (Roster.follow p) .empty

/-- A roster comes about from entries of the log, of each of which notice was given. -/
inductive Record (self : Participant) (reader : Log.Reader) (log : List Log.Entry) :
    List Notice → Roster → Prop
  | empty : Record self reader log [] .empty
  | told {told : List Notice} {r r' : Roster} {c : Candidate}
      (before : Record self reader log told r) (offered : Offered self reader log c)
      (enrolled : r.enrol c.author c.statement = .ok r') :
      Record self reader log (told ++ [c.notice]) r'

theorem Offered.statement (h : Offered self reader log c) :
    c.event.statement self c.author = .ok c.statement := by
  obtain ⟨e, -, opened, -, -, -, hs⟩ := h
  exact hs

theorem Offered.delivered (h : Offered self reader log c) : c.notice.Delivered reader log := by
  obtain ⟨e, he, opened, ho, hh, ha, -⟩ := h
  exact ⟨e, he, opened, ho, hh, ha⟩

namespace Record

theorem delivered (h : Record self reader log told r) : ∀ n ∈ told, n.Delivered reader log := by
  induction h with
  | empty => exact fun n hn => by cases hn
  | told before offered enrolled ih =>
    intro n hn
    rcases List.mem_append.1 hn with hn | hn
    · exact ih n hn
    · rw [List.mem_singleton.1 hn]
      exact offered.delivered

theorem roster_eq (h : Record self reader log told r) : r = Roster.after self told := by
  induction h with
  | empty => rfl
  | @told told r r' c before offered enrolled ih =>
    have hfollow : r.follow self c.notice = r' := by
      simp only [Roster.follow, Candidate.notice, offered.statement, enrolled]
    rw [Roster.after, List.foldl_append, ← Roster.after, ← ih]
    exact hfollow.symm

/-- Whatever was told was enrolled, on the roster of that moment. -/
theorem accepted (h : Record self reader log told r) {before after : List Notice} {n : Notice}
    (split : told = before ++ n :: after) :
    ∃ said, n.event.statement self n.sender = .ok said ∧
      (Roster.after self before).enrol n.sender said =
        .ok (Roster.after self (before ++ [n])) := by
  induction h generalizing after with
  | empty => simp at split
  | @told told r r' c prior offered enrolled ih =>
    have hroster := (prior.told offered enrolled).roster_eq
    rcases List.eq_nil_or_concat after with rfl | ⟨rest, last, rfl⟩
    · obtain ⟨rfl, hn⟩ := List.append_inj' split rfl
      obtain rfl := List.singleton_inj.1 hn
      refine ⟨c.statement, offered.statement, ?_⟩
      rw [← prior.roster_eq, ← hroster]
      exact enrolled
    · rw [List.concat_eq_append, ← List.cons_append, ← List.append_assoc] at split
      exact ih (List.append_inj' split rfl).1

theorem consistent (h : Record self reader log told r) : r.Consistent := by
  induction h with
  | empty => exact Roster.consistent_empty
  | told before offered enrolled ih => exact ih.enrol enrolled

end Record

theorem Move.record (h : Move self reader log i j more)
    (hi : Record self reader log told i.state.roster) :
    Record self reader log (told ++ more) j.state.roster := by
  rcases h.roster_cases with ⟨rfl, hr⟩ | ⟨c, hc, rfl, he⟩
  · rw [hr, List.append_nil]
    exact hi
  · exact hi.told hc he

theorem Reached.record (h : Reached self reader log told i) :
    Record self reader log told i.state.roster := by
  refine h.invariant (P := fun told i => Record self reader log told i.state.roster) ?_ ?_ ?_
  · exact fun keys => .empty
  · exact fun keys hi => hi
  · exact fun _ hi hm => hm.record hi

/-- A device is where some statement put it. -/
theorem Record.exists_pair (h : Record self reader log told r) (hd : r.owner? d = some m) :
    ∃ c, Offered self reader log c ∧ c.notice ∈ told ∧ c.statement.pair? = some ⟨m, d⟩ := by
  induction h with
  | empty => cases hd
  | @told told r r' c before offered enrolled ih =>
    rcases (Roster.owner?_of_enrol enrolled).1 hd with hold | hnew
    · obtain ⟨c', hc, ht, hp⟩ := ih hold
      exact ⟨c', hc, List.mem_append_left _ ht, hp⟩
    · exact ⟨c, offered, by simp, hnew⟩

/-- An admin is one by some statement. -/
theorem Record.exists_admin (h : Record self reader log told r) (hm : r.isAdmin m = true) :
    ∃ c, Offered self reader log c ∧ c.notice ∈ told ∧ c.statement.admin? = some m := by
  induction h with
  | empty => cases hm
  | @told told r r' c before offered enrolled ih =>
    rcases (Roster.isAdmin_of_enrol enrolled).1 hm with hold | hnew
    · obtain ⟨c', hc, ht, ha⟩ := ih hold
      exact ⟨c', hc, List.mem_append_left _ ht, ha⟩
    · exact ⟨c, offered, by simp, hnew⟩

/-! ## Members -/

/-- A member was announced by the group, or let in by someone who was a member before and has a
lineage of its own. -/
inductive Lineage (self : Participant) : List Notice → PublicKey → Prop
  | announced {before after : List Notice} {n : Notice} {pair : MemberDevice}
      (announced : n.event.Announces self n.sender pair) :
      Lineage self (before ++ n :: after) pair.member
  | invited {before after : List Notice} {n : Notice} {pair : MemberDevice} {inviter : PublicKey}
      (invited : n.event.Invites self inviter pair)
      (member : (Roster.after self before).isMember inviter = true)
      (lineage : Lineage self before inviter) : Lineage self (before ++ n :: after) pair.member

theorem Lineage.append (h : Lineage self told m) (more : List Notice) :
    Lineage self (told ++ more) m := by
  cases h with
  | announced announced =>
    rw [List.append_assoc, List.cons_append]
    exact .announced announced
  | invited invited member lineage =>
    rw [List.append_assoc, List.cons_append]
    exact .invited invited member lineage

theorem Record.lineage (h : Record self reader log told r) (hm : r.isMember m = true) :
    Lineage self told m := by
  induction h generalizing m with
  | empty => cases hm
  | @told told r r' c before offered enrolled ih =>
    have hsaid := offered.statement
    obtain ⟨d, hd⟩ := (before.consistent.enrol enrolled).isMember_iff.1 hm
    rcases Roster.owner?_cases_of_enrol enrolled hd with hold | hs | ⟨inviter, hs, hinviter⟩ |
      ⟨hs, hmember⟩
    · exact (ih (before.consistent.isMember_iff.2 ⟨d, hold⟩)).append [c.notice]
    · rw [hs] at hsaid
      have hann : c.notice.event.Announces self c.notice.sender ⟨m, d⟩ :=
        Event.statement_eq_announced_iff.1 hsaid
      exact .announced hann
    · rw [hs] at hsaid
      have hinv : c.notice.event.Invites self inviter ⟨m, d⟩ :=
        Event.statement_eq_joined_iff.1 hsaid
      have hbefore : (Roster.after self told).isMember inviter = true := by
        rw [← before.roster_eq]
        exact hinviter
      exact .invited hinv hbefore (ih hinviter)
    · -- whoever adds a device without a proof was a member already
      exact (ih hmember).append [c.notice]

/-! ## Devices -/

theorem Event.signsDevice_of_statement {event : Event} {author : PublicKey} {said : Statement}
    {pair : MemberDevice} (h : event.statement p author = .ok said) (hp : said.pair? = some pair) :
    event.SignsDevice p pair := by
  cases said with
  | announced q =>
    obtain rfl := Option.some.inj hp
    exact (statement_eq_announced_iff.1 h).1
  | joined q inviter =>
    obtain rfl := Option.some.inj hp
    exact (statement_eq_joined_iff.1 h).1
  | extended q =>
    obtain rfl := Option.some.inj hp
    exact (statement_eq_extended_iff.1 h).1
  | sent recipient chainId chain => cases hp
  | granted member => cases hp

/-- The member of every device has signed for it. -/
theorem Record.signed (h : Record self reader log told r) (hd : r.owner? d = some m) :
    ∃ n ∈ told, n.event.SignsDevice self ⟨m, d⟩ := by
  obtain ⟨c, hc, ht, hp⟩ := h.exists_pair hd
  exact ⟨c.notice, ht, Event.signsDevice_of_statement hc.statement hp⟩

/-! ## Admins -/

/-- An admin was announced by the group, or named by a device whose member was an admin at that
moment. -/
def Empowered (self : Participant) (told : List Notice) (m : PublicKey) : Prop :=
  ∃ before n after, told = before ++ n :: after ∧
    ((∃ device, n.event.Announces self n.sender ⟨m, device⟩) ∨
      n.event.Grants m ∧ ∃ granter, (Roster.after self before).owner? n.sender = some granter ∧
        (Roster.after self before).isAdmin granter = true)

theorem Empowered.append (h : Empowered self told m) (more : List Notice) :
    Empowered self (told ++ more) m := by
  obtain ⟨before, n, after, rfl, hn⟩ := h
  exact ⟨before, n, after ++ more, by simp, hn⟩

theorem Record.empowered (h : Record self reader log told r) (hm : r.isAdmin m = true) :
    Empowered self told m := by
  induction h with
  | empty => cases hm
  | @told told r r' c before offered enrolled ih =>
    have hsaid := offered.statement
    rcases Roster.isAdmin_cases_of_enrol enrolled hm with hold | ⟨device, hs⟩ |
      ⟨hs, granter, ho, ha, -⟩
    · exact (ih hold).append [c.notice]
    · rw [hs] at hsaid
      exact ⟨told, c.notice, [], rfl, Or.inl ⟨device, Event.statement_eq_announced_iff.1 hsaid⟩⟩
    · rw [hs] at hsaid
      rw [before.roster_eq] at ho ha
      exact ⟨told, c.notice, [], rfl,
        Or.inr ⟨Event.statement_eq_granted_iff.1 hsaid, granter, ho, ha⟩⟩

/-! ## Without an announcement -/

/-- Among the entries of a log there is no announcement that holds. -/
def Unannounced (p : Participant) (reader : Log.Reader) (log : List Log.Entry) : Prop :=
  ∀ e ∈ log, ∀ opened event, Progress.openEntry reader e = .ok (opened, event) →
    ∀ pair, ¬ event.Announces p opened.sender pair

/-- Without an announcement nobody gets in. -/
theorem Record.empty_of_unannounced (h : Record self reader log told r)
    (hun : Unannounced self reader log) : r = .empty := by
  induction h with
  | empty => rfl
  | @told told r r' c before offered enrolled ih =>
    subst ih
    have hsaid := offered.statement
    have henabled := (Roster.enrol_ok enrolled).1
    cases hs : c.statement with
    | announced pair =>
      rw [hs] at hsaid
      obtain ⟨e, he, opened, ho, -, ha, -⟩ := offered
      rw [ha] at hsaid
      exact absurd (Event.statement_eq_announced_iff.1 hsaid) (hun e he opened c.event ho pair)
    | joined pair inviter => rw [hs] at henabled; cases henabled
    | extended pair => rw [hs] at henabled; cases henabled
    | sent recipient chainId chain =>
      rw [hs] at enrolled
      exact (Except.ok.inj enrolled).symm
    | granted member =>
      rw [hs] at henabled
      obtain ⟨granter, ho, -⟩ := henabled
      cases ho

/-! ## Together -/

/-- Everyone in a roster is there for a reason that the notices show. -/
structure Provenance (p : Participant) (reader : Log.Reader) (log : List Log.Entry)
    (told : List Notice) (r : Roster) : Prop where
  delivered : ∀ n ∈ told, n.Delivered reader log
  roster_eq : r = Roster.after p told
  accepted : ∀ before n after, told = before ++ n :: after →
    ∃ said, n.event.statement p n.sender = .ok said ∧
      (Roster.after p before).enrol n.sender said = .ok (Roster.after p (before ++ [n]))
  members : ∀ m, r.isMember m = true → Lineage p told m
  devices : ∀ m d, r.owner? d = some m → ∃ n ∈ told, n.event.SignsDevice p ⟨m, d⟩
  admins : ∀ m, r.isAdmin m = true → Empowered p told m
  unannounced : Unannounced p reader log → r = .empty

/-- After any batches of any entries, everyone in the roster is there for a reason. -/
theorem Reached.provenance (h : Reached self reader log told i) :
    Provenance self reader log told i.state.roster where
  delivered := h.record.delivered
  roster_eq := h.record.roster_eq
  accepted _ _ _ := h.record.accepted
  members _ := h.record.lineage
  devices _ _ := h.record.signed
  admins _ := h.record.empowered
  unannounced := h.record.empty_of_unannounced

end SecureGroup.Metadata

namespace SecureGroup.Metadata

attribute [local instance] Suite.plain

open Plain

theorem provenance_joinedEarly :
    let batch := (Index.empty (chains 2)).update (participant 1 2) reader joinedEarly
    batch.index.state.roster.isMember (key 3).pub = true ∧
      Provenance (participant 1 2) reader joinedEarly batch.notices batch.index.state.roster := by
  have hreached : Reached (participant 1 2) reader _ _ _ :=
    .update joinedEarly (.empty (chains 2))
  exact ⟨by decide +kernel, Reached.provenance hreached⟩

end SecureGroup.Metadata
