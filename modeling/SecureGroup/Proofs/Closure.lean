import Mathlib.Tactic.MkIffOfInductiveProp
import SecureGroup.Proofs.Ledger
import SecureGroup.Proofs.Provenance

/-!
# Replay as a closure

`Belongs` and `Governs` are the least relations that obey the rules of membership: what an event
announces, whom a member invites or gives a further device, and whom an admin makes one.  They speak
of a set of entries and know nothing of an order.

A roster never goes beyond them (`Record.belongs`, `Record.governs`).  It reaches them when no two
entries dispute a device or announce what was announced or granted elsewhere (`Unambiguous`): then
nothing is refused (`Record.not_refused`), so whatever is done with is in force (`Reached.holds`),
and a batch ends only when every rule that can be used has been.
-/

namespace SecureGroup.Metadata

variable [Suite] {self p : Participant} {reader : Log.Reader} {log entries : List Log.Entry}
  {told more : List Notice} {r : Roster} {i j : Index} {c : Candidate} {m d author : PublicKey}
  {e : Log.Entry} {event : Event} {pair : MemberDevice} {said : Statement}

/-! ## The rules -/

/-- One of the entries opens to an event of an author. -/
def Heard (reader : Log.Reader) (log : List Log.Entry) (author : PublicKey) (event : Event) :
    Prop :=
  ∃ e ∈ log, ∃ opened, Progress.openEntry reader e = .ok (opened, event) ∧ opened.sender = author

/-- The least relation of members and devices that the events of some entries call for. -/
inductive Belongs (p : Participant) (reader : Log.Reader) (log : List Log.Entry) :
    PublicKey → PublicKey → Prop
  | announced {author : PublicKey} {event : Event} {pair : MemberDevice}
      (heard : Heard reader log author event) (announces : event.Announces p author pair) :
      Belongs p reader log pair.member pair.device
  | joined {author inviter device : PublicKey} {event : Event} {pair : MemberDevice}
      (heard : Heard reader log author event) (invites : event.Invites p inviter pair)
      (inviter : Belongs p reader log inviter device) :
      Belongs p reader log pair.member pair.device
  | extended {author device : PublicKey} {event : Event} {pair : MemberDevice}
      (heard : Heard reader log author event) (adds : event.AddsDevice p pair)
      (member : Belongs p reader log pair.member device) :
      Belongs p reader log pair.member pair.device

/-- The least set of admins that the events of some entries call for. -/
inductive Governs (p : Participant) (reader : Log.Reader) (log : List Log.Entry) :
    PublicKey → Prop
  | announced {author : PublicKey} {event : Event} {pair : MemberDevice}
      (heard : Heard reader log author event) (announces : event.Announces p author pair) :
      Governs p reader log pair.member
  | granted {author granter device m : PublicKey} {event : Event}
      (heard : Heard reader log author event) (grants : event.Grants m)
      (author : Belongs p reader log granter author) (admin : Governs p reader log granter)
      (member : Belongs p reader log m device) : Governs p reader log m

/-- The closure has everyone that a statement refers to. -/
def CalledFor (p : Participant) (reader : Log.Reader) (log : List Log.Entry)
    (author : PublicKey) : Statement → Prop
  | .announced _ => True
  | .joined _ inviter => ∃ device, Belongs p reader log inviter device
  | .extended pair => ∃ device, Belongs p reader log pair.member device
  | .sent _ _ _ => True
  | .granted m => ∃ granter device, Belongs p reader log granter author ∧
      Governs p reader log granter ∧ Belongs p reader log m device

section

variable (sub : ∀ e ∈ log, e ∈ entries)

include sub

theorem Heard.mono (h : Heard reader log author event) : Heard reader entries author event := by
  obtain ⟨e, he, ho⟩ := h
  exact ⟨e, sub e he, ho⟩

theorem Belongs.mono (h : Belongs p reader log m d) : Belongs p reader entries m d := by
  induction h with
  | announced heard announces => exact .announced (heard.mono sub) announces
  | joined heard invites inviter ih => exact .joined (heard.mono sub) invites ih
  | extended heard adds member ih => exact .extended (heard.mono sub) adds ih

theorem Governs.mono (h : Governs p reader log m) : Governs p reader entries m := by
  induction h with
  | announced heard announces => exact .announced (heard.mono sub) announces
  | granted heard grants author admin member ih =>
    exact .granted (heard.mono sub) grants (author.mono sub) ih (member.mono sub)

theorem CalledFor.mono (h : CalledFor p reader log author said) :
    CalledFor p reader entries author said := by
  cases said with
  | announced pair => trivial
  | joined pair inviter =>
    obtain ⟨device, hb⟩ := h
    exact ⟨device, hb.mono sub⟩
  | extended pair =>
    obtain ⟨device, hb⟩ := h
    exact ⟨device, hb.mono sub⟩
  | sent recipient chainId chain => trivial
  | granted m =>
    obtain ⟨granter, device, ho, hg, hb⟩ := h
    exact ⟨granter, device, ho.mono sub, hg.mono sub, hb.mono sub⟩

end

theorem Offered.heard (h : Offered self reader log c) : Heard reader log c.author c.event := by
  obtain ⟨e, he, opened, ho, -, ha, -⟩ := h
  exact ⟨e, he, opened, ho, ha.symm⟩

theorem Heard.offered (h : Heard reader log author event)
    (hs : event.statement self author = .ok said) :
    ∃ c, Offered self reader log c ∧ c.author = author ∧ c.statement = said := by
  obtain ⟨e, he, opened, ho, rfl⟩ := h
  exact ⟨⟨e.hash, opened.sender, event, said⟩, ⟨e, he, opened, ho, rfl, rfl, hs⟩, rfl, rfl⟩

/-! ## Nothing beyond the closure -/

theorem Record.belongs (h : Record self reader log told r) (hd : r.owner? d = some m) :
    Belongs self reader log m d := by
  induction h generalizing m d with
  | empty => cases hd
  | @told told r r' c before offered enrolled ih =>
    have hsaid := offered.statement
    rcases Roster.owner?_cases_of_enrol enrolled hd with hold | hs | ⟨inviter, hs, hinviter⟩ |
      ⟨hs, hmember⟩
    · exact ih hold
    · rw [hs] at hsaid
      have hann : c.event.Announces self c.author ⟨m, d⟩ := Event.statement_eq_announced_iff.1 hsaid
      exact .announced offered.heard hann
    · rw [hs] at hsaid
      obtain ⟨device, hi⟩ := before.consistent.isMember_iff.1 hinviter
      have hinv : c.event.Invites self inviter ⟨m, d⟩ := Event.statement_eq_joined_iff.1 hsaid
      exact .joined offered.heard hinv (ih hi)
    · rw [hs] at hsaid
      obtain ⟨device, hi⟩ := before.consistent.isMember_iff.1 hmember
      have hadds : c.event.AddsDevice self ⟨m, d⟩ := Event.statement_eq_extended_iff.1 hsaid
      exact .extended offered.heard hadds (ih hi)

theorem Record.governs (h : Record self reader log told r) (hm : r.isAdmin m = true) :
    Governs self reader log m := by
  induction h generalizing m with
  | empty => cases hm
  | @told told r r' c before offered enrolled ih =>
    have hsaid := offered.statement
    rcases Roster.isAdmin_cases_of_enrol enrolled hm with hold | ⟨device, hs⟩ |
      ⟨hs, granter, ho, ha, hmember⟩
    · exact ih hold
    · rw [hs] at hsaid
      have hann : c.event.Announces self c.author ⟨m, device⟩ :=
        Event.statement_eq_announced_iff.1 hsaid
      exact .announced offered.heard hann
    · rw [hs] at hsaid
      obtain ⟨device, hi⟩ := before.consistent.isMember_iff.1 hmember
      exact .granted offered.heard (Event.statement_eq_granted_iff.1 hsaid) (before.belongs ho)
        (ih ha) (before.belongs hi)

/-! ## Entries that do not dispute -/

/-- The member and the device that an event names, as they were written. -/
def Event.named? : Event → Option (Bytes × Bytes)
  | .memberAnnounced member device _ _ | .deviceAdded member device _ _ => some (member, device)
  | .secretAdded .. | .adminGranted _ => none

/-- The member that an event announces, as it was written. -/
def Event.announced? : Event → Option Bytes
  | .memberAnnounced member _ _ _ => some member
  | _ => none

/-- The member that an event makes an admin, as it was written. -/
def Event.granted? : Event → Option Bytes
  | .adminGranted member => some member
  | _ => none

def event? (reader : Log.Reader) (e : Log.Entry) : Option Event :=
  (Progress.openEntry reader e).toOption.map (·.2)

/-- The entries have hashes of their own; no device is named under two members, and no member is
announced by two of them, or announced by one and made an admin by another. -/
@[mk_iff]
structure Unambiguous (reader : Log.Reader) (log : List Log.Entry) : Prop where
  hashes : ∀ e ∈ log, ∀ e' ∈ log, e.hash = e'.hash → e = e'
  devices : ∀ e ∈ log, ∀ e' ∈ log, ∀ x ∈ (event? reader e).bind Event.named?,
    ∀ y ∈ (event? reader e').bind Event.named?, x.2 = y.2 → x.1 = y.1
  announced : ∀ e ∈ log, ∀ e' ∈ log, ∀ member ∈ (event? reader e).bind Event.announced?,
    member ∈ (event? reader e').bind Event.announced? → e = e'
  granted : ∀ e ∈ log, ∀ e' ∈ log, ∀ member ∈ (event? reader e).bind Event.announced?,
    member ∉ (event? reader e').bind Event.granted?

instance (reader : Log.Reader) (log : List Log.Entry) : Decidable (Unambiguous reader log) :=
  decidable_of_iff _ (unambiguous_iff reader log).symm

/-- What is on offer does not dispute: a device has one member, and whoever is announced is not made
an admin by another entry. -/
structure Compatible (p : Participant) (reader : Log.Reader) (log : List Log.Entry) : Prop where
  onePayload : OnePayload log
  devices : ∀ c c', Offered p reader log c → Offered p reader log c' → ∀ pair pair',
    c.statement.pair? = some pair → c'.statement.pair? = some pair' → pair.device = pair'.device →
      pair.member = pair'.member
  announced : ∀ c c', Offered p reader log c → Offered p reader log c' → ∀ pair,
    c.statement = .announced pair → c'.statement.admin? = some pair.member → c.hash = c'.hash

theorem Event.SignsDevice.named? (h : event.SignsDevice p pair) :
    event.named? = some (pair.member.bytes.toList, pair.device.bytes.toList) := by
  cases event with
  | memberAnnounced member device signature groupSignature =>
    obtain ⟨hm, hd, -⟩ := h
    rw [(PublicKey.of_ofBytes hm).1, (PublicKey.of_ofBytes hd).1]
    rfl
  | deviceAdded member device signature proof =>
    obtain ⟨hm, hd, -⟩ := h
    rw [(PublicKey.of_ofBytes hm).1, (PublicKey.of_ofBytes hd).1]
    rfl
  | secretAdded device recipient chainId secret => cases h
  | adminGranted member => cases h

theorem Event.Announces.announced? (h : event.Announces p author pair) :
    event.announced? = some pair.member.bytes.toList := by
  obtain ⟨hs, -, member, device, signature, groupSignature, rfl, -⟩ := h
  obtain ⟨hm, -⟩ := hs
  rw [(PublicKey.of_ofBytes hm).1]
  rfl

theorem Event.Grants.granted? (h : event.Grants m) : event.granted? = some m.bytes.toList := by
  obtain ⟨member, rfl, hm⟩ := h
  rw [(PublicKey.of_ofBytes hm).1]
  rfl

theorem Unambiguous.of_subset (h : Unambiguous reader entries) (sub : ∀ e ∈ log, e ∈ entries) :
    Unambiguous reader log where
  hashes e he e' he' := h.hashes e (sub e he) e' (sub e' he')
  devices e he e' he' := h.devices e (sub e he) e' (sub e' he')
  announced e he e' he' := h.announced e (sub e he) e' (sub e' he')
  granted e he e' he' := h.granted e (sub e he) e' (sub e' he')

theorem event?_eq_some {opened : Log.Opened}
    (h : Progress.openEntry reader e = .ok (opened, event)) : event? reader e = some event := by
  rw [event?, h]
  rfl

/-- Names that are not disputed as they were written are not disputed as keys. -/
theorem Unambiguous.compatible (h : Unambiguous reader log) : Compatible self reader log where
  onePayload e he e' he' hh := by rw [h.hashes e he e' he' hh]
  devices c c' hc hc' pair pair' hp hp' hdevice := by
    have hs := (Event.signsDevice_of_statement hc.statement hp).named?
    have hs' := (Event.signsDevice_of_statement hc'.statement hp').named?
    obtain ⟨e, he, opened, ho, -⟩ := hc
    obtain ⟨e', he', opened', ho', -⟩ := hc'
    have hmember := h.devices e he e' he' _ (by rw [event?_eq_some ho]; exact hs) _
      (by rw [event?_eq_some ho']; exact hs') (by rw [hdevice])
    exact PublicKey.ext (Octets.ext hmember)
  announced c c' hc hc' pair hann hadmin := by
    have hsaid := hc.statement
    have hsaid' := hc'.statement
    rw [hann] at hsaid
    have hname := (Event.statement_eq_announced_iff.1 hsaid).announced?
    obtain ⟨e, he, opened, ho, hh, -⟩ := hc
    obtain ⟨e', he', opened', ho', hh', -⟩ := hc'
    have hmem : pair.member.bytes.toList ∈ (event? reader e).bind Event.announced? := by
      rw [event?_eq_some ho]
      exact hname
    cases hs : c'.statement with
    | announced pair' =>
      rw [hs] at hsaid' hadmin
      have hname' := (Event.statement_eq_announced_iff.1 hsaid').announced?
      rw [Option.some.inj hadmin] at hname'
      rw [hh, hh', h.announced e he e' he' _ hmem (by rw [event?_eq_some ho']; exact hname')]
    | granted member =>
      rw [hs] at hsaid' hadmin
      have hname' := (Event.statement_eq_granted_iff.1 hsaid').granted?
      rw [Option.some.inj hadmin] at hname'
      exact absurd (by rw [event?_eq_some ho']; exact hname') (h.granted e he e' he' _ hmem)
    | joined pair' inviter => rw [hs] at hadmin; cases hadmin
    | extended pair' => rw [hs] at hadmin; cases hadmin
    | sent recipient chainId chain => rw [hs] at hadmin; cases hadmin

/-! ## Nothing short of the closure -/

/-- Among entries that do not dispute, none is refused that is not done with. -/
theorem Record.not_refused (h : Record self reader log told i.state.roster)
    (hl : Ledger self reader log told i) (hu : Compatible self reader log)
    (hc : Offered self reader log c) (fresh : c.hash ∉ i.handled) :
    ¬ i.state.roster.Refused c.statement := by
  have hfree : ∀ pair, c.statement.pair? = some pair → ¬ i.state.roster.Taken pair := by
    rintro pair hp ⟨owner, ho, hne⟩
    obtain ⟨c', hc', -, hp'⟩ := h.exists_pair ho
    exact hne (hu.devices c' c hc' hc _ _ hp' hp rfl)
  intro hr
  cases hs : c.statement with
  | announced pair =>
    rw [hs] at hr hfree
    rcases hr with ha | ht
    · obtain ⟨c', hc', htold, ha'⟩ := h.exists_admin ha
      have hhash := hu.announced c c' hc hc' pair hs ha'
      exact fresh (hhash ▸ hl.told _ htold)
    · exact hfree pair rfl ht
  | joined pair inviter => rw [hs] at hr hfree; exact hfree pair rfl hr
  | extended pair => rw [hs] at hr hfree; exact hfree pair rfl hr
  | sent recipient chainId chain => rw [hs] at hr; cases hr
  | granted member => rw [hs] at hr; cases hr

/-- Whatever an index is done with is in force. -/
def InForce (p : Participant) (reader : Log.Reader) (log : List Log.Entry) (i : Index) : Prop :=
  ∀ c, Offered p reader log c → c.hash ∈ i.handled → i.state.roster.Holds c.statement

/-- Among entries that do not dispute, every move leaves in force whatever is done with. -/
theorem Move.inForce (h : Move self reader log i j more) (hu : Compatible self reader log)
    (hr : Record self reader log told i.state.roster) (hl : Ledger self reader log told i)
    (hi : InForce self reader log i) : InForce self reader log j := by
  intro c hc hm
  rcases h.mem_handled_cases hu.onePayload hc hm with hold | ⟨hfresh, -, hor⟩
  · exact (hi c hc hold).mono h.extends.roster.within
  · exact hor.resolve_right (hr.not_refused hl hu hc hfresh)

namespace Reached

theorem inForce (h : Reached self reader log told i) (hu : Compatible self reader log) :
    InForce self reader log i := by
  -- the record and the ledger are carried along to know that nothing was refused
  have hall : Record self reader log told i.state.roster ∧ Ledger self reader log told i ∧
      InForce self reader log i := by
    refine h.invariant (P := fun told i => Record self reader log told i.state.roster ∧
      Ledger self reader log told i ∧ InForce self reader log i) ?_ ?_ ?_
    · exact fun keys => ⟨.empty, ledger_empty keys, fun c _ hm => by cases hm⟩
    · exact fun keys ⟨hr, hl, hi⟩ => ⟨hr, ⟨hl.told, hl.enabled, hl.sent⟩, hi⟩
    · exact fun _ ⟨hr, hl, hi⟩ hm =>
        ⟨hm.record hr, hm.ledger hu.onePayload hl, hm.inForce hu hr hl hi⟩
  exact hall.2.2

/-- Among entries that do not dispute, every rule that can be used has been. -/
theorem holds_of_heard (h : Reached self reader log told i) (hu : Compatible self reader log)
    (heard : Heard reader log author event) (hs : event.statement self author = .ok said)
    (hen : i.state.roster.Enabled author said) : i.state.roster.Holds said := by
  obtain ⟨c, hc, rfl, rfl⟩ := heard.offered hs
  exact h.inForce hu c hc (h.mem_handled_of_enabled hu.onePayload hc hen)

theorem owner?_of_belongs (h : Reached self reader log told i) (hu : Compatible self reader log)
    (hb : Belongs self reader log m d) : i.state.roster.owner? d = some m := by
  induction hb with
  | @announced author event pair heard announces =>
    have hsaid := Event.statement_eq_announced_iff.2 announces
    exact (h.holds_of_heard hu heard hsaid trivial).1 pair rfl
  | @joined author inviter device event pair heard invites hinviter ih =>
    have hsaid : event.statement self author = .ok (.joined pair inviter) :=
      Event.statement_eq_joined_iff.2 invites
    have hmember := h.consistent.isMember_iff.2 ⟨device, ih⟩
    exact (h.holds_of_heard hu heard hsaid hmember).1 pair rfl
  | @extended author device event pair heard adds hmember ih =>
    have hsaid : event.statement self author = .ok (.extended pair) :=
      Event.statement_eq_extended_iff.2 adds
    have hmember := h.consistent.isMember_iff.2 ⟨device, ih⟩
    exact (h.holds_of_heard hu heard hsaid hmember).1 pair rfl

theorem isAdmin_of_governs (h : Reached self reader log told i) (hu : Compatible self reader log)
    (hg : Governs self reader log m) : i.state.roster.isAdmin m = true := by
  induction hg with
  | @announced author event pair heard announces =>
    have hsaid := Event.statement_eq_announced_iff.2 announces
    exact (h.holds_of_heard hu heard hsaid trivial).2 pair.member rfl
  | @granted author granter device m event heard grants hauthor hadmin hmember ih =>
    have hsaid : event.statement self author = .ok (.granted m) :=
      Event.statement_eq_granted_iff.2 grants
    have hmember := h.consistent.isMember_iff.2 ⟨device, h.owner?_of_belongs hu hmember⟩
    have hen : i.state.roster.Enabled author (.granted m) :=
      ⟨granter, h.owner?_of_belongs hu hauthor, ih, hmember⟩
    exact (h.holds_of_heard hu heard hsaid hen).2 m rfl

/-- Everyone that a statement refers to is known when the closure has them. -/
theorem enabled_iff_calledFor (h : Reached self reader log told i)
    (hu : Compatible self reader log) :
    i.state.roster.Enabled author said ↔ CalledFor self reader log author said := by
  have howner : ∀ m d, i.state.roster.owner? d = some m ↔ Belongs self reader log m d :=
    fun m d => ⟨h.record.belongs, h.owner?_of_belongs hu⟩
  have hmember : ∀ m, i.state.roster.isMember m = true ↔ ∃ d, Belongs self reader log m d := by
    intro m
    simp only [h.consistent.isMember_iff, howner]
  cases said with
  | announced pair => exact Iff.rfl
  | joined pair inviter => exact hmember inviter
  | extended pair => exact hmember pair.member
  | sent recipient chainId chain => exact Iff.rfl
  | granted m =>
    constructor
    · rintro ⟨granter, ho, ha, hm⟩
      obtain ⟨device, hd⟩ := (hmember m).1 hm
      exact ⟨granter, device, (howner _ _).1 ho, h.record.governs ha, hd⟩
    · rintro ⟨granter, device, ho, hg, hd⟩
      exact ⟨granter, (howner _ _).2 ho, h.isAdmin_of_governs hu hg, (hmember m).2 ⟨device, hd⟩⟩

/-- However entries that do not dispute are ordered, repeated and divided into batches, the members,
devices and admins are the least that obey the rules, and what waits are the entries whose rule the
least ones do not allow. -/
theorem least_closure (h : Reached self reader log told i) (same : ∀ e, e ∈ log ↔ e ∈ entries)
    (hu : Unambiguous reader entries) :
    (∀ m d, i.state.roster.owner? d = some m ↔ Belongs self reader entries m d) ∧
      (∀ m, i.state.roster.isMember m = true ↔ ∃ d, Belongs self reader entries m d) ∧
      (∀ m, i.state.roster.isAdmin m = true ↔ Governs self reader entries m) ∧
      ∀ c, c ∈ i.deferred ↔ Offered self reader entries c ∧
        ¬ CalledFor self reader entries c.author c.statement := by
  have hsub : ∀ e ∈ log, e ∈ entries := fun e => (same e).1
  have hsub' : ∀ e ∈ entries, e ∈ log := fun e => (same e).2
  have hlog : Compatible self reader log := (hu.of_subset hsub).compatible
  have howner : ∀ m d, i.state.roster.owner? d = some m ↔ Belongs self reader entries m d :=
    fun m d => ⟨fun ho => (h.record.belongs ho).mono hsub,
      fun hb => h.owner?_of_belongs hlog (hb.mono hsub')⟩
  refine ⟨howner, ?_, ?_, ?_⟩
  · intro m
    simp only [h.consistent.isMember_iff, howner]
  · intro m
    exact ⟨fun ha => (h.record.governs ha).mono hsub,
      fun hg => h.isAdmin_of_governs hlog (hg.mono hsub')⟩
  · intro c
    rw [h.mem_deferred_iff hlog.onePayload, h.enabled_iff_calledFor hlog]
    constructor
    · rintro ⟨hc, hne⟩
      exact ⟨hc.mono hsub, fun hcalled => hne (hcalled.mono hsub')⟩
    · rintro ⟨hc, hne⟩
      exact ⟨hc.mono hsub', fun hcalled => hne (hcalled.mono hsub)⟩

end Reached

end SecureGroup.Metadata

namespace SecureGroup.Metadata

attribute [local instance] Suite.plain

open Plain

theorem least_closure_joinedEarly :
    let i := ((Index.empty (chains 2)).update (participant 1 2) reader
      (joinedEarly ++ joinedEarly)).index
    i.state.roster.owner? (key 4).pub = some (key 3).pub ∧
      (∀ m d, i.state.roster.owner? d = some m ↔
        Belongs (participant 1 2) reader joinedEarly m d) := by
  have hreached : Reached (participant 1 2) reader _ _ _ :=
    .update (joinedEarly ++ joinedEarly) (.empty (chains 2))
  have hentries : Unambiguous reader joinedEarly := by decide +kernel
  refine ⟨by decide +kernel, (Reached.least_closure hreached ?_ hentries).1⟩
  intro e
  simp only [List.nil_append, List.mem_append, or_self]

end SecureGroup.Metadata
