import SecureGroup.Network
import SecureGroup.Proofs.Invitations
import SecureGroup.Proofs.Waiting

/-!
# Joining by invitation

Who redeems an invitation joins in every index of the group: at once where the inviter is a member,
and otherwise in the very batch in which the inviter becomes one, unless another member has the
device by then (`Metadata.Index.Admits`).  This is so for every issued invitation, from its text to
the delivery of the entry, whatever the index has taken before (`Invitation.admits`).
-/

namespace SecureGroup

namespace Metadata

variable [Suite] {self : Participant} {reader : Log.Reader} {log : List Log.Entry}
  {told : List Notice} {i : Index} {e : Log.Entry} {event : Event} {pair : MemberDevice}
  {inviter : PublicKey}

/-- What comes of the entry of a join that is delivered to an index for the first time, as a batch
of its own. -/
structure Index.Admits (self : Participant) (reader : Log.Reader) (i : Index) (e : Log.Entry)
    (event : Event) (pair : MemberDevice) (inviter : PublicKey) : Prop where
  /-- If the inviter is a member, the entry takes effect at once. -/
  atOnce : i.state.roster.isMember inviter = true →
    (∃ more, (i.update self reader [e]).notices = ⟨e.hash, pair.device, event⟩ :: more) ∧
      (i.update self reader [e]).index.state.roster.memberOf pair.device = .ok pair.member
  /-- Otherwise it waits, and nothing else happens. -/
  waits : i.state.roster.isMember inviter = false →
    (i.update self reader [e]).summary = ⟨0, 0, 0, 0, i.deferred.length + 1⟩ ∧
      (i.update self reader [e]).notices = [] ∧ (i.update self reader [e]).index.state = i.state
  /-- It waits as long as the inviter is no member. -/
  stays : i.state.roster.isMember inviter = false →
    ∀ j, (i.update self reader [e]).index.Later self reader j →
      j.state.roster.isMember inviter = false → ∃ c ∈ j.deferred, c.hash = e.hash
  /-- It takes effect in the batch in which the inviter becomes a member, or the device is another
  member's by then. -/
  inTime : i.state.roster.isMember inviter = false →
    ∀ j, (i.update self reader [e]).index.Later self reader j →
      j.state.roster.isMember inviter = false → ∀ batch,
      (j.update self reader batch).index.state.roster.isMember inviter = true →
        (⟨e.hash, pair.device, event⟩ ∈ (j.update self reader batch).notices ∧
          (j.update self reader batch).index.state.roster.memberOf pair.device =
            .ok pair.member) ∨
        ∃ other, other ≠ pair.member ∧
          (j.update self reader batch).index.state.roster.memberOf pair.device = .ok other

/-- An entry that opens to a join, from the device that joins, is admitted by every index in which
the device is not another member's. -/
theorem Reached.admits_of_joins (h : Reached self reader log told i)
    (new : e.hash ∉ log.map (·.hash))
    (hc : Candidate.Of self reader e ⟨e.hash, pair.device, event, .joined pair inviter⟩)
    (free : ∀ other, i.state.roster.memberOf pair.device = .ok other → other = pair.member) :
    i.Admits self reader e event pair inviter := by
  have hdisabled : ∀ r : Roster, r.isMember inviter = false →
      ¬ r.Enabled pair.device (.joined pair inviter) :=
    fun r hno hmember => Bool.false_ne_true (hno.symm.trans hmember)
  have howner : ∀ r : Roster, r.Holds (.joined pair inviter) →
      r.memberOf pair.device = .ok pair.member :=
    fun r hholds => Roster.memberOf_eq_ok_iff.2 (hholds.1 pair rfl)
  have hrefused : ∀ r : Roster, r.Refused (.joined pair inviter) →
      ∃ other, other ≠ pair.member ∧ r.memberOf pair.device = .ok other := by
    rintro r ⟨other, hother, hne⟩
    exact ⟨other, hne, Roster.memberOf_eq_ok_iff.2 hother⟩
  have hwaits := fun hno => h.update_of_not_enabled hc new (hdisabled _ hno)
  -- the entry waits after the batch, and as long as the inviter is no member
  have hstays : i.state.roster.isMember inviter = false →
      ∀ j, (i.update self reader [e]).index.Later self reader j →
        j.state.roster.isMember inviter = false →
        ⟨e.hash, pair.device, event, .joined pair inviter⟩ ∈ j.deferred := by
    intro hno j hlater hj
    refine (h.update [e]).waits_while ?_ rfl hlater (hdisabled _ hj)
    rw [hwaits hno]
    exact (Progress.insertCandidate_perm _ _).mem_iff.2 List.mem_cons_self
  refine ⟨fun hmember => ?_, fun hno => ?_, fun hno j hlater hj => ?_,
    fun hno j hlater hj batch hmember => ?_⟩
  · have hfree : ¬ i.state.roster.Refused (.joined pair inviter) := by
      intro hr
      obtain ⟨other, hne, hother⟩ := hrefused _ hr
      exact hne (free other hother)
    exact (h.update_of_enabled hc new rfl hmember hfree).imp_right (howner _)
  · rw [hwaits hno]
    exact ⟨rfl, rfl, rfl⟩
  · exact ⟨_, hstays hno j hlater hj, rfl⟩
  · obtain ⟨log', told', hreached⟩ := (h.update [e]).later hlater
    rcases hreached.waits_or_resolved (hstays hno j hlater hj) rfl batch with
      ⟨-, hnever⟩ | hresolved
    · exact absurd hmember hnever
    · exact hresolved.outcome.imp (And.imp_right (howner _)) (hrefused _)

end Metadata

open Metadata

/-! ## Main statement -/

variable [Suite]

/-- A replica redeems an invitation, and an entry of the log answers for it.  No other octets in the
log have the hash of those that were sealed. -/
structure Network.Redeems (net : Network) (name : String) (r : Replica)
    (member device : PrivateKey) (invitation : Invitation) (n : Entropy) (event : Event)
    (e : Log.Entry) : Prop where
  asked : Metadata.redeem r.self member device invitation = .ok event
  written : (net.redeem name r member device invitation n).1.1 = .ok e.ref
  mem : e ∈ (net.redeem name r member device invitation n).1.2.store.entries r.metadata.address
  apart : ∀ d ∈ net.store.entries r.metadata.address,
    d.hash = .of (r.metadata.sealEntry device event.encode n).1.1 →
      d.payload = (r.metadata.sealEntry device event.encode n).1.1

/-- The entry opens to the event for everyone who reads the log. -/
theorem Network.Redeems.opens (sig : Suite.SignatureLaw) (len : Suite.SignatureLength)
    (enc : Suite.EncryptionLaw) (size : Suite.CiphertextLength) {net : Network} {name : String}
    {r : Replica} {member device : PrivateKey} {invitation : Invitation} {n : Entropy}
    {event : Event} {e : Log.Entry}
    (h : net.Redeems name r member device invitation n event e) (sound : event.Sound)
    (short : event.encode.length ≤ 512) :
    ∃ opened, Progress.openEntry r.metadata.toReader e = .ok (opened, event) ∧
      opened.sender = device.pub := by
  obtain ⟨asked, written, mem, apart⟩ := h
  obtain ⟨hresult, hstore⟩ := Network.redeem_eq asked net name n
  rw [hresult] at written
  rw [hstore] at mem
  exact opens_of_append sig enc len size sound short
    (Prod.ext (Prod.ext written rfl) rfl) apart mem rfl

/-- An invitation is issued for a group, and its text is read as it.  Redeeming it through any
replica of the group fails when the binding is closed or the acknowledgement takes too long, and
otherwise an entry of the log answers for it.  Every index of the group in which the device is not
another member's admits that entry, when it is delivered for the first time. -/
theorem Invitation.admits (sig : Suite.SignatureLaw) (len : Suite.SignatureLength)
    (enc : Suite.EncryptionLaw) (size : Suite.CiphertextLength) {group : Group}
    (key : group.key.Valid) (inviter member device : PrivateKey) (drawn : Entropy) :
    let invitation := (issue inviter group drawn).1
    ofText invitation.toText = .ok invitation ∧
      ∀ (net : Network) (name : String) (r : Replica) (n : Entropy),
        r.self.group = group → r.metadata.toReader = .of group .metadata →
        let answer := (net.redeem name r member device invitation n).1
        (answer.1 = .error .closed ∧ r.metadata.closed = true ∧ answer.2.store = net.store ∨
          answer.1 = .error (.timeout r.metadata.timeout) ∧ r.metadata.timeout < net.store.wait ∧
            answer.2.store = net.store ∨
          ∃ e ∈ answer.2.store.entries r.metadata.address, answer.1 = .ok e.ref) ∧
        ∀ event e, net.Redeems name r member device invitation n event e →
          ∀ (self : Participant) (log : List Log.Entry) (told : List Notice) (i : Index),
            self.group = group → Reached self (.of group .metadata) log told i →
            e.hash ∉ log.map (·.hash) →
            (∀ other, i.state.roster.memberOf device.pub = .ok other → other = member.pub) →
            i.Admits self (.of group .metadata) e event ⟨member.pub, device.pub⟩
              inviter.pub := by
  intro invitation
  obtain ⟨seed, hseed⟩ : ∃ seed, invitation = issueWith seed inviter group := ⟨_, rfl⟩
  rw [hseed]
  refine ⟨ofText_toText (sound_issueWith sig len key) (validate_issueWith sig), ?_⟩
  rintro net name r n rfl hreader
  obtain ⟨event, hredeem, hsound, hshort, hsaid⟩ :=
    Metadata.redeem_issueWith sig len r.self seed inviter member device
  constructor
  · obtain ⟨hresult, hstore⟩ := Network.redeem_eq hredeem net name n
    rw [hresult, hstore]
    have happend : r.metadata.append net.store device event.encode n = ((_, _, _), _) := rfl
    rcases Log.Binding.append_cases happend with ⟨hclosed, hresult, -, hstore⟩ |
      ⟨nonce, -, -, ⟨ref, hresult, hcommit⟩ | ⟨hlate, hresult, hstore⟩⟩
    · exact Or.inl ⟨hresult, hclosed, hstore⟩
    · obtain ⟨e, he, href⟩ := net.store.exists_ref_commit r.metadata.address
        (r.metadata.sealWith device event.encode nonce).1
      rw [hcommit] at he href
      exact Or.inr (Or.inr ⟨e, he, hresult.trans (congrArg _ href.symm)⟩)
    · exact Or.inr (Or.inl ⟨hresult, hlate, hstore⟩)
  · intro event' e h self log told i hgroup hreached hnew hfree
    obtain rfl : event = event' := Except.ok.inj (hredeem.symm.trans h.asked)
    obtain ⟨opened, hopens, hsender⟩ := h.opens sig len enc size hsound hshort
    rw [hreader] at hopens
    refine hreached.admits_of_joins hnew ⟨opened, hopens, rfl, hsender.symm, ?_⟩ hfree
    exact hsaid self device.pub hgroup

end SecureGroup

/-! ## A newcomer -/

namespace SecureGroup.Plain

attribute [local instance] Suite.brief

open Metadata

def host : Replica := .fresh (.of group ⟨key 1, key 2⟩) ⟨256, 1, 16, 64⟩ .empty (chains 2)

def hostAnnounced : Log.Entry :=
  .at 0 (host.metadata.sealWith (key 2) (Event.encode
    (.memberAnnounced (key 1).pub.bytes.toList (key 2).pub.bytes.toList
      ((key 1).signDevice group.id (key 2).pub) ((key 0).signFirstMember (key 1).pub)))
    (.fit 12 [])).1

/-- Member 3 joins with device 4 by an invitation of member 1. -/
def newcomer : Event :=
  .deviceAdded (key 3).pub.bytes.toList (key 4).pub.bytes.toList
    ((key 3).signDevice group.id (key 4).pub) (some
      { inviter := (key 1).pub
        invitationKey := (key 0).pub
        inviterSignature := (key 1).sign (Purpose.invitation.statement group.id (key 0).pub)
        invitationSignature := (key 0).sign (Purpose.redemption.statement group.id (key 3).pub)
        memberSignature := (key 3).signDevice group.id (key 4).pub })

def newcomerAdded : Log.Entry :=
  .at 0 (host.metadata.sealEntry (key 4) newcomer.encode zeros).1.1

/-- The newcomer is admitted at once by an index that knows the host, and by another one in the
batch that tells of the host. -/
theorem newcomer_admitted :
    let invitation := (Invitation.issue (key 1) group zeros).1
    let i := Index.empty (chains 2)
    let told := (i.update host.self (.of group .metadata) [hostAnnounced]).index
    let waits := (i.update host.self (.of group .metadata) [newcomerAdded]).index
    Invitation.ofText invitation.toText = .ok invitation ∧
      Network.empty.Redeems "host" host (key 3) (key 4) invitation zeros newcomer newcomerAdded ∧
      told.state.roster.isMember (key 1).pub = true ∧
      told.Admits host.self (.of group .metadata) newcomerAdded newcomer
        ⟨(key 3).pub, (key 4).pub⟩ (key 1).pub ∧
      i.state.roster.isMember (key 1).pub = false ∧
      (waits.update host.self (.of group .metadata) [hostAnnounced]).index.state.roster.isMember
        (key 1).pub = true ∧
      i.Admits host.self (.of group .metadata) newcomerAdded newcomer
        ⟨(key 3).pub, (key 4).pub⟩ (key 1).pub := by
  intro invitation i told waits
  have hredeems : Network.empty.Redeems "host" host (key 3) (key 4) invitation zeros newcomer
      newcomerAdded := by
    refine ⟨?_, ?_, ?_, ?_⟩
    · decide +kernel
    · decide +kernel
    · decide +kernel
    · intro d hd
      cases hd
  have hkey : group.key.Valid := rfl
  obtain ⟨htext, hadmits⟩ := Invitation.admits Suite.brief_signatureLaw
    Suite.brief_signatureLength Suite.brief_encryptionLaw Suite.brief_ciphertextLength hkey
    (key 1) (key 3) (key 4) zeros
  have hindex := (hadmits .empty "host" host zeros rfl rfl).2 _ _ hredeems host.self
  have hempty : Reached host.self (.of group .metadata) [] [] i := .empty (chains 2)
  refine ⟨htext, hredeems, ?_, hindex _ _ told rfl (hempty.update [hostAnnounced]) ?_ ?_, ?_, ?_,
    hindex _ _ i rfl hempty ?_ ?_⟩
  · decide +kernel
  · decide +kernel
  · have hfree : told.state.roster.owner? (key 4).pub = none := by decide +kernel
    intro other hother
    rw [Roster.memberOf_eq_ok_iff, hfree] at hother
    cases hother
  · decide +kernel
  · decide +kernel
  · exact List.not_mem_nil
  · intro other hother
    cases hother

end SecureGroup.Plain
