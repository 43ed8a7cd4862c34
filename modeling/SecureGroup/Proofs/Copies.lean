import SecureGroup.Proofs.Accounts
import SecureGroup.Proofs.Convergence
import SecureGroup.Proofs.Delivery
import SecureGroup.Proofs.Redelivery
import SecureGroup.Proofs.Spellings

/-!
# Copies of an entry

The hash of an entry is that of its octets, but the signature covers the envelope that they hold.
So whoever sees an entry can add copies of it: other spellings of its envelope, with hashes of their
own.  A copy is read as the entry itself (`Log.Reader.read_copy`).  An index takes it for a new
entry: it may tell of it once more, but nobody joins, nobody becomes an admin and no secret is noted
that was not before (`Metadata.Reached.copies`).
-/

namespace SecureGroup

variable [Suite]

/-! ## Reading a copy -/

/-- Two entries hold one envelope. -/
def Log.Entry.CopyOf (q p : Log.Entry) : Prop :=
  ∃ e, Envelope.ofBytes q.payload = .ok e ∧ Envelope.ofBytes p.payload = .ok e

variable {p q : Log.Entry}

theorem Log.Reader.read_copy (reader : Log.Reader) (copy : q.CopyOf p) :
    reader.read q =
      (reader.read p).map fun o => { o with hash := q.hash, position := q.position } := by
  obtain ⟨e, hq, hp⟩ := copy
  simp only [read, hq, hp, bind, Except.bind]
  cases e.reveal reader.address.group reader.key with
  | error cause => rfl
  | ok payload => rfl

/-- The item at another entry. -/
def Message.Item.at (hash : EntryHash) : Message.Item → Message.Item
  | decrypted m => decrypted { m with entry := hash }
  | pending _ device counter => pending hash device counter
  | undecryptable _ device fault => undecryptable hash device fault

/-- A copy of a message is shown as the message, under the same keys. -/
theorem Message.decrypt_copy (reader : Log.Reader) (keys : ChainKeys) (copy : q.CopyOf p) :
    decrypt reader keys q =
      ((decrypt reader keys p).1.map (Item.at q.hash), (decrypt reader keys p).2) := by
  rw [decrypt, decrypt, reader.read_copy copy]
  cases hread : reader.read p with
  | error cause => rfl
  | ok opened =>
    simp only [Except.map, itemOf]
    split
    · rfl
    · next body hbody =>
      dsimp only
      split
      · rfl
      · rfl
      · split <;> rfl

namespace Metadata

variable {self : Participant} {reader : Log.Reader} {log : List Log.Entry} {told : List Notice}
  {i : Index} {c : Candidate} {r r' : Roster} {author : PublicKey} {said : Statement}

theorem Progress.openEntry_copy (reader : Log.Reader) (copy : q.CopyOf p) :
    openEntry reader q = (openEntry reader p).map fun found =>
      ({ found.1 with hash := q.hash, position := q.position }, found.2) := by
  simp only [openEntry, reader.read_copy copy, bind, Except.bind]
  cases reader.read p with
  | error cause => rfl
  | ok opened =>
    simp only [Except.map]
    cases Event.ofBytes opened.payload with
    | error cause => rfl
    | ok event => rfl

/-! ## What comes of a copy -/

omit [Suite] in
/-- What a roster says already, it does not say twice. -/
theorem Roster.eq_of_enrol_of_holds (h : r.enrol author said = .ok r') (holds : r.Holds said) :
    r' = r := by
  obtain ⟨-, -, r₁, hpair, hadmin⟩ := enrol_ok h
  have hfirst : r₁ = r := by
    rcases hpair with ⟨-, rfl⟩ | ⟨pair, hs, hregister⟩
    · rfl
    · rcases register_cases hregister with ⟨hfree, -⟩ | ⟨-, rfl⟩
      · rw [holds.1 pair hs] at hfree
        cases hfree
      · rfl
  subst hfirst
  rcases hadmin with ⟨-, rfl⟩ | ⟨m, hs, rfl⟩
  · rfl
  · exact if_pos (isAdmin_iff.1 (holds.2 m hs))

/-- An entry that was delivered and can be enrolled again is in force. -/
theorem Reached.holds_of_enrol (h : Reached self reader log told i) (hd : OnePayload log)
    (hc : Offered self reader log c)
    (enrolled : i.state.roster.enrol c.author c.statement = .ok r) :
    i.state.roster.Holds c.statement := by
  obtain ⟨henabled, hnot, -⟩ := Roster.enrol_ok enrolled
  have hdone := h.mem_handled_of_enabled hd hc henabled
  by_contra hholds
  exact hnot (h.refused_of_dropped hd hc ⟨hdone, hholds⟩)

/-- What an index tells of an entry that it tries: notice of it, if it takes effect. -/
theorem Progress.notices_consider (self : Participant) (x : Progress) (c : Candidate) :
    (x.consider self c).2.notices = x.notices ++
      if x.index.state.verdict self c.author c.statement = .applied then [c.notice] else [] := by
  rw [consider_eq_judge]
  cases x.index.state.verdict self c.author c.statement with
  | applied => rfl
  | misdirected => exact (List.append_nil _).symm
  | dropped => exact (List.append_nil _).symm
  | waits => exact (List.append_nil _).symm

/-- Trying a copy of a delivered entry on the index that took the entry. -/
theorem Reached.tries_copy (h : Reached self reader log told i) (hd : OnePayload log)
    (hc : Offered self reader log c) {hash : EntryHash} {j : Index} {more : List Notice}
    (tries : Tries self i { c with hash } j more) :
    j.state.roster = i.state.roster ∧ ∀ x, x ∈ j.state.sent ↔ x ∈ i.state.sent := by
  constructor
  · cases tries with
    | applied enrolled roster =>
      have hholds : i.state.roster.Holds c.statement := h.holds_of_enrol hd hc (r := _) enrolled
      rw [roster]
      exact Roster.eq_of_enrol_of_holds enrolled hholds
    | misdirected secret roster => exact roster
    | waits missing => rfl
    | refused enabled refused => rfl
  · intro x
    rw [tries.state_eq, State.mem_sent_step]
    refine or_iff_left_of_imp ?_
    rintro ⟨hauthor, hsent⟩
    exact (h.mem_sent_iff hd).2 ⟨c, hc, hauthor, hsent⟩

/-- A batch of a copy of a delivered entry changes neither the roster nor the secrets that were
sent.  It tells of the copy if the entry would take effect once more. -/
theorem Reached.update_copy (h : Reached self reader log told i) (hd : OnePayload log)
    (hp : p ∈ log) (copy : q.CopyOf p) (new : q.hash ∉ log.map (·.hash)) :
    (i.update self reader [q]).index.state.roster = i.state.roster ∧
      (∀ x, x ∈ (i.update self reader [q]).index.state.sent ↔ x ∈ i.state.sent) ∧
      (∀ c : Candidate, c.Of self reader p → (i.update self reader [q]).notices =
        if i.state.verdict self c.author c.statement = .applied then
          [⟨q.hash, c.author, c.event⟩] else []) ∧
      ((∀ c : Candidate, ¬ c.Of self reader p) → (i.update self reader [q]).notices = []) := by
  have hfresh : i.knows q.hash = false := h.tidy.knows_eq_false new
  have hcopy := Progress.openEntry_copy reader copy
  cases hopen : Progress.openEntry reader p with
  | error cause =>
    rw [hopen] at hcopy
    have htake : (Progress.start i).take self reader q = (Progress.start i).unreadable := by
      simp only [Progress.take, Progress.start, hfresh, hcopy, Except.map]
      rfl
    rw [h.update_of_settled (by rw [htake]; exact h.settled), htake]
    refine ⟨rfl, fun x => Iff.rfl, ?_, fun _ => rfl⟩
    rintro c ⟨opened, ho, -⟩
    rw [hopen] at ho
    cases ho
  | ok found =>
    obtain ⟨opened, event⟩ := found
    rw [hopen] at hcopy
    cases hsaid : event.statement self opened.sender with
    | error cause =>
      have htake : (Progress.start i).take self reader q = (Progress.start i).drop q.hash := by
        simp only [Progress.take, Progress.start, hfresh, hcopy, Except.map, hsaid]
        rfl
      rw [h.update_of_settled (by rw [htake]; exact h.settled), htake]
      refine ⟨rfl, fun x => Iff.rfl, ?_, fun _ => rfl⟩
      rintro c ⟨opened', ho, -, hauthor, hstatement⟩
      rw [hopen] at ho
      cases ho
      rw [hauthor, hsaid] at hstatement
      cases hstatement
    | ok said =>
      have hof : Candidate.Of self reader p ⟨p.hash, opened.sender, event, said⟩ :=
        ⟨opened, hopen, rfl, rfl, hsaid⟩
      have htake : (Progress.start i).take self reader q =
          ((Progress.start i).consider self ⟨q.hash, opened.sender, event, said⟩).2 :=
        Progress.take_of_candidate ⟨_, hcopy, rfl, rfl, hsaid⟩ hfresh
      obtain ⟨more, htries, -⟩ := Progress.tries_consider self (p := .start i)
        (c := ⟨q.hash, opened.sender, event, said⟩) (Progress.others_eq_deferred hfresh)
      obtain ⟨hroster, hsent⟩ := h.tries_copy hd ⟨p, hp, hof⟩ htries
      rw [h.update_of_settled (by rw [htake]; exact htries.settled h.settled hroster), htake]
      refine ⟨hroster, hsent, fun c hc => ?_, fun hnone => absurd hof (hnone _)⟩
      obtain rfl := hc.unique hof
      exact Progress.notices_consider self _ _

/-! ## Main statement -/

/-- The octets that are read as one envelope are its spellings with anything behind them, all
different; an entry that holds any of these is shown alike in every listing of messages.  If such
an entry comes to an index that took another one of them, it joins nobody and promotes nobody, and
is told of once more exactly if what it says would be accepted once more. -/
theorem Reached.copies (h : Reached self reader log told i) (hd : OnePayload log) (hp : p ∈ log)
    {e : Envelope} (he : Envelope.ofBytes p.payload = .ok e) :
    (∀ bs, Envelope.ofBytes bs = .ok e ↔
      ∃ (s : Envelope.Spelling) (rest : Bytes), s.Fits e ∧ bs = e.spelled s ++ rest) ∧
    (∀ (s s' : Envelope.Spelling) (rest rest' : Bytes), s.Fits e → s'.Fits e →
      e.spelled s ++ rest = e.spelled s' ++ rest' → s = s' ∧ rest = rest') ∧
    ∀ q : Log.Entry, Envelope.ofBytes q.payload = .ok e →
      (∀ (messages : Log.Reader) (keys : ChainKeys), Message.decrypt messages keys q =
        ((Message.decrypt messages keys p).1.map (Message.Item.at q.hash),
          (Message.decrypt messages keys p).2)) ∧
      (q.hash ∉ log.map (·.hash) →
        (i.update self reader [q]).index.state.roster = i.state.roster ∧
        (∀ x, x ∈ (i.update self reader [q]).index.state.sent ↔ x ∈ i.state.sent) ∧
        (∀ c : Candidate, c.Of self reader p → (i.update self reader [q]).notices =
          if i.state.verdict self c.author c.statement = .applied then
            [⟨q.hash, c.author, c.event⟩] else []) ∧
        ((∀ c : Candidate, ¬ c.Of self reader p) → (i.update self reader [q]).notices = [])) := by
  have hvalid : e.sender.Valid := (Envelope.ofBytes_eq_ok_iff.1 he).1
  refine ⟨fun bs => ?_, fun s s' rest rest' => Envelope.spelled_injective, fun q hq => ⟨?_, ?_⟩⟩
  · exact Envelope.ofBytes_eq_ok_iff.trans (and_iff_right hvalid)
  · exact fun messages keys => Message.decrypt_copy messages keys ⟨e, hq, he⟩
  · exact h.update_copy hd hp ⟨e, hq, he⟩

end Metadata

end SecureGroup

namespace SecureGroup.Metadata

attribute [local instance] Suite.plain

open Plain

/-- The entry with one octet more behind it. -/
def padded (e : Log.Entry) : Log.Entry := .at e.position (e.payload ++ [0])

/-- The envelope of a join of member 3 with device 4. -/
def joinEnvelope : Envelope :=
  .signedBy (key 4) (Event.codec.encode (joined 1 3 4)) group.id 0 reader.key (.fit 12 [])

theorem ofBytes_join : Envelope.ofBytes (entry 4 (joined 1 3 4)).payload = .ok joinEnvelope := by
  decide +kernel

theorem read_join : reader.read (entry 4 (joined 1 3 4)) =
    .ok ⟨(entry 4 (joined 1 3 4)).hash, 0, (key 4).pub, 0, Event.codec.encode (joined 1 3 4)⟩ := by
  decide +kernel

/-- A join with an octet behind it is another entry, which an index takes that took the join. -/
theorem copies_padded :
    let join := entry 4 (joined 1 3 4)
    let i := ((Index.empty (chains 2)).update (participant 1 2) reader
      [entry 2 (announced 1 2), join]).index
    (i.update (participant 1 2) reader [padded join]).index.state.roster = i.state.roster ∧
      (i.update (participant 1 2) reader [padded join]).notices =
        [⟨(padded join).hash, (key 4).pub, joined 1 3 4⟩] := by
  intro join i
  let log := [entry 2 (announced 1 2), join]
  let c : Candidate :=
    ⟨join.hash, (key 4).pub, joined 1 3 4, .joined ⟨(key 3).pub, (key 4).pub⟩ (key 1).pub⟩
  have h : Reached (participant 1 2) reader log _ i := (Reached.empty (chains 2)).update log
  have hd : OnePayload log :=
    onePayload_joinedEarly.of_subset fun e he => List.mem_reverse.1 he
  have hpadded : Envelope.ofBytes (padded join).payload = .ok joinEnvelope :=
    Envelope.ofBytes_append ofBytes_join [0]
  have hc : c.Of (participant 1 2) reader join :=
    ⟨⟨join.hash, 0, (key 4).pub, 0, Event.codec.encode (joined 1 3 4)⟩, by decide +kernel, rfl, rfl,
      by decide +kernel⟩
  have hmem : join ∈ log := List.mem_cons_of_mem _ (List.mem_singleton_self join)
  obtain ⟨-, -, hcopies⟩ := h.copies hd hmem ofBytes_join
  obtain ⟨hroster, -, htold, -⟩ := (hcopies (padded join) hpadded).2 (by decide +kernel)
  refine ⟨hroster, (htold c hc).trans (if_pos ?_)⟩
  decide +kernel

/-- Two payloads open and are read as one envelope, and are two entries: an index that takes both
applies both, and a listing shows a message twice. -/
theorem applied_twice :
    let join := entry 4 (joined 1 3 4)
    let log := (write 2 (desk 2) [7]).2.entries
    (∃ e, Envelope.ofBytes join.payload = .ok e ∧ Envelope.ofBytes (padded join).payload = .ok e) ∧
      (∃ o o', reader.read join = .ok o ∧ reader.read (padded join) = .ok o') ∧
      join.payload ≠ (padded join).payload ∧ join.hash ≠ (padded join).hash ∧
      ((Index.empty (chains 2)).update (participant 1 2) reader
        [entry 2 (announced 1 2), join, padded join]).summary.applied = 3 ∧
      (Message.list (.of group .messages) (chains 2) (log ++ log.map padded)).1.map
        (fun item => item.message?.map (·.payload)) = [some [7], some [7]] := by
  intro join log
  have hpadded : Envelope.ofBytes (padded join).payload = .ok joinEnvelope :=
    Envelope.ofBytes_append ofBytes_join [0]
  have hread := reader.read_copy ⟨joinEnvelope, hpadded, ofBytes_join⟩
  rw [read_join] at hread
  refine ⟨⟨joinEnvelope, ofBytes_join, hpadded⟩, ⟨_, _, read_join, hread⟩, ?_⟩
  -- one evaluation for all that is left, so that the run is made once
  decide +kernel

end SecureGroup.Metadata
