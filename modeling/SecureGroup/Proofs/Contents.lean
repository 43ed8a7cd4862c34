import SecureGroup.Proofs.Delivery
import SecureGroup.Proofs.Attendance

/-!
# Contents of the logs

Anyone may append to the logs, deliver entries again, listen, and read (`Log.Call`).  A call changes
one log at most, and that log in one of three ways (`Log.Feed.Step`).  So however the calls went,
the entries of a log are the octets that were appended to it, each once, in the order in which they
came first, and numbered from zero; its hashes are those of its octets, and the log has seen exactly
these.  New octets are delivered once to everyone who listens, known octets are answered with the
reference that they had before, and no call at one address is noticed at another
(`Log.Store.contents_afterAll`).
-/

namespace SecureGroup

variable [Suite]

namespace Log

/-! ## One log -/

namespace Feed

variable {f f' : Feed} {payload : Bytes} {hash : EntryHash} {e : Entry}

/-- One log is given more to deliver: everyone who listens will hear it, after what is still to
come. -/
def Delivers (f : Feed) (more : List Entry) (f' : Feed) : Prop :=
  ∀ cursor : Cursor, cursor.next ≤ f.deliveries.sent.size →
    f'.deliveries.unread cursor = f.deliveries.unread cursor ++ more

/-- What a listener of a log finds: of more deliveries than the log keeps the older ones are lost,
and the others come one by one. -/
structure Heard (f : Feed) (cursor : Cursor) : Prop where
  behind : deliveryCapacity < (f.deliveries.unread cursor).length →
    ∃ cursor', f.deliveries.receive cursor =
        (.lost ((f.deliveries.unread cursor).length - deliveryCapacity), cursor') ∧
      f.deliveries.unread cursor' = (f.deliveries.unread cursor).drop
        ((f.deliveries.unread cursor).length - deliveryCapacity)
  next : ∀ e rest, f.deliveries.unread cursor = e :: rest → rest.length < deliveryCapacity →
    ∃ cursor', f.deliveries.receive cursor = (.value e, cursor') ∧
      f.deliveries.unread cursor' = rest
  read : f.deliveries.unread cursor = [] → f.deliveries.receive cursor = (.nothing, cursor)

/-- The entries are numbered in order and known by the hashes of their octets, no two by the same;
these hashes are what the log has seen. -/
structure Addressed (f : Feed) : Prop where
  positions : f.entries.map (·.position) = List.range f.entries.length
  hashes : ∀ e ∈ f.entries, e.hash = .of e.payload
  nodup : (f.entries.map (·.hash)).Nodup
  seen : ∀ hash, hash ∈ f.seen ↔ hash ∈ f.entries.map (·.hash)
  capacity : f.deliveries.capacity = deliveryCapacity

/-- What a call can do to one log. -/
inductive Step : Feed → Feed → Prop
  | refl (f : Feed) : Step f f
  | append (f : Feed) (payload : Bytes) : Step f (f.commit payload).2
  | redeliver {f f' : Feed} {hash : EntryHash} (h : f.redeliver hash = some f') : Step f f'

theorem addressed_empty : empty.Addressed where
  positions := rfl
  hashes _ he := by cases he
  nodup := List.nodup_nil
  seen _ := Iff.rfl
  capacity := by decide +kernel

theorem delivers_add (f : Feed) (payload : Bytes) :
    f.Delivers [.at f.entries.length payload] (f.add payload) :=
  fun _ hcursor => Channel.unread_send hcursor _

omit [Suite] in
theorem redeliver_of_mem (h : hash ∈ f.entries.map (·.hash)) :
    ∃ e f', e ∈ f.entries ∧ e.hash = hash ∧ f.redeliver hash = some f' ∧
      f'.entries = f.entries ∧ f.Delivers [e] f' := by
  obtain ⟨e, he⟩ := Option.ne_none_iff_exists'.1 (mt find?_eq_none_iff.1 (not_not_intro h))
  refine ⟨e, { f with deliveries := f.deliveries.send e }, List.mem_of_find?_eq_some he,
    by simpa using List.find?_some he, ?_, rfl, fun _ hcursor => Channel.unread_send hcursor e⟩
  rw [redeliver, he, Option.map_some]

omit [Suite] in
theorem redeliver_of_notMem (h : hash ∉ f.entries.map (·.hash)) : f.redeliver hash = none := by
  rw [redeliver, find?_eq_none_iff.2 h, Option.map_none]

theorem Addressed.add (h : f.Addressed) (fresh : EntryHash.of payload ∉ f.entries.map (·.hash)) :
    (f.add payload).Addressed where
  positions := by
    simp only [Feed.add, List.map_append, h.positions, List.map_cons, List.map_nil,
      List.length_append, List.length_singleton, List.range_succ]
    rfl
  hashes e he := by
    rcases List.mem_append.1 he with he | he
    · exact h.hashes e he
    · rw [List.mem_singleton.1 he]
      rfl
  nodup := by
    simp only [Feed.add, List.map_append, List.map_cons, List.map_nil]
    refine List.nodup_append.2 ⟨h.nodup, List.nodup_singleton _, fun old hold new hnew heq => ?_⟩
    rw [heq, List.mem_singleton.1 hnew] at hold
    exact fresh hold
  seen hash := by
    rw [(f.add payload).mem_seen_iff, List.mem_map]
  capacity := h.capacity

theorem Addressed.step (h : f.Addressed) (hstep : f.Step f') : f'.Addressed := by
  cases hstep with
  | refl => exact h
  | append payload =>
    rcases f.commit_cases payload with ⟨e, -, -, hcommit⟩ | ⟨hfresh, hcommit⟩
    · rwa [hcommit]
    · rw [hcommit]
      exact h.add hfresh
  | redeliver hredeliver =>
    obtain ⟨e, -, rfl⟩ := Option.map_eq_some_iff.1 hredeliver
    exact ⟨h.positions, h.hashes, h.nodup, h.seen, h.capacity⟩

/-- A log grows at its end only, and its deliveries become more. -/
theorem Step.grows (hstep : f.Step f') :
    f.entries <+: f'.entries ∧ f.deliveries.sent.size ≤ f'.deliveries.sent.size := by
  cases hstep with
  | refl => exact ⟨List.prefix_rfl, Nat.le_refl _⟩
  | append payload =>
    refine ⟨?_, (grows_commit f payload).size⟩
    rcases f.commit_cases payload with ⟨e, -, -, hcommit⟩ | ⟨-, hcommit⟩
    · simp only [hcommit, List.prefix_rfl]
    · rw [hcommit]
      exact List.prefix_append _ _
  | redeliver hredeliver =>
    refine ⟨?_, (grows_redeliver hredeliver).size⟩
    obtain ⟨e, -, rfl⟩ := Option.map_eq_some_iff.1 hredeliver
    exact List.prefix_rfl

omit [Suite] in
theorem heard_of_capacity (h : f.deliveries.capacity = deliveryCapacity) (cursor : Cursor) :
    f.Heard cursor where
  behind hlength := by
    rw [← h] at hlength ⊢
    exact Channel.receive_of_behind hlength
  next _ _ hunread room := Channel.receive_of_unread hunread (h ▸ room)
  read := Channel.receive_of_read

/-- Two different octets among some do not have the same hash. -/
def Apart (payloads : List Bytes) : Prop :=
  ∀ p ∈ payloads, ∀ q ∈ payloads, EntryHash.of p = .of q → p = q

/-- A log holds the octets that were appended to it, each once, in the order in which they came
first. -/
def Holds (f : Feed) (payloads : List Bytes) : Prop :=
  f.entries.map (·.payload) = payloads.eraseDups

theorem Holds.hash_mem_iff {payloads : List Bytes} (h : f.Holds payloads) (addressed : f.Addressed)
    (apart : Apart (payloads ++ [payload])) :
    EntryHash.of payload ∈ f.entries.map (·.hash) ↔ payload ∈ payloads := by
  have hmem : ∀ p, p ∈ payloads ↔ p ∈ f.entries.map (·.payload) := by
    intro p
    rw [h, List.mem_eraseDups]
  rw [hmem, List.mem_map, List.mem_map]
  constructor
  · rintro ⟨e, he, hhash⟩
    have hpayload : e.payload ∈ payloads := (hmem _).2 (List.mem_map_of_mem he)
    rw [addressed.hashes e he] at hhash
    exact ⟨e, he, apart _ (List.mem_append_left _ hpayload) _
      (List.mem_append_right _ List.mem_cons_self) hhash⟩
  · rintro ⟨e, he, rfl⟩
    exact ⟨e, he, addressed.hashes e he⟩

theorem Holds.commit {payloads : List Bytes} (h : f.Holds payloads) (addressed : f.Addressed)
    (apart : Apart (payloads ++ [payload])) :
    (f.commit payload).2.Holds (payloads ++ [payload]) := by
  have hknown := h.hash_mem_iff addressed apart
  unfold Holds
  rw [List.eraseDups_append]
  rcases f.commit_cases payload with ⟨e, he, hhash, hcommit⟩ | ⟨hfresh, hcommit⟩
  · have hmem : payload ∈ payloads := hknown.1 (List.mem_map.2 ⟨e, he, hhash⟩)
    have hnone : [payload].removeAll payloads = [] := by simp [List.removeAll, hmem]
    rw [hcommit, hnone, List.eraseDups_nil, List.append_nil]
    exact h
  · have hnot : payload ∉ payloads := mt hknown.2 hfresh
    have hone : [payload].removeAll payloads = [payload] := by simp [List.removeAll, hnot]
    rw [hcommit, hone, List.eraseDups_cons]
    simp only [add, List.map_append, List.map_cons, List.map_nil]
    rw [h]
    rfl

end Feed

/-! ## All logs -/

namespace Store

inductive Call where
  | append (a : Address) (payload : Bytes)
  | redeliver (a : Address) (hash : EntryHash)
  | listen (a : Address)
  | list (a : Address)
  /-- Acknowledgements take another time. -/
  | delay (delay : Option Nat)

namespace Call

/-- The log that a call is about. -/
def address? : Call → Option Address
  | append a _ => some a
  | redeliver a _ => some a
  | listen a => some a
  | list a => some a
  | delay _ => none

/-- The octets that a call appends at an address. -/
def payload? (a : Address) : Call → Option Bytes
  | append b payload => if b = a then some payload else none
  | _ => none

/-- What a call makes of the log that it is about, which nobody may have used before. -/
def act : Call → Option Feed → Option Feed
  | append _ payload, f => some ((f.getD .empty).commit payload).2
  | redeliver _ hash, f => f.map fun f => (f.redeliver hash).getD f
  | listen _, f => some (f.getD .empty)
  | list _, f => f
  | delay _, f => f

omit [Suite] in
theorem payload?_eq_some {call : Call} {a : Address} {payload : Bytes}
    (h : call.payload? a = some payload) : call = .append a payload := by
  cases call with
  | append b payload' =>
    obtain ⟨rfl, hpayload⟩ := Option.ite_none_right_eq_some.1 h
    rw [Option.some.inj hpayload]
  | redeliver => cases h
  | listen => cases h
  | list => cases h
  | delay => cases h

theorem step_act (call : Call) (f : Option Feed) :
    (f.getD .empty).Step ((call.act f).getD .empty) := by
  cases call with
  | append a payload => exact .append _ payload
  | redeliver a hash =>
    cases f with
    | none => exact .refl _
    | some f =>
      show f.Step ((f.redeliver hash).getD f)
      cases h : f.redeliver hash with
      | none => exact .refl f
      | some f' => exact .redeliver h
  | listen a => exact .refl _
  | list a => exact .refl _
  | delay n => exact .refl _

end Call

def appended (a : Address) (calls : List Call) : List Bytes := calls.filterMap (Call.payload? a)

def after (s : Store) : Call → Store
  | .append a payload => (s.commit a payload).2
  | .redeliver a hash => (s.redeliver a hash).toOption.getD s
  | .listen a => (s.listen a).2
  | .list _ => s
  | .delay delay => { s with delay }

def afterAll (s : Store) (calls : List Call) : Store := calls.foldl after s

variable {s : Store} {a b : Address} {calls : List Call} {call : Call} {payload : Bytes}
  {hash : EntryHash} {cursor : Cursor}

theorem afterAll_append (s : Store) (before after : List Call) :
    s.afterAll (before ++ after) = (s.afterAll before).afterAll after := List.foldl_append

theorem afterAll_cons (s : Store) (call : Call) (calls : List Call) :
    s.afterAll (call :: calls) = (s.after call).afterAll calls := rfl

omit [Suite] in
theorem feed?_put (s : Store) (a b : Address) (f : Feed) :
    (s.put a f).feed? b = if a = b then some f else s.feed? b := by
  unfold feed? put
  split
  · next h => rw [h, Table.get?_put_self]
  · next h => rw [Table.get?_put_of_ne _ _ (Ne.symm h)]

omit [Suite] in
/-- What comes of a wish for an entry to be delivered again. -/
theorem redeliver_cases (s : Store) (a : Address) (hash : EntryHash) :
    (s.feed? a = none ∧ s.redeliver a hash = .error (.noLog a)) ∨
      ∃ f, s.feed? a = some f ∧
        ((f.redeliver hash = none ∧ s.redeliver a hash = .error (.noEntry hash a)) ∨
          ∃ f', f.redeliver hash = some f' ∧ s.redeliver a hash = .ok (s.put a f')) := by
  unfold redeliver
  cases hf : s.feed? a with
  | none => exact Or.inl ⟨rfl, rfl⟩
  | some f =>
    refine Or.inr ⟨f, rfl, ?_⟩
    cases hf' : f.redeliver hash with
    | none => exact Or.inl ⟨rfl, by simp only [hf']⟩
    | some f' => exact Or.inr ⟨f', rfl, by simp only [hf']⟩

omit [Suite] in
theorem redelivered_eq {s' : Store} (h : s.redeliver a hash = .ok s') :
    (s.redeliver a hash).toOption.getD s = s' := by
  rw [h]
  rfl

omit [Suite] in
theorem redelivered_of_error {cause : Error} (h : s.redeliver a hash = .error cause) :
    (s.redeliver a hash).toOption.getD s = s := by
  rw [h]
  rfl

/-- A call changes the log that it is about, and no other. -/
theorem feed?_after (s : Store) (call : Call) (a : Address) :
    (s.after call).feed? a =
      if call.address? = some a then call.act (s.feed? a) else s.feed? a := by
  cases call with
  | append b payload =>
    simp only [Call.address?, Option.some.injEq]
    rw [after, commit, feed?_put]
    split
    · next h =>
      subst h
      rfl
    · rfl
  | redeliver b hash =>
    simp only [Call.address?, Option.some.injEq]
    rw [after]
    rcases s.redeliver_cases b hash with ⟨hf, hr⟩ | ⟨f, hf, ⟨hf', hr⟩ | ⟨f', hf', hr⟩⟩
    · rw [redelivered_of_error hr]
      split
      · next h => rw [← h, hf, Call.act, Option.map_none]
      · rfl
    · rw [redelivered_of_error hr]
      split
      · next h => rw [← h, hf, Call.act, Option.map_some, hf', Option.getD_none]
      · rfl
    · rw [redelivered_eq hr, feed?_put]
      split
      · next h => rw [← h, hf, Call.act, Option.map_some, hf', Option.getD_some]
      · rfl
  | listen b =>
    simp only [Call.address?, Option.some.injEq]
    rw [after, listen, feed?_put]
    split
    · next h =>
      subst h
      rfl
    · rfl
  | list b =>
    split <;> rfl
  | delay n => rfl

theorem feed?_after_of_ne (h : call.address? ≠ some a) :
    (s.after call).feed? a = s.feed? a := by
  rw [feed?_after, if_neg h]

theorem step_after (s : Store) (call : Call) (a : Address) :
    (s.feed a).Step ((s.after call).feed a) := by
  unfold feed
  rw [feed?_after]
  split
  · exact call.step_act _
  · exact .refl _

/-- A log is what the calls about it make of it. -/
theorem feed?_afterAll (s : Store) (calls : List Call) (a : Address) :
    (s.afterAll calls).feed? a =
      (calls.filter (·.address? = some a)).foldl (fun f call => call.act f) (s.feed? a) := by
  induction calls generalizing s with
  | nil => rfl
  | cons call calls ih =>
    rw [afterAll_cons, ih, feed?_after]
    rw [List.filter_cons]
    by_cases h : call.address? = some a
    · rw [if_pos h, if_pos (decide_eq_true h), List.foldl_cons]
    · rw [if_neg h, if_neg (by simpa using h)]

/-- Calls about other logs could as well not have been made. -/
theorem feed?_afterAll_filter (s : Store) (calls : List Call) (a : Address) :
    (s.afterAll (calls.filter (·.address? = some a))).feed? a = (s.afterAll calls).feed? a := by
  rw [feed?_afterAll, feed?_afterAll, List.filter_filter]
  simp only [Bool.and_self]

/-- Whatever is done, logs grow at their ends only, and their deliveries become more. -/
theorem grows_afterAll (s : Store) (calls : List Call) (a : Address) :
    s.entries a <+: (s.afterAll calls).entries a ∧
      (s.feed a).deliveries.sent.size ≤ ((s.afterAll calls).feed a).deliveries.sent.size := by
  induction calls generalizing s with
  | nil => exact ⟨List.prefix_rfl, Nat.le_refl _⟩
  | cons call calls ih =>
    obtain ⟨hentries, hsize⟩ := (s.step_after call a).grows
    obtain ⟨hentries', hsize'⟩ := ih (s.after call)
    exact ⟨hentries.trans hentries', Nat.le_trans hsize hsize'⟩

theorem addressed_afterAll (h : (s.feed a).Addressed) (calls : List Call) :
    ((s.afterAll calls).feed a).Addressed := by
  induction calls generalizing s with
  | nil => exact h
  | cons call calls ih => exact ih (h.step (s.step_after call a))

/-- A call that appends nothing to a log keeps its entries. -/
theorem entries_after (h : call.payload? a = none) : (s.after call).entries a = s.entries a := by
  unfold entries feed
  rw [feed?_after]
  split
  · next haddress =>
    cases call with
    | append b payload =>
      rw [Call.payload?, if_pos (Option.some.inj haddress)] at h
      cases h
    | redeliver b hash =>
      cases s.feed? a with
      | none => rfl
      | some f =>
        show ((f.redeliver hash).getD f).entries = f.entries
        cases hf : f.redeliver hash with
        | none => rfl
        | some f' =>
          obtain ⟨e, -, rfl⟩ := Option.map_eq_some_iff.1 hf
          rfl
    | listen b => rfl
    | list b => rfl
    | delay n => rfl
  · rfl

/-- What a call appends is added to what a log holds. -/
theorem holds_after {payloads : List Bytes} (h : (s.feed a).Holds payloads)
    (addressed : (s.feed a).Addressed)
    (apart : Feed.Apart (payloads ++ (call.payload? a).toList)) :
    ((s.after call).feed a).Holds (payloads ++ (call.payload? a).toList) := by
  cases hpayload : call.payload? a with
  | none =>
    have hentries : ((s.after call).feed a).entries = (s.feed a).entries := entries_after hpayload
    rw [Option.toList_none, List.append_nil, Feed.Holds, hentries]
    exact h
  | some payload =>
    obtain rfl := Call.payload?_eq_some hpayload
    rw [hpayload] at apart
    rw [after, commit, feed_put, if_pos rfl]
    exact h.commit addressed apart

/-- However the calls go, a log holds what was appended to it. -/
theorem holds_afterAll {payloads : List Bytes} (h : (s.feed a).Holds payloads)
    (addressed : (s.feed a).Addressed) (calls : List Call)
    (apart : Feed.Apart (payloads ++ appended a calls)) :
    ((s.afterAll calls).feed a).Holds (payloads ++ appended a calls) := by
  induction calls generalizing s payloads with
  | nil => exact (List.append_nil payloads).symm ▸ h
  | cons call calls ih =>
    have happended : payloads ++ appended a (call :: calls) =
        payloads ++ (call.payload? a).toList ++ appended a calls := by
      rw [List.append_assoc]
      cases hpayload : call.payload? a <;> simp [appended, hpayload]
    rw [happended] at apart ⊢
    exact ih (holds_after h addressed fun p hp q hq => apart p (List.mem_append_left _ hp) q
      (List.mem_append_left _ hq)) (addressed.step (s.step_after call a)) apart

theorem commit_of_notMem (h : EntryHash.of payload ∉ (s.entries a).map (·.hash)) :
    ∃ s', s.commit a payload = ((Entry.at (s.entries a).length payload).ref, s') ∧
      s'.entries a = s.entries a ++ [.at (s.entries a).length payload] ∧
      (s.feed a).Delivers [.at (s.entries a).length payload] (s'.feed a) := by
  rcases (s.feed a).commit_cases payload with ⟨e, he, hhash, -⟩ | ⟨-, hcommit⟩
  · exact absurd (List.mem_map.2 ⟨e, he, hhash⟩) h
  · refine ⟨s.put a ((s.feed a).add payload), ?_, ?_, ?_⟩
    · rw [commit, hcommit]
      rfl
    · rw [entries, feed_put, if_pos rfl]
      rfl
    · rw [feed_put, if_pos rfl]
      exact (s.feed a).delivers_add payload

/-- Octets that were appended are answered as they were, and nothing changes. -/
theorem commit_again (before after : List Call) :
    let s := empty.afterAll (before ++ .append a payload :: after)
    s.commit a payload = (((empty.afterAll before).commit a payload).1, s) := by
  intro s
  obtain ⟨e, he, href⟩ := (empty.afterAll before).exists_ref_commit a payload
  have hhash : e.hash = .of payload :=
    (congrArg Ref.hash href).trans (Feed.hash_commit _ _)
  have hs : s = ((empty.afterAll before).commit a payload).2.afterAll after := by
    rw [show s = _ from afterAll_append _ _ _, afterAll_cons]
    rfl
  have hmem : e ∈ (s.feed a).entries := by
    rw [hs]
    exact (grows_afterAll _ after a).1.subset he
  rcases (s.feed a).commit_cases payload with ⟨d, hd, hdhash, hcommit⟩ | ⟨hfresh, -⟩
  · have haddressed : (s.feed a).Addressed :=
      addressed_afterAll (s := empty) (a := a) Feed.addressed_empty _
    obtain rfl : d = e :=
      List.inj_on_of_nodup_map haddressed.nodup hd hmem (hdhash.trans hhash.symm)
    have hfeed : s.feeds.get? a = some (s.feed a) := by
      unfold feed feed? at hmem ⊢
      cases hget : s.feeds.get? a with
      | none =>
        rw [hget] at hmem
        cases hmem
      | some f => rfl
    rw [commit, hcommit, ← href]
    show (d.ref, s.put a (s.feed a)) = (d.ref, s)
    rw [put, Table.put_of_get? _ _ _ hfeed]
  · exact absurd (List.mem_map.2 ⟨e, hmem, hhash⟩) hfresh

omit [Suite] in
/-- Entries of a log are delivered again, and nothing else. -/
theorem redeliver_of_mem (h : hash ∈ (s.entries a).map (·.hash)) :
    ∃ e s', e ∈ s.entries a ∧ e.hash = hash ∧ s.redeliver a hash = .ok s' ∧
      s'.entries a = s.entries a ∧ (s.feed a).Delivers [e] (s'.feed a) := by
  obtain ⟨e, f', he, hhash, hf', hentries, hdelivers⟩ := Feed.redeliver_of_mem h
  rcases s.redeliver_cases a hash with ⟨hnone, -⟩ | ⟨f, hf, hr⟩
  · rw [feed, hnone] at he
    cases he
  · rw [show f = s.feed a by rw [feed, hf, Option.getD_some]] at hr
    rcases hr with ⟨hnone, -⟩ | ⟨f'', hf'', hr⟩
    · rw [hf'] at hnone
      cases hnone
    · obtain rfl : f' = f'' := Option.some.inj (hf'.symm.trans hf'')
      refine ⟨e, s.put a f', he, hhash, hr, ?_, ?_⟩
      · rw [entries, feed_put, if_pos rfl]
        exact hentries
      · rw [feed_put, if_pos rfl]
        exact hdelivers

omit [Suite] in
theorem redeliver_of_notMem (h : hash ∉ (s.entries a).map (·.hash)) :
    s.redeliver a hash =
      .error (if (s.feed? a).isSome then .noEntry hash a else .noLog a) := by
  rcases s.redeliver_cases a hash with ⟨hf, hr⟩ | ⟨f, hf, ⟨-, hr⟩ | ⟨f', hf', -⟩⟩
  · rw [hf]
    exact hr
  · rw [hf]
    exact hr
  · have hnone : f.redeliver hash = none := by
      refine Feed.redeliver_of_notMem ?_
      rwa [entries, feed, hf, Option.getD_some] at h
    rw [hnone] at hf'
    cases hf'

/-- Someone who listened at an address in a run of calls, and how far it has read. -/
inductive Listener (a : Address) : List Call → Cursor → Prop
  | listen (calls : List Call) :
      Listener a (calls ++ [.listen a]) ((empty.afterAll calls).listen a).1
  | receive {calls : List Call} {cursor : Cursor} (before : Listener a calls cursor) :
      Listener a calls (((empty.afterAll calls).feed a).deliveries.receive cursor).2
  | call {calls : List Call} {cursor : Cursor} (before : Listener a calls cursor) (call : Call) :
      Listener a (calls ++ [call]) cursor

theorem Listener.next_le (h : Listener a calls cursor) :
    cursor.next ≤ ((empty.afterAll calls).feed a).deliveries.sent.size := by
  induction h with
  | listen calls =>
    rw [afterAll_append]
    show _ ≤ (((empty.afterAll calls).listen a).2.feed a).deliveries.sent.size
    rw [feed_listen]
    exact Nat.le_refl _
  | receive _ ih => exact Channel.next_receive ih
  | @call calls cursor _ call ih =>
    rw [afterAll_append]
    exact Nat.le_trans ih (grows_afterAll _ [call] a).2

/-- Whatever calls come to an empty store, a log holds the octets that were appended to it, each
once, in the order in which they came first, under their hashes and numbered from zero; these hashes
are what it has seen.  New octets come to its end and are delivered once to everyone who listens;
known octets are answered with the reference that was given first, and nothing changes.  Entries are
never changed or removed, and exactly these can be delivered again, which changes no entry.  Who
starts to listen has nothing to read and changes nothing.  Calls about other logs change nothing
here, and could as well not have been made. -/
theorem contents_afterAll (calls : List Call) (a : Address)
    (apart : Feed.Apart (appended a calls)) :
    let s := empty.afterAll calls
    ((s.feed a).Addressed ∧ (s.feed a).Holds (appended a calls)) ∧
    (∀ payload, Feed.Apart (appended a calls ++ [payload]) → payload ∉ appended a calls →
      ∃ s', s.commit a payload = ((Entry.at (s.entries a).length payload).ref, s') ∧
        s'.entries a = s.entries a ++ [.at (s.entries a).length payload] ∧
        (s.feed a).Delivers [.at (s.entries a).length payload] (s'.feed a)) ∧
    (∀ before payload after, calls = before ++ .append a payload :: after →
      s.commit a payload = (((empty.afterAll before).commit a payload).1, s)) ∧
    (∀ more, s.entries a <+: (s.afterAll more).entries a) ∧
    (∀ hash ∈ (s.entries a).map (·.hash), ∃ e s', e ∈ s.entries a ∧ e.hash = hash ∧
      s.redeliver a hash = .ok s' ∧ s'.entries a = s.entries a ∧
      (s.feed a).Delivers [e] (s'.feed a)) ∧
    (∀ hash ∉ (s.entries a).map (·.hash), s.redeliver a hash =
      .error (if (s.feed? a).isSome then .noEntry hash a else .noLog a)) ∧
    ((s.feed a).deliveries.unread (s.listen a).1 = [] ∧ (s.listen a).2.feed a = s.feed a) ∧
    (∀ cursor, Listener a calls cursor →
      cursor.next ≤ (s.feed a).deliveries.sent.size ∧ (s.feed a).Heard cursor) ∧
    (∀ call : Call, call.address? ≠ some a → (s.after call).feed? a = s.feed? a) ∧
    s.feed? a = (empty.afterAll (calls.filter (·.address? = some a))).feed? a := by
  intro s
  have hempty : (empty.feed a).Addressed ∧ (empty.feed a).Holds [] :=
    ⟨Feed.addressed_empty, rfl⟩
  have haddressed : (s.feed a).Addressed := addressed_afterAll hempty.1 calls
  have hholds : (s.feed a).Holds (appended a calls) :=
    holds_afterAll hempty.2 hempty.1 calls apart
  refine ⟨⟨haddressed, hholds⟩, ?_, ?_, ?_, ?_, ?_, ?_, ?_, ?_, ?_⟩
  · exact fun payload apart' hnew =>
      commit_of_notMem (mt (hholds.hash_mem_iff haddressed apart').1 hnew)
  · rintro before payload after rfl
    exact commit_again before after
  · exact fun more => (s.grows_afterAll more a).1
  · exact fun hash => redeliver_of_mem
  · exact fun hash => redeliver_of_notMem
  · exact ⟨Channel.unread_listen _, s.feed_listen a a⟩
  · exact fun cursor h => ⟨h.next_le, Feed.heard_of_capacity haddressed.capacity cursor⟩
  · exact fun call => feed?_after_of_ne
  · exact (feed?_afterAll_filter empty calls a).symm

end Store

end Log

end SecureGroup

/-! ## Two small logs -/

namespace SecureGroup.Log.Store

attribute [local instance] Suite.plain

open Plain

/-- Two logs are used in turn; one of them is listened to and given the same octets twice. -/
theorem contents_afterAll_two_logs :
    let here : Address := ⟨group.id, .messages⟩
    let there : Address := ⟨group.id, .metadata⟩
    let calls := [.listen here, .append here [1], .append there [2], .append here [1],
      .redeliver here (.of [1]), .redeliver here (.of [2]), .append here [3], .list here]
    let s := empty.afterAll calls
    Feed.Apart (appended here calls) ∧ (s.feed here).Holds [[1], [1], [3]] ∧
      s.entries here = [.at 0 [1], .at 1 [3]] ∧
      (∃ s', s.commit here [4] = (⟨.of [4], 2⟩, s') ∧
        s'.entries here = [.at 0 [1], .at 1 [3], .at 2 [4]] ∧
        (s'.feed here).deliveries.unread ⟨0⟩ =
          [.at 0 [1], .at 0 [1], .at 1 [3], .at 2 [4]]) ∧
      s.commit here [1] = (⟨.of [1], 0⟩, s) ∧
      (∃ s', s.redeliver here (.of [3]) = .ok s' ∧
        s'.entries here = [.at 0 [1], .at 1 [3]]) ∧
      s.redeliver here (.of [2]) = .error (.noEntry (.of [2]) here) ∧
      (s.after (.append there [5])).feed? here = s.feed? here ∧ Listener here calls ⟨0⟩ := by
  intro here there calls
  have apart : Feed.Apart (appended here calls ++ [[4]]) := by
    unfold Feed.Apart
    decide +kernel
  have apart' : Feed.Apart (appended here calls) := fun p hp q hq =>
    apart p (List.mem_append_left _ hp) q (List.mem_append_left _ hq)
  have hcontents := contents_afterAll calls here apart'
  have hfacts : appended here calls = [[1], [1], [3]] ∧ here ≠ there ∧
      ((empty.afterAll [.listen here]).commit here [1]).1 = ⟨.of [1], 0⟩ ∧
      (empty.afterAll calls).entries here = [.at 0 [1], .at 1 [3]] ∧
      ((empty.afterAll calls).feed here).deliveries.sent.toList =
        [.at 0 [1], .at 0 [1], .at 1 [3]] ∧
      EntryHash.of [3] ∈ ((empty.afterAll calls).entries here).map (·.hash) ∧
      EntryHash.of [2] ∉ ((empty.afterAll calls).entries here).map (·.hash) ∧
      ((empty.afterAll calls).feed? here).isSome = true := by
    decide +kernel
  generalize empty.afterAll calls = s at hcontents hfacts ⊢
  obtain ⟨happended, hne, hfirst, hentries, hsent, hthree, htwo, hused⟩ := hfacts
  obtain ⟨⟨-, hholds⟩, hnew, hknown, -, hredeliver, hrefused, -, -, hapart, -⟩ := hcontents
  rw [happended] at hholds hnew
  refine ⟨apart', hholds, hentries, ?_, ?_, ?_, ?_, ?_, ?_⟩
  · obtain ⟨s', hcommit, hmore, hdelivers⟩ := hnew [4] (happended ▸ apart) (by decide)
    have hunread := hdelivers ⟨0⟩ (Nat.zero_le _)
    rw [Channel.unread, Channel.unread, hsent] at hunread
    rw [hentries] at hcommit hmore hunread
    exact ⟨s', hcommit, hmore, hunread⟩
  · exact (hknown [.listen here] [1] (calls.drop 2) rfl).trans (congrArg (·, s) hfirst)
  · obtain ⟨-, s', -, -, hok, hsame, -⟩ := hredeliver (.of [3]) hthree
    exact ⟨s', hok, hsame.trans hentries⟩
  · have hnone := hrefused (.of [2]) htwo
    rwa [if_pos hused] at hnone
  · exact hapart (.append there [5]) fun h => hne (Option.some.inj h).symm
  · exact (Listener.listen []).call _ |>.call _ |>.call _ |>.call _ |>.call _ |>.call _ |>.call _

end SecureGroup.Log.Store
