import Mathlib.Logic.Relation
import SecureGroup.Attendance
import SecureGroup.Proofs.Channels
import SecureGroup.Proofs.Reached

/-!
# No entry is missed

While the task of a replica follows the membership log (`Attendance.Turn`), an entry of the log is
always in one of four places: it was handed to the index, the task has it in hand, the task is about
to read the log, or its delivery is still to come (`Attendance.Kept`).  So when the task waits and
no delivery is to come, the index was given every entry (`Attendance.Runs.all_handed`), and left
alone the task comes to that (`Attendance.exists_quiet`).  A replica that is opened or takes a batch
without a pause is such a task (`Attendance.runs_attend`, `Attendance.turns_waiting`).
-/

namespace SecureGroup

variable [Suite]

/-! ## The logs grow -/

namespace Log

variable {f f' f'' : Feed} {cursor : Cursor} {e : Entry}

/-- A log with more deliveries, those of its new entries among them. -/
structure Feed.Grows (f f' : Feed) : Prop where
  size : f.deliveries.sent.size ≤ f'.deliveries.sent.size
  ahead : ∀ {cursor e}, f.deliveries.Ahead cursor e → f'.deliveries.Ahead cursor e
  delivered : ∀ {cursor e}, cursor.next ≤ f.deliveries.sent.size → e ∈ f'.entries →
    e ∈ f.entries ∨ f'.deliveries.Ahead cursor e

omit [Suite] in
theorem Feed.Grows.refl (f : Feed) : f.Grows f where
  size := Nat.le_refl _
  ahead := id
  delivered _ := Or.inl

theorem Feed.grows_commit (f : Feed) (octets : Bytes) : f.Grows (f.commit octets).2 := by
  rcases f.commit_cases octets with ⟨e, -, -, hcommit⟩ | ⟨-, hcommit⟩
  · rw [hcommit]
    exact Grows.refl f
  · rw [hcommit]
    refine ⟨?_, fun h => h.send _, fun {cursor e} hcursor he => ?_⟩
    · simp [add, Channel.send]
    · rcases List.mem_append.1 he with he | he
      · exact Or.inl he
      · obtain rfl := List.mem_singleton.1 he
        exact Or.inr (Channel.ahead_send hcursor _)

omit [Suite] in
theorem Feed.grows_redeliver {hash : EntryHash} (h : f.redeliver hash = some f') : f.Grows f' := by
  obtain ⟨e, -, rfl⟩ := Option.map_eq_some_iff.1 h
  exact ⟨by simp [Channel.send], fun h => h.send _, fun _ he => Or.inl he⟩

namespace Store

variable {s s' : Store} {a b : Address}

omit [Suite] in
theorem grows_put {f : Feed} (h : (s.feed b).Grows f) (a : Address) :
    (s.feed a).Grows ((s.put b f).feed a) := by
  rw [feed_put]
  split
  · next heq =>
    rw [heq]
    exact h
  · exact Feed.Grows.refl _

theorem Use.grows (h : Use s s') (a : Address) : (s.feed a).Grows (s'.feed a) := by
  cases h with
  | append b octets => exact grows_put (Feed.grows_commit _ octets) a
  | @redeliver _ b hash h =>
    unfold Store.redeliver at h
    split at h
    · cases h
    · next f hf =>
      split at h
      · cases h
      · next f' hf' =>
        cases h
        have hfeed : s.feed b = f := by rw [feed, hf, Option.getD_some]
        exact grows_put (hfeed ▸ Feed.grows_redeliver hf') a
  | listen b => exact grows_put (Feed.Grows.refl _) a
  | delay n => exact Feed.Grows.refl _

end Store

end Log

/-! ## A round of the task -/

/-- The replica after the deliveries that it took, and the whole log when some were lost. -/
def Replica.afterBatch (f : Log.Feed) (batch : List Log.Entry) (lost : Bool)
    (r : Replica) : Replica :=
  let r := if batch.isEmpty then r else (r.update batch).2
  if lost then r.replay f.entries else r

namespace Attendance

/-! ## No entry is lost -/

/-- Where the entries of the log are: handed to the index, in hand, in a log that will be read, or
ahead of the task. -/
structure Kept (p : Participant) (a : Attendance) : Prop where
  owner : a.replica.self = p
  reader : a.replica.metadata.toReader = .of p.group .metadata
  behind : a.replica.heardMetadata.next ≤ a.feed.deliveries.sent.size
  places : ∀ e ∈ a.feed.entries, e ∈ a.handed ∨ e ∈ a.task.inHand ∨ a.task.lists = true ∨
    a.feed.deliveries.Ahead a.replica.heardMetadata e
  reached : ∃ told, Metadata.Reached p (.of p.group .metadata) a.handed told a.replica.index

variable {p : Participant} {a b : Attendance} {cursor : Cursor} {task : Task}

/-- The task may go on to anything that keeps the places of the entries. -/
theorem Kept.hear (h : Kept p a) (behind : cursor.next ≤ a.feed.deliveries.sent.size)
    (places : ∀ e ∈ a.feed.entries, e ∈ a.handed ∨ e ∈ task.inHand ∨ task.lists = true ∨
      a.feed.deliveries.Ahead cursor e) : Kept p (a.hear cursor task) where
  owner := h.owner
  reader := h.reader
  behind := behind
  places := places
  reached := h.reached

/-- What the task hears was sent. -/
theorem Kept.behind_received (h : Kept p a) {found : Received Log.Entry}
    (hears : a.received = (found, cursor)) : cursor.next ≤ a.feed.deliveries.sent.size := by
  have hbehind : a.received.2.next ≤ a.feed.deliveries.sent.size := Channel.next_receive h.behind
  rwa [hears] at hbehind

theorem Kept.hear_value (h : Kept p a) {e : Log.Entry} (found : a.received = (.value e, cursor))
    (lists : a.task.lists = false) (inHand : task.inHand = a.task.inHand ++ [e]) :
    Kept p (a.hear cursor task) := by
  refine h.hear (h.behind_received found) fun e' he => ?_
  rw [inHand]
  rcases h.places e' he with hdone | hhand | hlists | hahead
  · exact Or.inl hdone
  · exact Or.inr (Or.inl (List.mem_append_left [e] hhand))
  · exact absurd (lists.symm.trans hlists) Bool.false_ne_true
  · rcases hahead.of_value found with rfl | hahead
    · exact Or.inr (Or.inl (List.mem_append_right a.task.inHand (List.mem_singleton_self _)))
    · exact Or.inr (Or.inr (Or.inr hahead))

theorem Kept.hear_lost (h : Kept p a) {n : Nat} (found : a.received = (.lost n, cursor))
    (lists : task.lists = true) : Kept p (a.hear cursor task) :=
  h.hear (h.behind_received found) fun _ _ => Or.inr (Or.inr (Or.inl lists))

theorem Kept.hand (h : Kept p a) {entries : List Log.Entry}
    (places : ∀ e ∈ a.feed.entries, e ∈ a.handed ++ entries ∨ e ∈ task.inHand ∨
      task.lists = true ∨ a.feed.deliveries.Ahead a.replica.heardMetadata e) :
    Kept p (a.hand entries task) where
  owner := h.owner
  reader := h.reader
  behind := h.behind
  places := places
  reached := by
    obtain ⟨told, hreached⟩ := h.reached
    have hindex : (a.hand entries task).replica.index =
        (a.replica.index.update p (.of p.group .metadata) entries).index := by
      rw [← h.reader, ← h.owner]
      rfl
    rw [hindex]
    exact ⟨_, hreached.update entries⟩

theorem Kept.other (h : Kept p a) (step : Other a b) : Kept p b := by
  cases step with
  | @use store used =>
    have hgrows := used.grows a.replica.metadata.address
    refine ⟨h.owner, h.reader, Nat.le_trans h.behind hgrows.size, ?_, h.reached⟩
    intro e he
    rcases hgrows.delivered h.behind he with hold | hahead
    · exact (h.places e hold).imp_right (Or.imp_right (Or.imp_right hgrows.ahead))
    · exact Or.inr (Or.inr (Or.inr hahead))
  | @beside r beside =>
    have hfeed : Attendance.feed { a with replica := r } = a.feed := by
      unfold feed
      rw [beside.reader]
    obtain ⟨told, hreached⟩ := h.reached
    obtain ⟨keys, hindex⟩ := beside.index
    refine ⟨beside.owner.trans h.owner, beside.reader.trans h.reader, ?_, ?_, told, ?_⟩
    · rw [hfeed, beside.heard]
      exact h.behind
    · rw [hfeed, beside.heard]
      exact h.places
    · rw [hindex]
      exact hreached.withKeys keys
  | refresh entries =>
    refine h.hand fun e he => ?_
    exact (h.places e he).imp_left (List.mem_append_left entries)

theorem Kept.turn (h : Kept p a) (step : Turn a b) : Kept p b := by
  cases step with
  | list at_ =>
    -- all that the log holds is in hand now
    refine h.hear h.behind fun e he => Or.inr (Or.inl ?_)
    show e ∈ (chunks _ (a.store.entries a.replica.metadata.address)).flatten
    rw [flatten_chunks]
    exact he
  | @replay batch rest at_ =>
    refine h.hand fun e he => ?_
    have hplace := h.places e he
    rw [at_] at hplace
    rcases hplace with hdone | hhand | hlists | hahead
    · exact Or.inl (List.mem_append_left batch hdone)
    · rcases List.mem_append.1 hhand with hnow | hlater
      · exact Or.inl (List.mem_append_right a.handed hnow)
      · exact Or.inr (Or.inl hlater)
    · cases hlists
    · exact Or.inr (Or.inr (Or.inr hahead))
  | replayed at_ =>
    refine h.hear h.behind fun e he => ?_
    have hplace := h.places e he
    rw [at_] at hplace
    exact hplace
  | first at_ found => exact h.hear_value found (by rw [at_]; rfl) (by rw [at_]; rfl)
  | loss at_ found => exact h.hear_lost found rfl
  | more at_ room found => exact h.hear_value found (by rw [at_]; rfl) (by rw [at_]; rfl)
  | moreLost at_ room found => exact h.hear_lost found rfl
  | noMore at_ room found =>
    refine h.hear (h.behind_received found) fun e he => ?_
    have hplace := h.places e he
    rw [at_] at hplace
    rcases hplace with hdone | hhand | hlists | hahead
    · exact Or.inl hdone
    · exact Or.inr (Or.inl hhand)
    · cases hlists
    · exact absurd hahead (Channel.not_ahead_of_nothing found)
  | full at_ room =>
    refine h.hear h.behind fun e he => ?_
    have hplace := h.places e he
    rw [at_] at hplace
    exact hplace
  | @apply batch lost at_ =>
    -- what was lost is in the log, which is read next
    have hplaces : ∀ e ∈ a.feed.entries, e ∈ a.handed ++ batch ∨
        e ∈ Task.inHand (if lost then .listing else .waiting) ∨
        Task.lists (if lost then .listing else .waiting) = true ∨
        a.feed.deliveries.Ahead a.replica.heardMetadata e := by
      intro e he
      have hplace := h.places e he
      rw [at_] at hplace
      rcases hplace with hdone | hhand | hlists | hahead
      · exact Or.inl (List.mem_append_left batch hdone)
      · exact Or.inl (List.mem_append_right a.handed hhand)
      · obtain rfl : lost = true := hlists
        exact Or.inr (Or.inr (Or.inl rfl))
      · exact Or.inr (Or.inr (Or.inr hahead))
    split
    · next hempty =>
      obtain rfl := List.isEmpty_iff.1 hempty
      rw [List.append_nil] at hplaces
      exact h.hear h.behind hplaces
    · exact h.hand hplaces

theorem Runs.kept (h : Runs a b) (start : Kept p a) : Kept p b := by
  induction h with
  | refl => exact start
  | turn before step ih => exact ih.turn step
  | other before step ih => exact ih.other step

/-- Whoever starts to listen has heard all that was sent, and is going to read the log. -/
theorem kept_opening (settings : Settings) (custody : Custody) (keys : ChainKeys)
    (store : Log.Store) : Kept p (opening (.fresh p settings custody keys) store) where
  owner := rfl
  reader := rfl
  behind := by
    show (store.feed _).deliveries.sent.size ≤ ((store.listen _).2.feed _).deliveries.sent.size
    rw [Log.Store.feed_listen]
    exact Nat.le_refl _
  places e he := Or.inr (Or.inr (Or.inl rfl))
  reached := ⟨[], .empty keys⟩

/-! ## Undisturbed turns -/

abbrev Turns : Attendance → Attendance → Prop := Relation.ReflTransGen Turn

theorem Runs.turns (h : Runs start a) (turns : Turns a b) : Runs start b := by
  induction turns with
  | refl => exact h
  | tail _ step ih => exact ih.turn step

variable {store : Log.Store} {r : Replica} {handed : List Log.Entry}

theorem turns_replaying (batches : List (List Log.Entry)) :
    Turns ⟨store, r, .replaying batches, handed⟩
      ⟨store, batches.foldl (fun r batch => (r.update batch).2) r, .waiting,
        handed ++ batches.flatten⟩ := by
  induction batches generalizing r handed with
  | nil =>
    rw [List.flatten_nil, List.append_nil]
    exact .single (.replayed rfl)
  | cons batch rest ih =>
    rw [List.flatten_cons, ← List.append_assoc]
    exact .head (.replay rfl) ih

/-- Reading the log is replaying it. -/
theorem turns_listing : Turns ⟨store, r, .listing, handed⟩
    ⟨store, r.replay (store.entries r.metadata.address), .waiting,
      handed ++ store.entries r.metadata.address⟩ := by
  have hreplay : Turns ⟨store, r, .replaying (chunks r.settings.batchSize
      (store.entries r.metadata.address)), handed⟩ _ := turns_replaying _
  rw [flatten_chunks] at hreplay
  exact .head (.list rfl) hreplay

/-- Taking deliveries one by one is collecting them. -/
theorem turns_gathering (n : Nat) (batch : List Log.Entry)
    (room : batch.length + n = r.settings.batchSize) {es : List Log.Entry} {lost : Bool}
    (found : Replica.collect (store.feed r.metadata.address).deliveries n r.heardMetadata =
      (es, lost, cursor)) :
    Turns ⟨store, r, .gathering batch, handed⟩
      ⟨store, { r with heardMetadata := cursor }, .gathered (batch ++ es) lost, handed⟩ := by
  induction n generalizing r batch es with
  | zero =>
    cases found
    have hfull : ¬ batch.length < r.settings.batchSize := by omega
    rw [List.append_nil]
    exact .single (.full rfl hfull)
  | succ n ih =>
    have hroom : batch.length < r.settings.batchSize := by omega
    unfold Replica.collect at found
    rcases (store.feed r.metadata.address).deliveries.receive_cases r.heardMetadata with
      ⟨-, hr⟩ | ⟨e, -, hr⟩ | ⟨-, hr⟩
    · rw [hr] at found
      cases found
      rw [List.append_nil]
      exact .single (.moreLost rfl hroom hr)
    · rw [hr] at found
      dsimp only at found
      obtain ⟨rest, hrest⟩ : ∃ rest, rest = Replica.collect
          (store.feed r.metadata.address).deliveries n ⟨r.heardMetadata.next + 1⟩ := ⟨_, rfl⟩
      obtain ⟨es', lost', cursor'⟩ := rest
      rw [← hrest] at found
      cases found
      have hlength : (batch ++ [e]).length + n = r.settings.batchSize := by
        rw [List.length_append, List.length_singleton]
        omega
      have hmore := ih (r := { r with heardMetadata := ⟨r.heardMetadata.next + 1⟩ }) (batch ++ [e])
        hlength hrest.symm
      rw [List.append_assoc, List.singleton_append] at hmore
      exact .head (.more rfl hroom hr) hmore
    · rw [hr] at found
      cases found
      rw [List.append_nil]
      exact .single (.noMore rfl hroom hr)

theorem takeBatch_eq {f : Log.Feed} {batch : List Log.Entry} {lost : Bool}
    (found : Replica.collect f.deliveries r.settings.batchSize r.heardMetadata =
      (batch, lost, cursor)) :
    Replica.takeBatch f r =
      Replica.afterBatch f batch lost { r with heardMetadata := cursor } := by
  unfold Replica.takeBatch Replica.afterBatch
  rw [found]

/-- What was taken is handed to the index, and after a loss the log is read again. -/
theorem turns_gathered (batch : List Log.Entry) (lost : Bool) : ∃ handed',
    Turns ⟨store, r, .gathered batch lost, handed⟩
      ⟨store, Replica.afterBatch (store.feed r.metadata.address) batch lost r, .waiting,
        handed'⟩ := by
  have happly : Turns ⟨store, r, .gathered batch lost, handed⟩ _ := .single (.apply rfl)
  unfold Replica.afterBatch
  split at happly
  · next hempty =>
    rw [if_pos hempty]
    cases lost with
    | false => exact ⟨_, happly⟩
    | true => exact ⟨_, happly.trans turns_listing⟩
  · next hempty =>
    rw [if_neg hempty]
    cases lost with
    | false => exact ⟨_, happly⟩
    | true => exact ⟨_, happly.trans turns_listing⟩

/-- A round of the task that waits is taking a batch. -/
theorem turns_waiting (size : 1 ≤ r.settings.batchSize) : ∃ handed',
    Turns ⟨store, r, .waiting, handed⟩
      ⟨store, Replica.takeBatch (store.feed r.metadata.address) r, .waiting, handed'⟩ := by
  obtain ⟨n, hn⟩ : ∃ n, r.settings.batchSize = n + 1 := ⟨r.settings.batchSize - 1, by omega⟩
  rcases (store.feed r.metadata.address).deliveries.receive_cases r.heardMetadata with
    ⟨-, hr⟩ | ⟨e, -, hr⟩ | ⟨-, hr⟩
  · have hfound : Replica.collect (store.feed r.metadata.address).deliveries
        r.settings.batchSize r.heardMetadata =
          ([], true, ⟨(store.feed r.metadata.address).deliveries.oldest⟩) := by
      rw [hn, Replica.collect, hr]
    obtain ⟨handed', hturns⟩ : ∃ handed',
        Turns ⟨store, { r with heardMetadata := _ }, .gathered [] true, handed⟩
          ⟨store, _, .waiting, handed'⟩ := turns_gathered [] true
    rw [takeBatch_eq hfound]
    exact ⟨handed', .head (.loss rfl hr) hturns⟩
  · obtain ⟨⟨es, lost, cursor⟩, hrest⟩ : ∃ found, Replica.collect
        (store.feed r.metadata.address).deliveries n ⟨r.heardMetadata.next + 1⟩ = found :=
      ⟨_, rfl⟩
    have hfound : Replica.collect (store.feed r.metadata.address).deliveries
        r.settings.batchSize r.heardMetadata = (e :: es, lost, cursor) := by
      rw [hn, Replica.collect, hr]
      dsimp only
      rw [hrest]
    have hlength : [e].length + n = r.settings.batchSize := by
      rw [hn, List.length_singleton, Nat.add_comm]
    have hgather : Turns ⟨store, { r with heardMetadata := ⟨r.heardMetadata.next + 1⟩ },
        .gathering [e], handed⟩ ⟨store, { r with heardMetadata := cursor },
          .gathered (e :: es) lost, handed⟩ :=
      turns_gathering (r := { r with heardMetadata := ⟨r.heardMetadata.next + 1⟩ }) n [e] hlength
        hrest
    obtain ⟨handed', hturns⟩ : ∃ handed',
        Turns ⟨store, { r with heardMetadata := cursor }, .gathered (e :: es) lost, handed⟩
          ⟨store, _, .waiting, handed'⟩ := turns_gathered (e :: es) lost
    rw [takeBatch_eq hfound]
    exact ⟨handed', .head (.first rfl hr) (hgather.trans hturns)⟩
  · have hfound : Replica.collect (store.feed r.metadata.address).deliveries
        r.settings.batchSize r.heardMetadata = ([], false, r.heardMetadata) := by
      rw [hn, Replica.collect, hr]
    rw [takeBatch_eq hfound]
    exact ⟨handed, .refl⟩

/-- Opening a replica without a pause is attending. -/
theorem runs_attend (store : Log.Store) (r : Replica) : Runs (opening r store)
    ⟨(r.attend store).2, (r.attend store).1, .waiting, store.entries r.metadata.address⟩ := by
  have hlisten : Runs (opening r store) { opening r store with
      store := ((store.listen r.metadata.address).2.listen r.messages.address).2 } :=
    .other .refl (.use (.listen _))
  have hheard : Runs (opening r store) ⟨_, { r with
      heardMetadata := (store.listen r.metadata.address).1
      heardMessages := ((store.listen r.metadata.address).2.listen r.messages.address).1 },
      .listing, []⟩ :=
    .other hlisten (.beside ⟨rfl, rfl, rfl, rfl, r.index.state.keys, rfl⟩)
  have hread := hheard.turns turns_listing
  have hentries : ((store.listen r.metadata.address).2.listen r.messages.address).2.entries
      r.metadata.address = store.entries r.metadata.address := by
    rw [Log.Store.entries, Log.Store.feed_listen, Log.Store.feed_listen, Log.Store.entries]
  rw [← hentries]
  exact hread

/-! ## Coming to wait -/

theorem exists_waiting (a : Attendance) : ∃ b, Turns a b ∧ b.task = .waiting := by
  have hgathered : ∀ (store : Log.Store) (r : Replica) (handed batch : List Log.Entry)
      (lost : Bool), ∃ b, Turns ⟨store, r, .gathered batch lost, handed⟩ b ∧
        b.task = .waiting := by
    intro store r handed batch lost
    obtain ⟨handed', hturns⟩ : ∃ handed', Turns ⟨store, r, .gathered batch lost, handed⟩
        ⟨store, _, .waiting, handed'⟩ := turns_gathered batch lost
    exact ⟨_, hturns, rfl⟩
  obtain ⟨store, r, task, handed⟩ := a
  cases task with
  | listing => exact ⟨_, turns_listing, rfl⟩
  | replaying batches => exact ⟨_, turns_replaying batches, rfl⟩
  | waiting => exact ⟨_, .refl, rfl⟩
  | gathered batch lost => exact hgathered store r handed batch lost
  | gathering batch =>
    by_cases hroom : batch.length ≤ r.settings.batchSize
    · obtain ⟨⟨es, lost, cursor⟩, hfound⟩ : ∃ found, Replica.collect
          (store.feed r.metadata.address).deliveries (r.settings.batchSize - batch.length)
            r.heardMetadata = found := ⟨_, rfl⟩
      have hgather : Turns ⟨store, r, .gathering batch, handed⟩
          ⟨store, { r with heardMetadata := cursor }, .gathered (batch ++ es) lost, handed⟩ :=
        turns_gathering _ batch (Nat.add_sub_cancel' hroom) hfound
      obtain ⟨b, hturns, hwaits⟩ := hgathered store { r with heardMetadata := cursor } handed
        (batch ++ es) lost
      exact ⟨b, hgather.trans hturns, hwaits⟩
    · have hfull : ¬ batch.length < r.settings.batchSize := by omega
      obtain ⟨b, hturns, hwaits⟩ := hgathered store r handed batch false
      exact ⟨b, .head (.full rfl hfull) hturns, hwaits⟩

/-- The task leaves the logs as they are, and hears more and more of its own. -/
theorem Turn.mono (h : Turn a b) : b.store = a.store ∧ b.feed = a.feed ∧
    a.replica.heardMetadata.next ≤ b.replica.heardMetadata.next := by
  have hheard : a.replica.heardMetadata.next ≤ a.received.2.next := Channel.le_receive _ _
  cases h with
  | list at_ | replay at_ | replayed at_ | full at_ room => exact ⟨rfl, rfl, Nat.le_refl _⟩
  | apply at_ => split <;> exact ⟨rfl, rfl, Nat.le_refl _⟩
  | first at_ found | loss at_ found | more at_ room found | moreLost at_ room found
  | noMore at_ room found =>
    rw [found] at hheard
    exact ⟨rfl, rfl, hheard⟩

theorem Turns.mono (h : Turns a b) : b.store = a.store ∧ b.feed = a.feed ∧
    a.replica.heardMetadata.next ≤ b.replica.heardMetadata.next := by
  induction h with
  | refl => exact ⟨rfl, rfl, Nat.le_refl _⟩
  | tail _ step ih =>
    obtain ⟨hstore, hfeed, hmono⟩ := step.mono
    exact ⟨hstore.trans ih.1, hfeed.trans ih.2.1, Nat.le_trans ih.2.2 hmono⟩

/-- A task that waits is quiet, or takes a step and has fewer deliveries ahead. -/
theorem quiet_or_turn (waits : a.task = .waiting) : a.Quiet ∨ ∃ b, Turn a b ∧
    a.replica.heardMetadata.next < b.replica.heardMetadata.next ∧
    a.replica.heardMetadata.next < a.feed.deliveries.sent.size := by
  rcases a.feed.deliveries.receive_cases a.replica.heardMetadata with
    ⟨hlost, hr⟩ | ⟨e, he, hr⟩ | ⟨-, hr⟩
  · have hsize : a.feed.deliveries.oldest ≤ a.feed.deliveries.sent.size := Nat.sub_le _ _
    exact Or.inr ⟨_, .loss waits hr, hlost, Nat.lt_of_lt_of_le hlost hsize⟩
  · have hsize := (Array.getElem?_eq_some_iff.1 he).1
    exact Or.inr ⟨_, .first waits hr, Nat.lt_succ_self _, hsize⟩
  · exact Or.inl ⟨waits, _, hr⟩

/-- Undisturbed, the task comes to wait with no delivery to come. -/
theorem exists_quiet (a : Attendance) : ∃ b, Turns a b ∧ b.Quiet := by
  have hwaiting : ∀ n (a : Attendance), a.task = .waiting →
      a.feed.deliveries.sent.size - a.replica.heardMetadata.next ≤ n →
      ∃ b, Turns a b ∧ b.Quiet := by
    intro n
    induction n with
    | zero =>
      intro a hwaits hle
      rcases quiet_or_turn hwaits with hquiet | ⟨b, -, -, hsize⟩
      · exact ⟨a, .refl, hquiet⟩
      · omega
    | succ n ih =>
      intro a hwaits hle
      rcases quiet_or_turn hwaits with hquiet | ⟨b, hstep, hless, hsize⟩
      · exact ⟨a, .refl, hquiet⟩
      · obtain ⟨c, hturns, hc⟩ := exists_waiting b
        obtain ⟨-, hfeed, hmono⟩ := hturns.mono
        rw [hstep.mono.2.1] at hfeed
        obtain ⟨d, hmore, hquiet⟩ := ih c hc (by rw [hfeed]; omega)
        exact ⟨d, .head hstep (hturns.trans hmore), hquiet⟩
  obtain ⟨b, hturns, hb⟩ := exists_waiting a
  obtain ⟨c, hmore, hquiet⟩ := hwaiting _ b hb (Nat.le_refl _)
  exact ⟨c, hturns.trans hmore, hquiet⟩

/-! ## Main statement -/

/-- Whatever is done to the logs and with the replica while a new replica listens, reads its
membership log and follows it: whenever the task waits and no delivery is to come, the index was
given every entry of the log. -/
theorem Runs.all_handed {settings : Settings} {custody : Custody} {keys : ChainKeys}
    {store : Log.Store} (h : Runs (opening (.fresh p settings custody keys) store) a)
    (quiet : a.Quiet) :
    (∀ e ∈ a.store.entries ⟨p.group.id, .metadata⟩, e ∈ a.handed) ∧
      ∃ told, Metadata.Reached p (.of p.group .metadata) a.handed told a.replica.index := by
  have hkept := h.kept (kept_opening settings custody keys store)
  obtain ⟨hwaits, cursor, hnothing⟩ := quiet
  refine ⟨fun e he => ?_, hkept.reached⟩
  have hfeed : a.feed = a.store.feed ⟨p.group.id, .metadata⟩ := by
    unfold feed
    rw [hkept.reader]
    rfl
  have hplace := hkept.places e (by rwa [hfeed])
  rw [hwaits] at hplace
  rcases hplace with hdone | hhand | hlists | hahead
  · exact hdone
  · cases hhand
  · cases hlists
  · exact absurd hahead (Channel.not_ahead_of_nothing hnothing)

end Attendance

end SecureGroup

/-! ## A log that grows while it is read -/

namespace SecureGroup.Attendance

attribute [local instance] Suite.plain

open Plain

/-- One entry is there before the replica listens, one comes before it reads the log, and one while
it hands on what it read: all are handed to the index. -/
theorem all_handed_of_growing :
    let r := Replica.fresh (participant 5 6) ⟨256, 1, 16, 1⟩ .empty (chains 6)
    let commit (s : Log.Store) (e : Log.Entry) := (s.commit reader.address e.payload).2
    let entries := [entry 2 (announced 1 2), entry 4 (joined 1 3 4), entry 6 (announced 5 6)]
    ∃ a, Runs (opening r (commit .empty (entry 2 (announced 1 2)))) a ∧ a.Quiet ∧
      (a.store.entries reader.address).map (·.payload) = entries.map (·.payload) ∧
      ∀ e ∈ a.store.entries reader.address, e ∈ a.handed := by
  intro r commit entries
  let start := opening r (commit .empty (entry 2 (announced 1 2)))
  let before := commit start.store (entry 4 (joined 1 3 4))
  let after := commit before (entry 6 (announced 5 6))
  have hbefore : Runs start { start with store := before } := .other .refl (.use (.append _ _))
  have hread : Runs start ⟨before, start.replica,
      .replaying (chunks 1 (before.entries reader.address)), []⟩ := hbefore.turn (.list rfl)
  have hafter : Runs start ⟨after, start.replica,
      .replaying (chunks 1 (before.entries reader.address)), []⟩ :=
    hread.other (.use (.append _ _))
  obtain ⟨a, hturns, hquiet⟩ := exists_quiet _
  have hruns := hafter.turns hturns
  refine ⟨a, hruns, hquiet, ?_, (hruns.all_handed hquiet).1⟩
  rw [hturns.mono.1]
  decide +kernel

end SecureGroup.Attendance
