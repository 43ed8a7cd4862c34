import SecureGroup.Emitter
import SecureGroup.Proofs.Channels

/-!
# What becomes of every value for a subscription

A subscription looks at its channel until it finds a value or nothing, and counts the values that it
learns it has lost (`Subscription.look`).  Anyone may emit, and others may read, between two looks.
However these calls mix, each value that was emitted since the subscription began was given to it,
or is counted as lost, or waits in the channel, or was overwritten and not yet noticed
(`Emitter.accounts_of_every_value`).  What it was given stands in the order in which it was emitted,
and a value is lost only after as many newer ones as the channel keeps.
-/

namespace SecureGroup

variable {α : Type}

/-! ## Looks -/

def Received.value? : Received α → Option α
  | value a => some a
  | _ => none

def Awaited.value? : Awaited α → Option α
  | value a => some a
  | _ => none

namespace Channel

/-- How many values a listener has not read and can still read. -/
def waiting (c : Channel α) (cursor : Cursor) : Nat := c.sent.size - max cursor.next c.oldest

/-- How many values were overwritten before a listener noticed. -/
def overwritten (c : Channel α) (cursor : Cursor) : Nat := c.oldest - cursor.next

theorem oldest_lt {c : Channel α} {cursor : Cursor} (h : cursor.next < c.oldest) :
    c.oldest < c.sent.size := by
  have hpos := c.capacity_pos
  unfold oldest at h ⊢
  omega

end Channel

namespace Subscription

variable {c : Channel α} {s s' s'' : Subscription} {a : α} {as bs : List α} {n : Nat}

/-- One look at the channel; a loss is counted. -/
def look (s : Subscription) (c : Channel α) : Received α × Subscription :=
  match c.receive s.cursor with
  | (.lost n, cursor) => (.lost n, ⟨cursor, s.lagged + n⟩)
  | (found, cursor) => (found, ⟨cursor, s.lagged⟩)

theorem look_of_lost (h : s.cursor.next < c.oldest) : s.look c =
    (.lost (c.oldest - s.cursor.next), ⟨⟨c.oldest⟩, s.lagged + (c.oldest - s.cursor.next)⟩) := by
  rw [look, Channel.receive, if_pos h]

theorem look_of_value (h : c.oldest ≤ s.cursor.next) (ha : c.sent[s.cursor.next]? = some a) :
    s.look c = (.value a, ⟨⟨s.cursor.next + 1⟩, s.lagged⟩) := by
  rw [look, Channel.receive, if_neg (Nat.not_lt.2 h), ha]

theorem look_of_nothing (h : c.sent.size ≤ s.cursor.next) : s.look c = (.nothing, s) := by
  have hkept : ¬ s.cursor.next < c.oldest := by
    unfold Channel.oldest
    omega
  rw [look, Channel.receive, if_neg hkept, Array.getElem?_eq_none h]

/-- A look finds a loss, the next value, or nothing. -/
theorem look_cases (s : Subscription) (c : Channel α) :
    s.cursor.next < c.oldest ∨
      (c.oldest ≤ s.cursor.next ∧ ∃ a, c.sent[s.cursor.next]? = some a) ∨
      c.sent.size ≤ s.cursor.next := by
  by_cases hlost : s.cursor.next < c.oldest
  · exact Or.inl hlost
  · by_cases hsize : c.sent.size ≤ s.cursor.next
    · exact Or.inr (Or.inr hsize)
    · exact Or.inr (Or.inl ⟨Nat.not_lt.1 hlost, _, Array.getElem?_eq_getElem (Nat.not_le.1 hsize)⟩)

/-- Looks one after the other with no call between them, and the values that they find. -/
inductive Looks (c : Channel α) : Subscription → List α → Subscription → Prop
  | refl (s : Subscription) : Looks c s [] s
  | lost {s s' s'' : Subscription} {n : Nat} {as : List α} (found : s.look c = (.lost n, s'))
      (rest : Looks c s' as s'') : Looks c s as s''
  | value {s s' s'' : Subscription} {a : α} {as : List α} (found : s.look c = (.value a, s'))
      (rest : Looks c s' as s'') : Looks c s (a :: as) s''

theorem looks_look (s : Subscription) (c : Channel α) :
    Looks c s (s.look c).1.value?.toList (s.look c).2 := by
  rcases s.look_cases c with hlost | ⟨hkept, a, ha⟩ | hsize
  · rw [look_of_lost hlost]
    exact .lost (look_of_lost hlost) (.refl _)
  · rw [look_of_value hkept ha]
    exact .value (look_of_value hkept ha) (.refl _)
  · rw [look_of_nothing hsize]
    exact .refl s

theorem size_le_of_nothing (h : (s.look c).1 = .nothing) : c.sent.size ≤ s.cursor.next := by
  rcases s.look_cases c with hlost | ⟨hkept, a, ha⟩ | hsize
  · rw [look_of_lost hlost] at h
    cases h
  · rw [look_of_value hkept ha] at h
    cases h
  · exact hsize

/-- After a loss is noticed there is a value. -/
theorem look_of_noticed (h : s.cursor.next < c.oldest) : ∃ a, c.sent[c.oldest]? = some a ∧
    (⟨⟨c.oldest⟩, n⟩ : Subscription).look c = (.value a, ⟨⟨c.oldest + 1⟩, n⟩) :=
  ⟨_, Array.getElem?_eq_getElem (Channel.oldest_lt h),
    look_of_value (Nat.le_refl _) (Array.getElem?_eq_getElem (Channel.oldest_lt h))⟩

theorem receive_of_size_le (h : c.sent.size ≤ s.cursor.next) : s.receive c = (none, s) := by
  have hkept : c.oldest ≤ s.cursor.next := by
    unfold Channel.oldest
    omega
  rw [receive, Nat.max_eq_left hkept, Nat.sub_self, Array.getElem?_eq_none h]
  rfl

/-- Reading the next value is looking until there is a value or nothing. -/
theorem looks_receive (s : Subscription) (c : Channel α) :
    Looks c s (s.receive c).1.toList (s.receive c).2 := by
  rcases s.look_cases c with hlost | ⟨hkept, a, ha⟩ | hsize
  · obtain ⟨a, ha, hnext⟩ := look_of_noticed (n := s.lagged + (c.oldest - s.cursor.next)) hlost
    rw [receive, Nat.max_eq_right (Nat.le_of_lt hlost), ha]
    exact .lost (look_of_lost hlost) (.value hnext (.refl _))
  · rw [receive, Nat.max_eq_left hkept, Nat.sub_self, ha]
    exact .value (look_of_value hkept ha) (.refl _)
  · rw [receive_of_size_le hsize]
    exact .refl s

theorem receive_eq_none_iff : (s.receive c).1 = none ↔ c.sent.size ≤ s.cursor.next := by
  have hsome : (s.receive c).1 = c.sent[max s.cursor.next c.oldest]? := by
    unfold receive
    dsimp only
    split
    · next a ha => exact ha.symm
    · next hnone => exact hnone.symm
  have holdest : c.oldest < c.sent.size ∨ c.sent.size = 0 := by
    have hpos := c.capacity_pos
    unfold Channel.oldest
    omega
  rw [hsome, Array.getElem?_eq_none_iff]
  omega

/-- Everything that a subscription that lost nothing can still read. -/
theorem looks_rest (hkept : c.oldest ≤ s.cursor.next) (hle : s.cursor.next ≤ c.sent.size) :
    Looks c s (c.sent.toList.drop s.cursor.next) ⟨c.listen, s.lagged⟩ := by
  induction hn : c.sent.size - s.cursor.next generalizing s with
  | zero =>
    have hsize : s.cursor.next = c.sent.size := by omega
    rw [hsize, ← Array.length_toList, List.drop_length, Channel.listen, ← hsize]
    exact .refl s
  | succ n ih =>
    have hlt : s.cursor.next < c.sent.size := by omega
    have hlook := look_of_value hkept (Array.getElem?_eq_getElem hlt)
    have hrest := @ih ⟨⟨s.cursor.next + 1⟩, s.lagged⟩ (by dsimp only; omega) hlt
      (by dsimp only; omega)
    rw [List.drop_eq_getElem_cons (by rwa [Array.length_toList]), Array.getElem_toList]
    exact .value hlook hrest

/-- Reading all values that wait is looking until there is nothing. -/
theorem looks_drain (hle : s.cursor.next ≤ c.sent.size) :
    Looks c s (s.drain c).1 (s.drain c).2 := by
  have hvalues : (s.drain c).1 = c.sent.toList.drop (max s.cursor.next c.oldest) := by
    simp [drain, Channel.drain, List.take_of_length_le]
  by_cases hlost : s.cursor.next < c.oldest
  · have hmax := Nat.max_eq_right (Nat.le_of_lt hlost)
    have hsub : (s.drain c).2 = ⟨c.listen, s.lagged + (c.oldest - s.cursor.next)⟩ := by
      simp [drain, Channel.drain, hmax]
    rw [hvalues, hsub, hmax]
    exact .lost (look_of_lost hlost) (looks_rest (s := ⟨⟨c.oldest⟩, _⟩) (Nat.le_refl _)
      (Nat.le_of_lt (Channel.oldest_lt hlost)))
  · have hkept := Nat.not_lt.1 hlost
    have hmax := Nat.max_eq_left hkept
    have hsub : (s.drain c).2 = ⟨c.listen, s.lagged⟩ := by
      simp [drain, Channel.drain, hmax]
    rw [hvalues, hsub, hmax]
    exact looks_rest hkept hle

/-! ## The balance -/

/-- The balance of a subscription after it went past the first values that were emitted since it
began.  Those that it was given stand at some places among them; the others are counted as lost, and
were followed by as many values as the channel keeps. -/
structure Balance (c : Channel α) (s : Subscription) (emitted received : List α) (past : Nat)
    (taken : List Nat) : Prop where
  sent : ∃ before, c.sent.toList = before ++ emitted ∧ s.cursor.next = before.length + past
  past_le : past ≤ emitted.length
  count : received.length + s.lagged = past
  sublist : received.Sublist (emitted.take past)
  sorted : taken.Pairwise (· < ·)
  taken_lt : ∀ i ∈ taken, i < past
  values : received.map some = taken.map (emitted[·]?)
  lost : ∀ i < past, i ∉ taken → i + c.capacity < emitted.length

theorem balance_ofChannel (c : Channel α) : Balance c (ofChannel c) [] [] 0 [] where
  sent := ⟨c.sent.toList, (List.append_nil _).symm, Array.length_toList.symm⟩
  past_le := Nat.le_refl 0
  count := rfl
  sublist := List.Sublist.refl _
  sorted := List.Pairwise.nil
  taken_lt _ hi := by cases hi
  values := rfl
  lost _ hi := absurd hi (Nat.not_lt_zero _)

namespace Balance

variable {emitted received : List α} {past : Nat} {taken : List Nat}

theorem size_eq (h : Balance c s emitted received past taken) :
    c.sent.size + past = s.cursor.next + emitted.length := by
  obtain ⟨before, hsent, hnext⟩ := h.sent
  have hlength := congrArg List.length hsent
  rw [Array.length_toList, List.length_append] at hlength
  omega

theorem next_le (h : Balance c s emitted received past taken) : s.cursor.next ≤ c.sent.size := by
  have hsize := h.size_eq
  have hpast := h.past_le
  omega

/-- A value that is emitted is one more to come. -/
theorem send (h : Balance c s emitted received past taken) (a : α) :
    Balance (c.send a) s (emitted ++ [a]) received past taken where
  sent := by
    obtain ⟨before, hsent, hnext⟩ := h.sent
    refine ⟨before, ?_, hnext⟩
    rw [Channel.send, Array.toList_push, hsent, List.append_assoc]
  past_le := by
    have hpast := h.past_le
    rw [List.length_append]
    omega
  count := h.count
  sublist := by
    rw [List.take_append_of_le_length h.past_le]
    exact h.sublist
  sorted := h.sorted
  taken_lt := h.taken_lt
  values := by
    rw [h.values]
    refine List.map_congr_left fun i hi => ?_
    have hlt := h.taken_lt i hi
    have hpast := h.past_le
    rw [List.getElem?_append_left (by omega)]
  lost i hi hnot := by
    have hlost := h.lost i hi hnot
    rw [List.length_append]
    exact Nat.lt_add_right _ hlost

/-- A loss that is noticed is counted. -/
theorem look_lost (h : Balance c s emitted received past taken) (hlost : s.cursor.next < c.oldest) :
    Balance c ⟨⟨c.oldest⟩, s.lagged + (c.oldest - s.cursor.next)⟩ emitted received
      (past + (c.oldest - s.cursor.next)) taken where
  sent := by
    obtain ⟨before, hsent, hnext⟩ := h.sent
    refine ⟨before, hsent, ?_⟩
    dsimp only
    omega
  past_le := by
    have hsize := h.size_eq
    have hlt := Channel.oldest_lt hlost
    omega
  count := by
    rw [← Nat.add_assoc, h.count]
  sublist := h.sublist.trans (List.take_prefix_take_left (Nat.le_add_right _ _)).sublist
  sorted := h.sorted
  taken_lt i hi := Nat.lt_add_right _ (h.taken_lt i hi)
  values := h.values
  lost i hi hnot := by
    by_cases hpast : i < past
    · exact h.lost i hpast hnot
    · have hsize := h.size_eq
      unfold Channel.oldest at hi hlost
      omega

theorem look_value (h : Balance c s emitted received past taken)
    (ha : c.sent[s.cursor.next]? = some a) :
    Balance c ⟨⟨s.cursor.next + 1⟩, s.lagged⟩ emitted (received ++ [a]) (past + 1)
      (taken ++ [past]) := by
  obtain ⟨before, hsent, hnext⟩ := h.sent
  have hvalue : emitted[past]? = some a := by
    rw [← Array.getElem?_toList, hsent, hnext, List.getElem?_append_right (by omega),
      Nat.add_sub_cancel_left] at ha
    exact ha
  have hlt : past < emitted.length := (List.getElem?_eq_some_iff.1 hvalue).1
  refine ⟨⟨before, hsent, by dsimp only; omega⟩, hlt, ?_, ?_, ?_, ?_, ?_, ?_⟩
  · rw [List.length_append, List.length_singleton, Nat.add_right_comm, h.count]
  · rw [List.take_add_one, hvalue]
    exact h.sublist.append (List.Sublist.refl _)
  · rw [List.pairwise_append]
    refine ⟨h.sorted, List.pairwise_singleton _ _, fun i hi j hj => ?_⟩
    rw [List.mem_singleton.1 hj]
    exact h.taken_lt i hi
  · intro i hi
    rcases List.mem_append.1 hi with hi | hi
    · exact Nat.lt_succ_of_lt (h.taken_lt i hi)
    · rw [List.mem_singleton.1 hi]
      exact Nat.lt_succ_self past
  · rw [List.map_append, List.map_append, h.values, List.map_singleton, List.map_singleton, hvalue]
  · intro i hi hnot
    rw [List.mem_append, List.mem_singleton, not_or] at hnot
    exact h.lost i (by omega) hnot.1

theorem looks (h : Balance c s emitted received past taken) (hlooks : Looks c s as s') :
    ∃ past' taken', Balance c s' emitted (received ++ as) past' taken' := by
  induction hlooks generalizing received past taken with
  | refl s =>
    rw [List.append_nil]
    exact ⟨past, taken, h⟩
  | @lost s s' s'' n as found rest ih =>
    rcases s.look_cases c with hlost | ⟨hkept, a, ha⟩ | hsize
    · rw [look_of_lost hlost] at found
      cases found
      exact ih (h.look_lost hlost)
    · rw [look_of_value hkept ha] at found
      cases found
    · rw [look_of_nothing hsize] at found
      cases found
  | @value s s' s'' a as found rest ih =>
    rcases s.look_cases c with hlost | ⟨hkept, b, hb⟩ | hsize
    · rw [look_of_lost hlost] at found
      cases found
    · rw [look_of_value hkept hb] at found
      cases found
      have hrest := ih (h.look_value hb)
      rwa [List.append_assoc, List.singleton_append] at hrest
    · rw [look_of_nothing hsize] at found
      cases found

/-- Every value that was emitted is accounted for. -/
theorem total (h : Balance c s emitted received past taken) :
    received.length + s.lagged + (c.waiting s.cursor + c.overwritten s.cursor) =
      emitted.length := by
  have hsize := h.size_eq
  have hcount := h.count
  have hnext := h.next_le
  unfold Channel.waiting Channel.overwritten Channel.oldest
  omega

/-- A value that was not given and does not wait was followed by as many as the channel keeps. -/
theorem lost_of_not_mem (h : Balance c s emitted received past taken) {i : Nat}
    (hi : i + c.waiting s.cursor < emitted.length) (hnot : i ∉ taken) :
    i + c.capacity < emitted.length := by
  by_cases hpast : i < past
  · exact h.lost i hpast hnot
  · have hsize := h.size_eq
    have hnext := h.next_le
    unfold Channel.waiting Channel.oldest at hi
    omega

theorem total_of_size_le (h : Balance c s emitted received past taken)
    (hsize : c.sent.size ≤ s.cursor.next) : received.length + s.lagged = emitted.length := by
  have hsum := h.size_eq
  have hcount := h.count
  have hpast := h.past_le
  omega

end Balance

end Subscription

/-! ## Calls -/

namespace Emitter

variable {e : Emitter α} {name : String} {s : Subscription}

def look (e : Emitter α) (name : String) : Received α × Emitter α :=
  match e.subscriptions.get? name with
  | none => (.nothing, e)
  | some s =>
    let (found, s) := s.look e.channel
    (found, { e with subscriptions := e.subscriptions.put name s })

/-- A way to read on behalf of a subscription. -/
inductive Reading where
  /-- A single look, which may be one of several looks of an unfinished call. -/
  | look
  | receive
  | await
  | drain
deriving DecidableEq

/-- What anyone does with an emitter and its subscriptions. -/
inductive Call (α : Type) where
  | emit (a : α)
  | subscribe (name : String)
  | unsubscribe (name : String)
  | read (way : Reading) (name : String)
  | finish
deriving DecidableEq

def Call.emitted? : Call α → Option α
  | emit a => some a
  | _ => none

/-- A call leaves it to a subscription that it goes on. -/
def Call.Spares (c : Call α) (name : String) : Prop := c ≠ subscribe name ∧ c ≠ unsubscribe name

instance [DecidableEq α] (c : Call α) (name : String) : Decidable (c.Spares name) :=
  inferInstanceAs (Decidable (_ ∧ _))

/-- The values that are read, and the emitter afterwards. -/
def read (e : Emitter α) (name : String) : Reading → List α × Emitter α
  | .look => ((e.look name).1.value?.toList, (e.look name).2)
  | .receive => ((e.receive name).1.toList, (e.receive name).2)
  | .await => ((e.await name).1.value?.toList, (e.await name).2)
  | .drain => e.drain name

def act (e : Emitter α) : Call α → Emitter α
  | .emit a => (e.emit a).2
  | .subscribe name => e.subscribe name
  | .unsubscribe name => e.unsubscribe name
  | .read way name => (e.read name way).2
  | .finish => e.finish

def actAll (e : Emitter α) (calls : List (Call α)) : Emitter α := calls.foldl act e

def given (name : String) (e : Emitter α) : Call α → List α
  | .read way who => if who = name then (e.read who way).1 else []
  | _ => []

def givenAll (name : String) : Emitter α → List (Call α) → List α
  | _, [] => []
  | e, c :: rest => given name e c ++ givenAll name (e.act c) rest

/-- Waiting for a value reads as receiving does. -/
theorem await_eq (e : Emitter α) (name : String) :
    (e.await name).1.value? = (e.receive name).1 ∧ (e.await name).2 = (e.receive name).2 := by
  unfold await
  split
  · next h =>
    rw [h]
    exact ⟨rfl, rfl⟩
  · next h =>
    rw [h]
    refine ⟨?_, rfl⟩
    dsimp only
    split <;> rfl

theorem receive_of_some (hs : e.subscriptions.get? name = some s) : e.receive name =
    ((s.receive e.channel).1,
      { e with subscriptions := e.subscriptions.put name (s.receive e.channel).2 }) := by
  rw [receive, hs]

/-- Nobody reads on behalf of a subscription that does not exist. -/
theorem read_of_none (hs : e.subscriptions.get? name = none) (way : Reading) :
    e.read name way = ([], e) := by
  have hreceive : e.receive name = (none, e) := by rw [receive, hs]
  cases way with
  | look => rw [read, look, hs]; rfl
  | receive => rw [read, hreceive]; rfl
  | await => rw [read, (e.await_eq name).1, (e.await_eq name).2, hreceive]; rfl
  | drain => rw [read, drain, hs]

/-- Whoever reads on behalf of a subscription lets it look. -/
theorem read_of_some (hs : e.subscriptions.get? name = some s) (way : Reading) :
    ∃ as s', e.read name way = (as, { e with subscriptions := e.subscriptions.put name s' }) ∧
      (s.cursor.next ≤ e.channel.sent.size → s.Looks e.channel as s') := by
  cases way with
  | look =>
    refine ⟨_, (s.look e.channel).2, ?_, fun _ => s.looks_look e.channel⟩
    rw [read, look, hs]
  | receive =>
    refine ⟨_, (s.receive e.channel).2, ?_, fun _ => s.looks_receive e.channel⟩
    rw [read, receive_of_some hs]
  | await =>
    refine ⟨_, (s.receive e.channel).2, ?_, fun _ => s.looks_receive e.channel⟩
    rw [read, (e.await_eq name).1, (e.await_eq name).2, receive_of_some hs]
  | drain =>
    refine ⟨_, (s.drain e.channel).2, ?_, Subscription.looks_drain⟩
    rw [read, drain, hs]

/-- Reading leaves the channel and all other subscriptions as they are. -/
theorem read_frame (e : Emitter α) (who name : String) (way : Reading) :
    (e.read who way).2.channel = e.channel ∧ (who ≠ name →
      (e.read who way).2.subscriptions.get? name = e.subscriptions.get? name) := by
  cases hs : e.subscriptions.get? who with
  | none =>
    rw [read_of_none hs]
    exact ⟨rfl, fun _ => rfl⟩
  | some s =>
    obtain ⟨as, s', hread, -⟩ := read_of_some hs way
    rw [hread]
    exact ⟨rfl, fun hne => Table.get?_put_of_ne _ _ hne.symm⟩

theorem capacity_act (e : Emitter α) (c : Call α) :
    (e.act c).channel.capacity = e.channel.capacity := by
  cases c with
  | read way who => exact congrArg Channel.capacity (e.read_frame who who way).1
  | _ => rfl

theorem capacity_actAll (e : Emitter α) (calls : List (Call α)) :
    (e.actAll calls).channel.capacity = e.channel.capacity := by
  induction calls generalizing e with
  | nil => rfl
  | cons c rest ih => exact (ih (e.act c)).trans (e.capacity_act c)

/-! ## Any run -/

/-- A subscription has a balance of what was emitted since it began and what it was given. -/
def Balanced (e : Emitter α) (name : String) (emitted received : List α) : Prop :=
  ∃ s past taken, e.subscriptions.get? name = some s ∧
    s.Balance e.channel emitted received past taken

variable {emitted received : List α}

theorem balanced_subscribe (e : Emitter α) (name : String) :
    (e.subscribe name).Balanced name [] [] :=
  ⟨_, 0, [], Table.get?_put_self _ _ _, Subscription.balance_ofChannel e.channel⟩

/-- A balance is about a subscription and the channel. -/
theorem Balanced.of_frame {e' : Emitter α} (h : e.Balanced name emitted received)
    (hchannel : e'.channel = e.channel)
    (hothers : e'.subscriptions.get? name = e.subscriptions.get? name) :
    e'.Balanced name (emitted ++ []) (received ++ []) := by
  obtain ⟨s, past, taken, hs, hbalance⟩ := h
  rw [List.append_nil, List.append_nil]
  exact ⟨s, past, taken, hothers.trans hs, hchannel ▸ hbalance⟩

theorem Balanced.act {c : Call α} (h : e.Balanced name emitted received) (hspares : c.Spares name) :
    (e.act c).Balanced name (emitted ++ c.emitted?.toList) (received ++ given name e c) := by
  cases c with
  | emit a =>
    obtain ⟨s, past, taken, hs, hbalance⟩ := h
    have hgiven : received ++ given name e (.emit a) = received := List.append_nil received
    rw [hgiven]
    exact ⟨s, past, taken, hs, hbalance.send a⟩
  | subscribe who =>
    have hne : name ≠ who := fun heq => hspares.1 (congrArg Call.subscribe heq.symm)
    exact h.of_frame rfl (Table.get?_put_of_ne _ _ hne)
  | unsubscribe who =>
    have hne : name ≠ who := fun heq => hspares.2 (congrArg Call.unsubscribe heq.symm)
    exact h.of_frame rfl (Table.get?_erase_of_ne _ hne)
  | read way who =>
    by_cases hwho : who = name
    · subst hwho
      obtain ⟨s, past, taken, hs, hbalance⟩ := h
      obtain ⟨as, s', hread, hlooks⟩ := read_of_some hs way
      obtain ⟨past', taken', hbalance'⟩ := hbalance.looks (hlooks hbalance.next_le)
      have hemitted : emitted ++ (Call.read way who : Call α).emitted?.toList = emitted :=
        List.append_nil emitted
      have hgiven : given who e (.read way who) = as := by
        rw [given, if_pos rfl, hread]
      rw [hemitted, hgiven, Emitter.act, hread]
      exact ⟨s', past', taken', Table.get?_put_self _ _ _, hbalance'⟩
    · obtain ⟨hchannel, hothers⟩ := e.read_frame who name way
      have hgiven : given name e (.read way who) = [] := if_neg hwho
      rw [hgiven]
      exact h.of_frame hchannel (hothers hwho)
  | finish => exact h.of_frame rfl rfl

theorem Balanced.actAll {calls : List (Call α)} (h : e.Balanced name emitted received)
    (hspares : ∀ c ∈ calls, c.Spares name) :
    (e.actAll calls).Balanced name (emitted ++ calls.filterMap Call.emitted?)
      (received ++ givenAll name e calls) := by
  induction calls generalizing e emitted received with
  | nil =>
    rw [List.filterMap_nil, givenAll, List.append_nil, List.append_nil]
    exact h
  | cons c rest ih =>
    have hstep := h.act (hspares c List.mem_cons_self)
    have hrest := ih hstep fun c hc => hspares c (List.mem_cons_of_mem _ hc)
    have hemitted : (c :: rest).filterMap Call.emitted? =
        c.emitted?.toList ++ rest.filterMap Call.emitted? := by
      cases hc : c.emitted? <;> simp [hc]
    rw [hemitted, givenAll, ← List.append_assoc, ← List.append_assoc]
    exact hrest

/-- Every value is accounted for.  Take an emitter with any history, a subscription that begins, and
any calls after that, which emit, look, receive and wait on behalf of this subscription and of
others.  What the subscription was given stands among what was emitted since it began, in that order
and each place once.  What it was given, what it counted as lost, what it can still read and what
was overwritten before it noticed are together all that was emitted.  A value that it was not given
and cannot read any more was followed by at least as many values as the channel keeps.  And when a
look or a whole call finds nothing, what it was given and what it counted are all that was emitted.
-/
theorem accounts_of_every_value (n : Nat) (before : List (Call α)) (name : String)
    (calls : List (Call α)) (hspares : ∀ c ∈ calls, c.Spares name) :
    let start := ((ofCapacity n).actAll before).subscribe name
    let e := start.actAll calls
    let emitted := calls.filterMap Call.emitted?
    let given := givenAll name start calls
    e.channel.capacity = (max n 1).nextPowerOfTwo ∧
    ∃ s, e.subscriptions.get? name = some s ∧
      given.Sublist emitted ∧
      given.length + s.lagged + (e.channel.waiting s.cursor + e.channel.overwritten s.cursor) =
        emitted.length ∧
      (∃ taken : List Nat, taken.Pairwise (· < ·) ∧
        given.map some = taken.map (emitted[·]?) ∧
        ∀ i, i + e.channel.waiting s.cursor < emitted.length → i ∉ taken →
          e.channel.capacity ≤ (emitted.drop (i + 1)).length) ∧
      ((e.look name).1 = .nothing → given.length + s.lagged = emitted.length) ∧
      ((e.receive name).1 = none → ∃ s', (e.receive name).2.subscriptions.get? name = some s' ∧
        given.length + s'.lagged = emitted.length) := by
  intro start e emitted given
  have hcapacity : e.channel.capacity = (max n 1).nextPowerOfTwo := by
    rw [capacity_actAll]
    show ((ofCapacity n).actAll before).channel.capacity = _
    rw [capacity_actAll]
    show n.nextPowerOfTwo = _
    cases n with
    | zero => decide +kernel
    | succ n => rw [Nat.max_eq_left (Nat.le_add_left 1 n)]
  have hbalanced : e.Balanced name ([] ++ emitted) ([] ++ given) :=
    (balanced_subscribe ((ofCapacity n).actAll before) name).actAll hspares
  rw [List.nil_append, List.nil_append] at hbalanced
  obtain ⟨s, past, taken, hs, hbalance⟩ := hbalanced
  refine ⟨hcapacity, s, hs, hbalance.sublist.trans (List.take_sublist _ _), hbalance.total,
    ⟨taken, hbalance.sorted, hbalance.values, fun i hi hnot => ?_⟩, fun hnothing => ?_,
    fun hnone => ?_⟩
  · have hlost := hbalance.lost_of_not_mem hi hnot
    rw [List.length_drop]
    omega
  · rw [look, hs] at hnothing
    exact hbalance.total_of_size_le (Subscription.size_le_of_nothing hnothing)
  · rw [receive_of_some hs] at hnone ⊢
    have hsize := Subscription.receive_eq_none_iff.1 hnone
    rw [Subscription.receive_of_size_le hsize]
    exact ⟨s, Table.get?_put_self _ _ _, hbalance.total_of_size_le hsize⟩

/-- A channel that keeps four values overtakes a subscription twice before it is given a value: it
looks once, learns that two values are lost, and before it looks again four more are emitted. -/
theorem accounts_of_every_value_overtaken :
    let burst (first : Nat) : List (Call Nat) := (List.range' first 4).map .emit
    let calls := [.emit 0, .emit 1] ++ burst 2 ++ [.read .look "slow"] ++ burst 6 ++
      [.read .receive "other", .read .receive "slow", .read .drain "slow"]
    let start := ((ofCapacity 3).actAll [.emit 99, .subscribe "other"]).subscribe "slow"
    (∀ c ∈ calls, c.Spares "slow") ∧ givenAll "slow" start calls = [6, 7, 8, 9] ∧
      ∃ s, ((start.actAll calls).receive "slow").2.subscriptions.get? "slow" = some s ∧
        4 + s.lagged = 10 := by
  intro burst calls start
  have hrun : (∀ c ∈ calls, c.Spares "slow") ∧ givenAll "slow" start calls = [6, 7, 8, 9] ∧
      (calls.filterMap Call.emitted?).length = 10 ∧
      ((start.actAll calls).receive "slow").1 = none := by
    decide +kernel
  obtain ⟨hspares, hgiven, hemitted, hnone⟩ := hrun
  obtain ⟨-, s, -, -, -, -, -, hdone⟩ :=
    accounts_of_every_value 3 [.emit 99, .subscribe "other"] "slow" calls hspares
  obtain ⟨s', hs', htotal⟩ := hdone hnone
  rw [hgiven, hemitted] at htotal
  refine ⟨hspares, hgiven, s', ?_, htotal⟩
  simp only [start]
  exact hs'

end Emitter

end SecureGroup
