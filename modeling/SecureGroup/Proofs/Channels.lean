import SecureGroup.Channel

/-!
# What a listener of a channel finds

A listener that reads a channel finds a loss, the next value, or nothing (`Channel.receive_cases`).
Whatever was sent after the place up to which it has read is ahead of it (`Channel.Ahead`), in the
order in which it was sent (`Channel.unread`); what it reads next is the first of these values,
unless more of them were sent than the channel keeps.
-/

namespace SecureGroup.Channel

variable {α : Type} {c : Channel α} {cursor cursor' : Cursor} {a b : α} {rest : List α} {n : Nat}

/-! ## Values to come -/

/-- A value stands in a channel where a listener has not read yet. -/
def Ahead (c : Channel α) (cursor : Cursor) (a : α) : Prop :=
  ∃ n, cursor.next ≤ n ∧ c.sent[n]? = some a

theorem Ahead.send (h : c.Ahead cursor a) (b : α) : (c.send b).Ahead cursor a := by
  obtain ⟨n, hn, ha⟩ := h
  have hlt : n < c.sent.size := (Array.getElem?_eq_some_iff.1 ha).1
  refine ⟨n, hn, ?_⟩
  rw [Channel.send, Array.getElem?_push_lt hlt, ← ha, Array.getElem?_eq_getElem hlt]

theorem ahead_send (h : cursor.next ≤ c.sent.size) (a : α) : (c.send a).Ahead cursor a :=
  ⟨c.sent.size, h, Array.getElem?_push_size⟩

/-- What a listener finds: a loss, the next value, or nothing. -/
theorem receive_cases (c : Channel α) (cursor : Cursor) :
    (cursor.next < c.oldest ∧
      c.receive cursor = (.lost (c.oldest - cursor.next), ⟨c.oldest⟩)) ∨
    (∃ a, c.sent[cursor.next]? = some a ∧ c.receive cursor = (.value a, ⟨cursor.next + 1⟩)) ∨
    (c.sent.size ≤ cursor.next ∧ c.receive cursor = (.nothing, cursor)) := by
  unfold receive
  split
  · next hlost => exact Or.inl ⟨hlost, rfl⟩
  · split
    · next a ha => exact Or.inr (Or.inl ⟨a, ha, rfl⟩)
    · next hnone => exact Or.inr (Or.inr ⟨Array.getElem?_eq_none_iff.1 hnone, rfl⟩)

theorem not_ahead_of_nothing (h : c.receive cursor = (.nothing, cursor')) : ¬ c.Ahead cursor a := by
  rcases c.receive_cases cursor with ⟨-, hr⟩ | ⟨b, -, hr⟩ | ⟨hsize, -⟩
  · rw [hr] at h
    cases h
  · rw [hr] at h
    cases h
  · rintro ⟨n, hn, ha⟩
    have hlt : n < c.sent.size := (Array.getElem?_eq_some_iff.1 ha).1
    omega

/-- Whatever was ahead of a listener that finds a value is that value, or is ahead still. -/
theorem Ahead.of_value (ha : c.Ahead cursor a) (h : c.receive cursor = (.value b, cursor')) :
    a = b ∨ c.Ahead cursor' a := by
  rcases c.receive_cases cursor with ⟨-, hr⟩ | ⟨b', hb, hr⟩ | ⟨-, hr⟩
  · rw [hr] at h
    cases h
  · rw [hr] at h
    cases h
    obtain ⟨n, hn, ha⟩ := ha
    rcases Nat.eq_or_lt_of_le hn with rfl | hlt
    · exact Or.inl (Option.some.inj (ha.symm.trans hb))
    · exact Or.inr ⟨n, hlt, ha⟩
  · rw [hr] at h
    cases h

theorem le_receive (c : Channel α) (cursor : Cursor) : cursor.next ≤ (c.receive cursor).2.next := by
  rcases c.receive_cases cursor with ⟨hlost, hr⟩ | ⟨b, -, hr⟩ | ⟨-, hr⟩
  · rw [hr]
    exact Nat.le_of_lt hlost
  · rw [hr]
    exact Nat.le_succ _
  · exact Nat.le_of_eq (congrArg (·.2.next) hr).symm

theorem next_receive (h : cursor.next ≤ c.sent.size) :
    (c.receive cursor).2.next ≤ c.sent.size := by
  rcases c.receive_cases cursor with ⟨-, hr⟩ | ⟨b, hb, hr⟩ | ⟨-, hr⟩
  · rw [hr]
    exact Nat.sub_le _ _
  · rw [hr]
    exact (Array.getElem?_eq_some_iff.1 hb).1
  · rw [hr]
    exact h

/-! ## All that a listener has not read -/

/-- What was sent after the place up to which a listener has read. -/
def unread (c : Channel α) (cursor : Cursor) : List α := c.sent.toList.drop cursor.next

/-- A value that is sent comes to every listener once, after all others. -/
theorem unread_send (h : cursor.next ≤ c.sent.size) (a : α) :
    (c.send a).unread cursor = c.unread cursor ++ [a] := by
  have hlength : cursor.next ≤ c.sent.toList.length := by rwa [Array.length_toList]
  unfold unread send
  rw [Array.toList_push, List.drop_append_of_le_length hlength]

theorem unread_listen (c : Channel α) : c.unread c.listen = [] := by
  unfold unread listen
  rw [← Array.length_toList, List.drop_length]

theorem length_unread (c : Channel α) (cursor : Cursor) :
    (c.unread cursor).length = c.sent.size - cursor.next := by
  rw [unread, List.length_drop, Array.length_toList]

/-- A listener that is too far behind learns how much it lost, and goes on with what is left. -/
theorem receive_of_behind (h : c.capacity < (c.unread cursor).length) :
    ∃ cursor', c.receive cursor = (.lost ((c.unread cursor).length - c.capacity), cursor') ∧
      c.unread cursor' = (c.unread cursor).drop ((c.unread cursor).length - c.capacity) := by
  rw [length_unread] at h ⊢
  have holdest : c.oldest = cursor.next + (c.sent.size - cursor.next - c.capacity) := by
    unfold oldest
    omega
  have hlost : cursor.next < c.oldest := by omega
  refine ⟨⟨c.oldest⟩, ?_, ?_⟩
  · rw [receive, if_pos hlost, holdest, Nat.add_sub_cancel_left]
  · rw [unread, unread, List.drop_drop, holdest]

/-- A listener that is not too far behind reads the values one after the other. -/
theorem receive_of_unread (h : c.unread cursor = a :: rest) (room : rest.length < c.capacity) :
    ∃ cursor', c.receive cursor = (.value a, cursor') ∧ c.unread cursor' = rest := by
  have hlength := c.length_unread cursor
  rw [h, List.length_cons] at hlength
  have hkept : ¬ cursor.next < c.oldest := by
    unfold oldest
    omega
  have hnext : c.sent[cursor.next]? = some a := by
    have hhead := congrArg List.head? h
    rwa [unread, List.head?_drop, Array.getElem?_toList] at hhead
  refine ⟨⟨cursor.next + 1⟩, ?_, ?_⟩
  · rw [receive, if_neg hkept, hnext]
  · have htail := congrArg List.tail h
    rwa [unread, List.tail_drop] at htail

theorem receive_of_read (h : c.unread cursor = []) : c.receive cursor = (.nothing, cursor) := by
  have hsize : c.sent.size ≤ cursor.next := by
    have hlength := c.length_unread cursor
    rw [h, List.length_nil] at hlength
    omega
  have hkept : ¬ cursor.next < c.oldest := by
    unfold oldest
    omega
  rw [receive, if_neg hkept, Array.getElem?_eq_none hsize]

end SecureGroup.Channel
