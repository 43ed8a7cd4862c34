/-!
# Tables

A table holds one value under each of some keys; a key keeps its place when its value is replaced.
Main statements: a key has the value that was put last (`get?_put_self`, `get?_put_of_ne`), putting
the value that is there changes nothing (`put_of_get?`), and a row of the table is the value under
its key (`get?_eq_some_iff`).
-/

namespace SecureGroup

/-- Values under keys, in the order in which the keys were first put. -/
structure Table (κ α : Type) where
  rows : List (κ × α)
  nodup_keys : (rows.map Prod.fst).Nodup
deriving DecidableEq

namespace Table

variable {κ α : Type}

/-! ## Algorithm -/

def empty : Table κ α := ⟨[], List.nodup_nil⟩

def size (t : Table κ α) : Nat := t.rows.length

def keys (t : Table κ α) : List κ := t.rows.map Prod.fst

def values (t : Table κ α) : List α := t.rows.map Prod.snd

variable [DecidableEq κ]

def find? (k : κ) : List (κ × α) → Option α
  | [] => none
  | (key, a) :: rest => if key = k then some a else find? k rest

def replace (k : κ) (a : α) : List (κ × α) → List (κ × α)
  | [] => [(k, a)]
  | (key, old) :: rest => if key = k then (key, a) :: rest else (key, old) :: replace k a rest

theorem mem_keys_replace {k l : κ} {a : α} {rows : List (κ × α)} :
    l ∈ (replace k a rows).map Prod.fst ↔ l = k ∨ l ∈ rows.map Prod.fst := by
  induction rows with
  | nil => simp [replace]
  | cons row rest ih =>
    simp only [replace]
    split
    · next h => subst h; simp
    · rw [List.map_cons, List.mem_cons, ih, List.map_cons, List.mem_cons, or_left_comm]

theorem nodup_keys_replace (k : κ) (a : α) {rows : List (κ × α)}
    (h : (rows.map Prod.fst).Nodup) : ((replace k a rows).map Prod.fst).Nodup := by
  induction rows with
  | nil => simp [replace]
  | cons row rest ih =>
    rw [List.map_cons, List.nodup_cons] at h
    simp only [replace]
    split
    · rw [List.map_cons, List.nodup_cons]
      exact h
    · next hne =>
      rw [List.map_cons, List.nodup_cons, mem_keys_replace]
      exact ⟨fun hm => hm.elim hne h.1, ih h.2⟩

def get? (t : Table κ α) (k : κ) : Option α := find? k t.rows

def has (t : Table κ α) (k : κ) : Bool := (t.get? k).isSome

def put (t : Table κ α) (k : κ) (a : α) : Table κ α :=
  ⟨replace k a t.rows, nodup_keys_replace k a t.nodup_keys⟩

def erase (t : Table κ α) (k : κ) : Table κ α :=
  ⟨t.rows.filter (·.1 ≠ k), t.nodup_keys.sublist (List.filter_sublist.map _)⟩

omit [DecidableEq κ] in
def map {β : Type} (f : α → β) (t : Table κ α) : Table κ β :=
  ⟨t.rows.map fun (k, a) => (k, f a), by
    have h : (Prod.fst ∘ fun row : κ × α => (row.1, f row.2)) = Prod.fst := rfl
    rw [List.map_map]
    exact h ▸ t.nodup_keys⟩

/-! ## Lemmas -/

theorem find?_eq_some_iff {k : κ} {a : α} {rows : List (κ × α)}
    (h : (rows.map Prod.fst).Nodup) : find? k rows = some a ↔ (k, a) ∈ rows := by
  induction rows with
  | nil => simp [find?]
  | cons row rest ih =>
    obtain ⟨key, old⟩ := row
    rw [List.map_cons, List.nodup_cons] at h
    simp only [find?]
    split
    · next hk =>
      subst hk
      have hnot : (key, a) ∉ rest := fun hm => h.1 (List.mem_map.2 ⟨_, hm, rfl⟩)
      simp [hnot, eq_comm]
    · next hk => simp [ih h.2, Ne.symm hk]

/-- A row of a table is the value under its key. -/
theorem get?_eq_some_iff {t : Table κ α} {k : κ} {a : α} : t.get? k = some a ↔ (k, a) ∈ t.rows :=
  find?_eq_some_iff t.nodup_keys

theorem has_iff_mem_keys {t : Table κ α} {k : κ} : t.has k = true ↔ k ∈ t.keys := by
  rw [has, Option.isSome_iff_exists, keys, List.mem_map]
  constructor
  · rintro ⟨a, h⟩
    exact ⟨(k, a), get?_eq_some_iff.1 h, rfl⟩
  · rintro ⟨⟨_, a⟩, h, rfl⟩
    exact ⟨a, get?_eq_some_iff.2 h⟩

@[simp]
theorem get?_empty (k : κ) : (empty : Table κ α).get? k = none := rfl

theorem find?_replace (k l : κ) (a : α) (rows : List (κ × α)) :
    find? l (replace k a rows) = if l = k then some a else find? l rows := by
  induction rows with
  | nil => simp [replace, find?, eq_comm]
  | cons row rest ih =>
    by_cases hk : row.1 = k
    · by_cases hl : l = k
      · simp [replace, find?, hk, hl]
      · simp [replace, find?, hk, hl, Ne.symm hl]
    · by_cases hl : l = k
      · subst hl
        simp [replace, find?, hk, ih]
      · simp [replace, find?, hk, ih, hl]

@[simp]
theorem get?_put_self (t : Table κ α) (k : κ) (a : α) : (t.put k a).get? k = some a := by
  rw [get?, put, find?_replace, if_pos rfl]

theorem get?_put_of_ne (t : Table κ α) {k l : κ} (a : α) (h : l ≠ k) :
    (t.put k a).get? l = t.get? l := by
  rw [get?, put, find?_replace, if_neg h, get?]

theorem get?_erase_of_ne (t : Table κ α) {k l : κ} (h : l ≠ k) : (t.erase k).get? l = t.get? l := by
  refine Option.ext fun a => ?_
  rw [get?_eq_some_iff, get?_eq_some_iff, erase]
  simp [h]

theorem replace_of_find? (k : κ) (a : α) (rows : List (κ × α)) (h : find? k rows = some a) :
    replace k a rows = rows := by
  induction rows with
  | nil => simp [find?] at h
  | cons row rest ih =>
    obtain ⟨key, old⟩ := row
    by_cases hk : key = k
    · simp [find?, hk] at h
      simp [replace, hk, h]
    · simp only [find?, hk, if_false] at h
      simp [replace, hk, ih h]

theorem put_of_get? (t : Table κ α) (k : κ) (a : α) (h : t.get? k = some a) : t.put k a = t := by
  simp only [put, replace_of_find? k a t.rows h]

end Table

end SecureGroup
