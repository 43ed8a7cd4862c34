import Mathlib.Data.List.Nodup
import SecureGroup.Group

/-!
# Orders

Keys, hashes and pairs are shown in increasing order.  Under a total order a list is determined by
its elements once it is sorted (`TotalOrder.mergeSort_eq_iff`), so two indexes can be compared by
what they show.
-/

namespace SecureGroup

structure TotalOrder {α : Type} (le : α → α → Bool) : Prop where
  total : ∀ a b, le a b = true ∨ le b a = true
  trans : ∀ {a b c}, le a b = true → le b c = true → le a c = true
  antisymm : ∀ {a b}, le a b = true → le b a = true → a = b

namespace TotalOrder

variable {α β : Type} {le : α → α → Bool} {l l' : List α}

theorem pairwise_mergeSort (h : TotalOrder le) (l : List α) :
    (l.mergeSort le).Pairwise fun a b => le a b = true := by
  apply List.pairwise_mergeSort
  · intro a b c hab hbc
    exact h.trans hab hbc
  · intro a b
    exact Bool.or_eq_true_iff.2 (h.total a b)

theorem mergeSort_eq_iff (h : TotalOrder le) : l.mergeSort le = l'.mergeSort le ↔ l.Perm l' := by
  constructor
  · intro he
    have hl := (List.mergeSort_perm l le).symm
    rw [he] at hl
    exact hl.trans (List.mergeSort_perm l' le)
  · intro hp
    have hsorted := ((List.mergeSort_perm l le).trans hp).trans (List.mergeSort_perm l' le).symm
    exact hsorted.eq_of_pairwise (fun _ _ _ _ => h.antisymm) (h.pairwise_mergeSort l)
      (h.pairwise_mergeSort l')

/-- Values are ordered by something that tells them apart. -/
theorem comap (h : TotalOrder le) {f : β → α} (hf : ∀ a b, f a = f b → a = b) :
    TotalOrder fun a b => le (f a) (f b) where
  total a b := h.total (f a) (f b)
  trans := h.trans
  antisymm hab hba := hf _ _ (h.antisymm hab hba)

/-- Pairs are ordered by their first parts, and by their second parts when these are the same. -/
theorem lex [DecidableEq α] {le' : β → β → Bool} (h : TotalOrder le) (h' : TotalOrder le') :
    TotalOrder fun (a b : α × β) => if a.1 = b.1 then le' a.2 b.2 else le a.1 b.1 where
  total a b := by
    by_cases he : a.1 = b.1
    · simpa [he] using h'.total a.2 b.2
    · simpa [he, Ne.symm he] using h.total a.1 b.1
  trans {a b c} hab hbc := by
    by_cases he : a.1 = b.1
    · by_cases hf : b.1 = c.1
      · simp only [he, hf, if_true] at hab hbc ⊢
        exact h'.trans hab hbc
      · simp only [he, hf, if_false] at hbc ⊢
        exact hbc
    · by_cases hf : b.1 = c.1
      · simp only [← hf, he, if_false] at hab ⊢
        exact hab
      · simp only [he, hf, if_false] at hab hbc
        -- the first parts cannot come back to where they were
        have hne : a.1 ≠ c.1 := by
          intro hg
          rw [← hg] at hbc
          exact he (h.antisymm hab hbc)
        simp only [hne, if_false]
        exact h.trans hab hbc
  antisymm {a b} hab hba := by
    by_cases he : a.1 = b.1
    · simp only [he, if_true] at hab hba
      exact Prod.ext he (h'.antisymm hab hba)
    · simp only [he, Ne.symm he, if_false] at hab hba
      exact absurd (h.antisymm hab hba) he

end TotalOrder

/-- A list holds all values with a property, in increasing order and each of them once. -/
structure Lists {α : Type} (le : α → α → Bool) (P : α → Prop) (l : List α) : Prop where
  sorted : l.Pairwise fun a b => le a b = true
  nodup : l.Nodup
  mem_iff : ∀ a, a ∈ l ↔ P a

section

variable {α : Type} {le : α → α → Bool} {l l' : List α} {P : α → Prop}

theorem TotalOrder.lists_mergeSort (h : TotalOrder le) (nodup : l.Nodup)
    (mem_iff : ∀ a, a ∈ l ↔ P a) : Lists le P (l.mergeSort le) where
  sorted := h.pairwise_mergeSort l
  nodup := List.nodup_mergeSort.2 nodup
  mem_iff a := by rw [List.mem_mergeSort, mem_iff]

/-- There is one list of the values with a property. -/
theorem Lists.unique (h : TotalOrder le) (hl : Lists le P l) (hl' : Lists le P l') : l = l' := by
  have hperm : l.Perm l' := by
    rw [List.perm_ext_iff_of_nodup hl.nodup hl'.nodup]
    intro a
    rw [hl.mem_iff, hl'.mem_iff]
  exact hperm.eq_of_pairwise (fun _ _ _ _ => h.antisymm) hl.sorted hl'.sorted

end

/-! ## What is ordered -/

theorem Octets.totalOrder_le (n : Nat) : TotalOrder (Octets.le : Octets n → Octets n → Bool) where
  total := Octets.le_total
  trans := Octets.le_trans
  antisymm := Octets.le_antisymm

theorem totalOrder_word_le : TotalOrder fun a b : UInt64 => decide (a ≤ b) where
  total a b := by simpa using UInt64.le_total a b
  trans hab hbc := by simpa using UInt64.le_trans (by simpa using hab) (by simpa using hbc)
  antisymm hab hba := UInt64.le_antisymm (by simpa using hab) (by simpa using hba)

theorem EntryHash.totalOrder_le : TotalOrder EntryHash.le :=
  (Octets.totalOrder_le 32).comap fun a b h => by
    cases a
    cases b
    exact congrArg EntryHash.mk h

theorem PublicKey.totalOrder_le : TotalOrder PublicKey.le :=
  (Octets.totalOrder_le 32).comap fun _ _ => PublicKey.ext

theorem MemberDevice.totalOrder_le : TotalOrder MemberDevice.le :=
  (PublicKey.totalOrder_le.lex PublicKey.totalOrder_le).comap
    (f := fun p : MemberDevice => (p.member, p.device)) fun _ _ h =>
      MemberDevice.ext (congrArg Prod.fst h) (congrArg Prod.snd h)

theorem PublicKey.sort_eq_iff {ks ks' : List PublicKey} :
    PublicKey.sort ks = PublicKey.sort ks' ↔ ks.Perm ks' :=
  PublicKey.totalOrder_le.mergeSort_eq_iff

theorem PublicKey.lists_sort {ks : List PublicKey} {P : PublicKey → Prop} (nodup : ks.Nodup)
    (mem_iff : ∀ k, k ∈ ks ↔ P k) : Lists PublicKey.le P (PublicKey.sort ks) :=
  PublicKey.totalOrder_le.lists_mergeSort nodup mem_iff

end SecureGroup
