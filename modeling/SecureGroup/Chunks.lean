/-!
# Cutting a list into chunks

`chunks n l` cuts `l` into pieces of `n` elements, the last one possibly shorter.  Main
statements: the pieces put together are the list (`flatten_chunks`), none is empty and none is
longer than `n` (`length_of_mem_chunks`).
-/

namespace SecureGroup

/-! ## Algorithm -/

/-- The pieces of `n` elements of a list; a single piece when `n` is zero. -/
def chunks {α : Type} (n : Nat) (l : List α) : List (List α) :=
  if _h : l = [] then []
  else if _hn : n = 0 then [l]
  else l.take n :: chunks n (l.drop n)
termination_by l.length
decreasing_by
  have : 0 < l.length := List.length_pos_iff.2 _h
  simp only [List.length_drop]
  omega

/-! ## Lemmas -/

/-- Cutting loses nothing and keeps the order. -/
theorem flatten_chunks {α : Type} (n : Nat) (l : List α) : (chunks n l).flatten = l := by
  fun_induction chunks n l with
  | case1 => rfl
  | case2 l h => simp
  | case3 l h hn ih => simp [ih]

/-- A piece holds at least one element, and at most `n` of them. -/
theorem length_of_mem_chunks {α : Type} {n : Nat} (hn : 0 < n) {l p : List α}
    (hp : p ∈ chunks n l) : 0 < p.length ∧ p.length ≤ n := by
  fun_induction chunks n l with
  | case1 => cases hp
  | case2 l h => omega
  | case3 l h hn' ih =>
    have : 0 < l.length := List.length_pos_iff.2 h
    rcases List.mem_cons.1 hp with rfl | hp
    · simp only [List.length_take]; omega
    · exact ih hp

end SecureGroup
