/-!
# Sets of code points

A set of code points as closed ranges.  Main statement: a code point is in the set when it is in
one of the ranges (`contains_iff`).
-/

namespace SecureGroup.Text

/-- Closed ranges of code points. -/
abbrev CodePoints := Array (Nat × Nat)

namespace CodePoints

def contains (ranges : CodePoints) (c : Char) : Bool :=
  ranges.any fun (first, last) => first ≤ c.toNat && c.toNat ≤ last

theorem contains_iff (ranges : CodePoints) (c : Char) :
    ranges.contains c ↔ ∃ r ∈ ranges, r.1 ≤ c.toNat ∧ c.toNat ≤ r.2 := by
  rw [contains, Array.any_eq_true']
  simp only [Bool.and_eq_true, decide_eq_true_eq]

end CodePoints

end SecureGroup.Text
