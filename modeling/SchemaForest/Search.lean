/-!
# Search in sorted lists

`frontLength` finds where the elements of a predicate end by halving the interval that is left.  If
the predicate holds of a front part and of nothing behind it, the answer is the length of that part.
-/

namespace SchemaForest.Search

variable {α : Type}

/-- The halving loop on the places from `low` up to `high`. -/
def halve (p : α → Bool) (a : Array α) (low high : Nat) (bound : high ≤ a.size) : Nat :=
  if h : low < high then
    have inside : (low + high) / 2 < a.size := by omega
    if p a[(low + high) / 2] then halve p a ((low + high) / 2 + 1) high bound
    else halve p a low ((low + high) / 2) (by omega)
  else low
termination_by high - low
decreasing_by all_goals omega

/-- The number of elements in front for which the predicate holds. -/
def frontLength (p : α → Bool) (a : Array α) : Nat := halve p a 0 a.size (Nat.le_refl _)

end SchemaForest.Search
