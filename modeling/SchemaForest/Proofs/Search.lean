import SchemaForest.Search

/-!
# The halving search

The interval of the loop always holds the place where the elements of the predicate end.  So the
search finds that place (`frontLength_eq`), and read off a sorted list it is the first element
behind them (`getElem?_frontLength`).
-/

namespace SchemaForest.Search

variable {α : Type}

/-- The loop ends at `k` if the predicate holds before `k`, and not from `k` on, and `k` lies in the
    interval that is left. -/
theorem halve_eq {p : α → Bool} {a : Array α} {k : Nat}
    (front : ∀ i (h : i < a.size), i < k → p a[i] = true)
    (back : ∀ i (h : i < a.size), k ≤ i → p a[i] = false) :
    ∀ (low high : Nat) (bound : high ≤ a.size), low ≤ k → k ≤ high →
      halve p a low high bound = k := by
  intro low high bound
  induction low, high, bound using halve.induct p a with
  | case1 low high bound h inside hp ih =>
    intro hlow hhigh
    have hk : (low + high) / 2 < k := by
      rcases Nat.lt_or_ge ((low + high) / 2) k with hk | hk
      · exact hk
      · rw [back _ inside hk] at hp
        exact absurd hp Bool.false_ne_true
    rw [halve, dif_pos h, if_pos hp]
    exact ih hk hhigh
  | case2 low high bound h inside hp ih =>
    intro hlow hhigh
    have hk : k ≤ (low + high) / 2 := by
      rcases Nat.lt_or_ge ((low + high) / 2) k with hk | hk
      · exact absurd (front _ inside hk) hp
      · exact hk
    rw [halve, dif_pos h, if_neg hp]
    exact ih hlow hk
  | case3 low high bound h =>
    intro hlow hhigh
    rw [halve, dif_neg h]
    omega

theorem frontLength_eq {p : α → Bool} {a : Array α} {k : Nat} (hk : k ≤ a.size)
    (front : ∀ i (h : i < a.size), i < k → p a[i] = true)
    (back : ∀ i (h : i < a.size), k ≤ i → p a[i] = false) : frontLength p a = k :=
  halve_eq front back 0 a.size (Nat.le_refl _) (Nat.zero_le _) hk

/-- In a list where nothing behind a failing element passes, the search leads to the first element
    that fails. -/
theorem getElem?_frontLength {p : α → Bool} {xs ys : List α} (front : ∀ x ∈ xs, p x = true)
    (back : ∀ y ∈ ys, p y = false) :
    (xs ++ ys).toArray[frontLength p (xs ++ ys).toArray]? = ys[0]? := by
  have hk : frontLength p (xs ++ ys).toArray = xs.length := by
    refine frontLength_eq (by simp) (fun i h hi => ?_) (fun i h hi => ?_)
    · rw [List.getElem_toArray, List.getElem_append_left hi]
      exact front _ (List.getElem_mem hi)
    · rw [List.getElem_toArray, List.getElem_append_right hi]
      exact back _ (List.getElem_mem _)
  rw [hk, List.getElem?_toArray, List.getElem?_append_right (Nat.le_refl _), Nat.sub_self]

end SchemaForest.Search
