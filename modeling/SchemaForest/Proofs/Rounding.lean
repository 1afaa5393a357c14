import Mathlib.Data.Nat.Dist
import Mathlib.Order.Monotone.Basic
import SchemaForest.Number.Double

/-!
# Rounding to the nearest number

`Double.nearestRank` cuts a quotient to fifty-three binary digits and puts exponent and significand
together to a rank.  This is the rank that the rule asks for (`Double.IsNearest`): no other rank has a
value nearer to the ratio, and of two that are equally near it is the even one.

1. **Ranks and values.**  A rank with the exponent `e` and the significand `m` has the value
   `m * 2 ^ e`, also where the significand is one too long and carries into the exponent
   (`units_of_fits`).  So one rank further up is one unit in the last place more, and values grow with
   ranks (`strictMono_units`).
2. **The crux** (`isNearest_of_between`): a ratio lies between the values of two neighbours, and all
   other ranks are farther away than one of these.  It is enough to look at two distances.
3. **The quotient** tells the neighbours and its remainder the distances (`isNearest_nearestRank`).

Infinity takes part with the value `2 ^ 1024`, the first that is out of range; a ratio that is nearer
to that than to the greatest finite number is rounded to infinity, and so is the one in the middle.
-/

namespace SchemaForest.Double

/-! ## The rule -/

/-- How far the value of a rank is from a ratio, measured in the least positive number over `den`. -/
def distance (num den rank : Nat) : Nat := Nat.dist (units rank * den) (num * unitsPerOne)

/-- The rank of the number nearest to a ratio; of two equally near numbers the one of even rank. -/
structure IsNearest (num den rank : Nat) : Prop where
  le : rank ≤ infinityRank
  nearest : ∀ q ≤ infinityRank, distance num den rank ≤ distance num den q
  even : ∀ q ≤ infinityRank, q ≠ rank → distance num den q = distance num den rank → rank % 2 = 0

/-! ## Ranks and values -/

/-- An exponent and a significand that make a rank: the significand has fifty-three digits, or fewer
    if the exponent is the least one, or it is the first number that has more. -/
structure Fits (e m : Nat) : Prop where
  least : e = 0 ∨ 1 <<< 52 ≤ m
  most : m ≤ 1 <<< 53

theorem units_of_fits {e m : Nat} (h : Fits e m) : units (e <<< 52 + m) = m * 2 ^ e := by
  obtain ⟨hleast, hmost⟩ := h
  simp only [units, binade, Nat.shiftLeft_eq, Nat.one_mul] at hleast hmost ⊢
  split
  · rename_i hlt
    have he : e = 0 := by omega
    subst he
    omega
  · rename_i hge
    rcases Nat.lt_or_ge m (2 ^ 53) with hm | hm
    · -- The leading digit of the significand is the one that the rank leaves out.
      have hbinade : (e * 2 ^ 52 + m) / 2 ^ 52 - 1 = e := by omega
      have hdigits : 2 ^ 52 + (e * 2 ^ 52 + m) % 2 ^ 52 = m := by omega
      rw [hbinade, hdigits]
    · -- A carry: half the significand with the next exponent.
      have hm : m = 2 ^ 53 := by omega
      have hbinade : (e * 2 ^ 52 + m) / 2 ^ 52 - 1 = e + 1 := by omega
      have hdigits : 2 ^ 52 + (e * 2 ^ 52 + m) % 2 ^ 52 = 2 ^ 52 := by omega
      rw [hbinade, hdigits, hm, Nat.pow_succ]
      omega

theorem exists_fits (rank : Nat) :
    ∃ e m, rank = e <<< 52 + m ∧ Fits e m ∧ Fits e (m + 1) := by
  refine ⟨rank / 2 ^ 52 - 1, rank - (rank / 2 ^ 52 - 1) * 2 ^ 52, ?_, ⟨?_, ?_⟩, ⟨?_, ?_⟩⟩ <;>
    simp only [Nat.shiftLeft_eq, Nat.one_mul] <;> omega

theorem units_lt_succ (rank : Nat) : units rank < units (rank + 1) := by
  obtain ⟨e, m, rfl, hfits, hnext⟩ := exists_fits rank
  rw [Nat.add_assoc, units_of_fits hfits, units_of_fits hnext]
  exact Nat.mul_lt_mul_of_pos_right (Nat.lt_succ_self m) (Nat.two_pow_pos e)

theorem strictMono_units : StrictMono units := strictMono_nat_of_lt_succ units_lt_succ

/-! ## Two neighbours -/

section Neighbours

variable {num den p r : Nat}

/-- A ratio between the values of two neighbours is rounded to the nearer of them, or in the middle to
    the even one. -/
theorem isNearest_of_between (hden : 0 < den) (hlow : units p * den ≤ num * unitsPerOne)
    (hhigh : num * unitsPerOne < units (p + 1) * den) (hle : r ≤ infinityRank)
    (hr : r = p ∧ distance num den p ≤ distance num den (p + 1) ∨
      r = p + 1 ∧ distance num den (p + 1) ≤ distance num den p)
    (htie : distance num den p = distance num den (p + 1) → r % 2 = 0) : IsNearest num den r := by
  -- Whatever is not one of the two is farther away than the one on its side.
  have hbelow : ∀ q < p, units q * den < units p * den := fun q hq =>
    Nat.mul_lt_mul_of_pos_right (strictMono_units hq) hden
  have habove : ∀ q, p + 1 < q → units (p + 1) * den < units q * den := fun q hq =>
    Nat.mul_lt_mul_of_pos_right (strictMono_units hq) hden
  have hcases : ∀ q, q = p ∨ q = p + 1 ∨
      distance num den p < distance num den q ∨ distance num den (p + 1) < distance num den q := by
    intro q
    rcases Nat.lt_trichotomy q p with hq | hq | hq
    · have := hbelow q hq
      right; right; left
      simp only [distance, Nat.dist]
      omega
    · exact Or.inl hq
    · rcases Nat.lt_or_ge (p + 1) q with hq' | hq'
      · have := habove q hq'
        right; right; right
        simp only [distance, Nat.dist]
        omega
      · right; left
        omega
  refine ⟨hle, fun q _ => ?_, fun q _ hne heq => htie ?_⟩
  · rcases hr with ⟨rfl, hr⟩ | ⟨rfl, hr⟩ <;> rcases hcases q with rfl | rfl | hq | hq <;> omega
  · rcases hr with ⟨rfl, hr⟩ | ⟨rfl, hr⟩ <;> rcases hcases q with rfl | rfl | hq | hq <;> omega

/-- A ratio from the value of infinity on is rounded to infinity. -/
theorem isNearest_infinity (hden : 0 < den)
    (hlow : units infinityRank * den ≤ num * unitsPerOne) : IsNearest num den infinityRank := by
  have hfar : ∀ q < infinityRank, distance num den infinityRank < distance num den q := by
    intro q hq
    have := Nat.mul_lt_mul_of_pos_right (strictMono_units hq) hden
    simp only [distance, Nat.dist]
    omega
  refine ⟨Nat.le_refl _, fun q hq => ?_, fun q hq hne heq => ?_⟩
  · rcases Nat.lt_or_eq_of_le hq with hq | rfl
    · exact Nat.le_of_lt (hfar q hq)
    · exact Nat.le_refl _
  · have := hfar q (Nat.lt_of_le_of_ne hq hne)
    omega

/-- The rule leaves no choice. -/
theorem IsNearest.unique (hden : 0 < den) (hp : IsNearest num den p) (hr : IsNearest num den r) :
    p = r := by
  -- Two even ranks have an odd one between them, and that would be nearer than both.
  have hlt : ∀ {p r : Nat}, IsNearest num den p → IsNearest num den r → ¬ p < r := by
    intro p r hp hr hlt
    have hdist : distance num den p = distance num den r :=
      Nat.le_antisymm (hp.nearest r hr.le) (hr.nearest p hp.le)
    have hpeven := hp.even r hr.le (Nat.ne_of_gt hlt) hdist.symm
    have hreven := hr.even p hp.le (Nat.ne_of_lt hlt) hdist
    have hmiddle : p + 1 < r := by omega
    have hnear := hp.nearest (p + 1) (Nat.le_trans (Nat.le_of_lt hmiddle) hr.le)
    have hfirst := Nat.mul_lt_mul_of_pos_right (strictMono_units (Nat.lt_add_one p)) hden
    have hsecond := Nat.mul_lt_mul_of_pos_right (strictMono_units hmiddle) hden
    simp only [distance, Nat.dist] at hdist hnear
    omega
  rcases Nat.lt_trichotomy p r with h | h | h
  · exact absurd h (hlt hp hr)
  · exact h
  · exact absurd h (hlt hr hp)

end Neighbours

/-! ## The quotient -/

/-- The quotient is rounded by the remainder: down below the half, up above it, and to the even one of
    the two at the half. -/
theorem roundDiv_cases (n d : Nat) :
    (2 * (n % d) < d ∧ roundDiv n d = n / d) ∨ (d < 2 * (n % d) ∧ roundDiv n d = n / d + 1) ∨
      2 * (n % d) = d ∧ roundDiv n d = n / d + n / d % 2 := by
  simp only [roundDiv]
  rcases Nat.lt_trichotomy (2 * (n % d)) d with h | h | h
  · exact Or.inl ⟨h, if_pos h⟩
  · refine Or.inr (Or.inr ⟨h, ?_⟩)
    rw [if_neg (by omega), if_neg (by omega)]
  · refine Or.inr (Or.inl ⟨h, ?_⟩)
    rw [if_neg (by omega), if_pos h]

/-- Cut behind its first fifty-three digits a quotient is a significand, and so is the next number. -/
theorem fits_shifted (q : Nat) :
    Fits (q.log2 - 52) (q / 2 ^ (q.log2 - 52)) ∧ Fits (q.log2 - 52) (q / 2 ^ (q.log2 - 52) + 1) := by
  have hlt : q / 2 ^ (q.log2 - 52) < 2 ^ 53 := by
    rw [Nat.div_lt_iff_lt_mul (Nat.two_pow_pos _), ← Nat.pow_add]
    have hq : q < 2 ^ (q.log2 + 1) := Nat.lt_log2_self
    exact Nat.lt_of_lt_of_le hq (Nat.pow_le_pow_right (by omega) (by omega))
  have hge : q.log2 - 52 = 0 ∨ 2 ^ 52 ≤ q / 2 ^ (q.log2 - 52) := by
    rcases Nat.eq_zero_or_pos (q.log2 - 52) with hzero | hpos
    · exact Or.inl hzero
    · have hne : q ≠ 0 := by
        rintro rfl
        simp at hpos
      refine Or.inr ?_
      rw [Nat.le_div_iff_mul_le (Nat.two_pow_pos _), ← Nat.pow_add,
        show 52 + (q.log2 - 52) = q.log2 by omega]
      exact Nat.log2_self_le hne
  refine ⟨⟨?_, ?_⟩, ⟨?_, ?_⟩⟩ <;> simp only [Nat.shiftLeft_eq, Nat.one_mul] <;> omega

/-- Rounding a ratio gives the nearest number. -/
theorem isNearest_nearestRank (num : Nat) {den : Nat} (hden : 0 < den) :
    IsNearest num den (nearestRank num den) := by
  rw [nearestRank]
  generalize he : (num * unitsPerOne / den).log2 - 52 = e
  obtain ⟨hfits, hnext⟩ := fits_shifted (num * unitsPerOne / den)
  rw [he, Nat.div_div_eq_div_mul] at hfits hnext
  rw [Nat.shiftLeft_eq den e]
  -- In units of the last place the ratio lies between the quotient and the next number.
  have hstep : 0 < den * 2 ^ e := Nat.mul_pos hden (Nat.two_pow_pos e)
  have hdivision := Nat.div_add_mod (num * unitsPerOne) (den * 2 ^ e)
  have hmod := Nat.mod_lt (num * unitsPerOne) hstep
  have hround := roundDiv_cases (num * unitsPerOne) (den * 2 ^ e)
  generalize num * unitsPerOne / (den * 2 ^ e) = m at *
  generalize num * unitsPerOne % (den * 2 ^ e) = rest at *
  have hlow : units (e <<< 52 + m) * den = den * 2 ^ e * m := by
    rw [units_of_fits hfits]
    ac_rfl
  have hhigh : units (e <<< 52 + m + 1) * den = den * 2 ^ e * m + den * 2 ^ e := by
    rw [Nat.add_assoc, units_of_fits hnext, ← Nat.mul_succ]
    ac_rfl
  have heven : (e <<< 52) % 2 = 0 := by
    rw [Nat.shiftLeft_eq]
    omega
  generalize den * 2 ^ e = step at *
  generalize roundDiv (num * unitsPerOne) step = rounded at *
  rcases Nat.lt_or_ge infinityRank (e <<< 52 + rounded) with hover | hfinite
  · rw [Nat.min_eq_right (Nat.le_of_lt hover)]
    refine isNearest_infinity hden ?_
    have hp : infinityRank ≤ e <<< 52 + m := by omega
    have := Nat.mul_le_mul_right den (strictMono_units.monotone hp)
    omega
  · rw [Nat.min_eq_left hfinite]
    refine isNearest_of_between (p := e <<< 52 + m) hden (by omega) (by omega) hfinite ?_ ?_ <;>
      simp only [distance, Nat.dist, hlow, hhigh] <;> omega

/-- The number of a natural is positive or zero, and it is the nearest one. -/
theorem exists_ofNat_eq (n : Nat) :
    ∃ rank : Fin (infinityRank + 1), ofNat n = .signed false rank ∧
      ∀ q, IsNearest n 1 q ↔ q = rank := by
  have hnearest := isNearest_nearestRank n Nat.one_pos
  refine ⟨⟨nearestRank n 1, Nat.lt_succ_of_le (nearestRank_le n 1)⟩, rfl, fun q => ⟨fun h => ?_, ?_⟩⟩
  · exact h.unique Nat.one_pos hnearest
  · rintro rfl
    exact hnearest

end SchemaForest.Double
