import SchemaForest.Filter.Value
import SchemaForest.Proofs.Lexemes
import SchemaForest.Proofs.Stepping

/-!
# What filters print

A filter's output becomes a document by way of its text.  What is printed for strings and integers is
read back as it was, whatever stands behind it; what is printed for a floating point number is at least
the spelling of a number.

1. **Strings.**  Escaping goes by characters and so does reading, so one character is enough
   (`bare_stringBody_escapeChar`).
2. **Digits.**  The digits of a natural are the whole part of a number (`isWhole_toDigits`).  The reader
   holds on to digits as long as they fit sixty-four bits, which is what an integer has to do.
3. **Floating point numbers.**  The crux is that digits never begin with a zero unless they are one:
   the shortest digits of a number are zero only for zero itself (`Decimal.exponent_shortest`), and then
   no further zero is put behind them.
-/

namespace SchemaForest

open Fallible
open Decimal (IsDigits IsExponent signs span_digits)

namespace Json

open SchemaForest.Filter (Value)

/-! ## Strings -/

/-- The escape of a control character has its number for digits. -/
theorem isHex_control : ∀ n < 32, IsHex ('0' :: '0' :: hexPair n) ∧
    Decimal.ofDigits 16 ('0' :: '0' :: hexPair n) = n := by
  intro n hn
  interval_cases n <;> exact ⟨⟨rfl, List.all_eq_true.1 (by decide)⟩, rfl⟩

theorem bare_stringBody_short {c x : Char} (h : shortEscape? c = some x) (t : List Char) :
    bare (stringBody ('\\' :: c :: t)) = (bare (stringBody t)).map fun (xs, r) => (x :: xs, r) := by
  have hc : c ≠ 'u' := ne_u_of_mem_shortEscapes (isSome_shortEscape?_iff.1 (by rw [h]; rfl))
  rw [bare_stringBody_cons, if_neg (by decide), if_pos rfl, bare_escape_cons, if_neg hc, h]
  rfl

theorem bare_stringBody_control {c : Char} (h : c.toNat < 32) (t : List Char) :
    bare (stringBody ('\\' :: 'u' :: '0' :: '0' :: (hexPair c.toNat ++ t))) =
      (bare (stringBody t)).map fun (xs, r) => (c :: xs, r) := by
  obtain ⟨hhex, hvalue⟩ := isHex_control c.toNat h
  have hunit : bare (hexUnit ('0' :: '0' :: (hexPair c.toNat ++ t))) = .ok (c.toNat, t) :=
    bare_hexUnit_eq_ok_iff.2 ⟨_, hhex, hvalue.symm, rfl⟩
  have hchar : unitChar c.toNat t = .ok (c, t) := by
    rw [unitChar, if_neg (by omega), if_neg (by omega), Char.ofNat_toNat]
  rw [bare_stringBody_cons, if_neg (by decide), if_pos rfl, bare_escape_cons, if_pos rfl, hunit]
  change unitChar c.toNat t >>= _ = _
  rw [hchar]
  rfl

/-- A character stands behind a short escape, behind one with its number, or for itself. -/
theorem escapeChar_cases (c : Char) :
    (∃ x, shortEscape? x = some c ∧ Value.escapeChar c = ['\\', x]) ∨
    (c.toNat < 32 ∧ Value.escapeChar c = '\\' :: 'u' :: '0' :: '0' :: hexPair c.toNat) ∨
    IsPlain c ∧ Value.escapeChar c = [c] := by
  unfold Value.escapeChar
  split
  · exact .inl ⟨'"', rfl, rfl⟩
  · exact .inl ⟨'\\', rfl, rfl⟩
  · exact .inl ⟨'n', rfl, rfl⟩
  · exact .inl ⟨'r', rfl, rfl⟩
  · exact .inl ⟨'t', rfl, rfl⟩
  · rename_i hquote hback _ _ _
    split
    · rename_i hcontrol
      exact .inr (.inl ⟨hcontrol, rfl⟩)
    · rename_i hcontrol
      exact .inr (.inr ⟨⟨hquote, hback, Nat.le_of_not_lt hcontrol⟩, rfl⟩)

/-- What stands for a character is read as that character. -/
theorem bare_stringBody_escapeChar (c : Char) (t : List Char) :
    bare (stringBody (Value.escapeChar c ++ t)) =
      (bare (stringBody t)).map fun (xs, r) => (c :: xs, r) := by
  obtain ⟨x, hshort, heq⟩ | ⟨hcontrol, heq⟩ | ⟨⟨hquote, hback, hplain⟩, heq⟩ := escapeChar_cases c
  · rw [heq]
    exact bare_stringBody_short hshort t
  · rw [heq]
    exact bare_stringBody_control hcontrol t
  · rw [heq, List.singleton_append, bare_stringBody_cons, if_neg hquote, if_neg hback,
      if_neg (Nat.not_lt_of_le hplain)]

/-- A string is read back as it was. -/
theorem bare_stringBody_escaped (cs t : List Char) :
    bare (stringBody (cs.flatMap Value.escapeChar ++ '"' :: t)) = .ok (cs, t) := by
  induction cs with
  | nil => rw [List.flatMap_nil, List.nil_append, bare_stringBody_cons, if_pos rfl]
  | cons c cs ih =>
    rw [List.flatMap_cons, List.append_assoc, bare_stringBody_escapeChar, ih]
    rfl

/-! ## Digits -/

theorem isDigits_toDigits (n : Nat) : IsDigits (Nat.toDigits 10 n) :=
  ⟨Nat.toDigits_ne_nil, fun _ hc => Nat.isDigit_of_mem_toDigits (by decide) (Nat.le_refl 10) hc⟩

/-- Digits begin with a zero only if they are one. -/
theorem head_toDigits {n : Nat} (h : (Nat.toDigits 10 n).head? = some '0') : n = 0 := by
  induction n using Nat.strongRecOn with
  | ind n ih =>
    by_cases hn : n < 10
    · rw [Nat.toDigits_of_lt_base hn, List.head?_cons, Option.some.injEq] at h
      exact Nat.digitChar_eq_zero.1 h
    · rw [Nat.toDigits_of_base_le (by decide) (Nat.le_of_not_lt hn),
        List.head?_append_of_ne_nil _ Nat.toDigits_ne_nil] at h
      have hdiv := ih (n / 10) (by omega) h
      omega

theorem isWhole_toDigits (n : Nat) : IsWhole (Nat.toDigits 10 n) := by
  refine ⟨isDigits_toDigits n, fun hhead => ?_⟩
  rw [head_toDigits hhead]
  rfl

theorem takeDigits_cons {m : Nat} {c : Char} {r : List Char} :
    takeDigits m (c :: r) = if m * 10 + (c.toNat - 48) < significandBound
      then takeDigits (m * 10 + (c.toNat - 48)) r else (m, r.length + 1) := rfl

theorem takeDigits_append {m : Nat} {ds ds' : List Char} (h : (takeDigits m ds).2 = 0) :
    takeDigits m (ds ++ ds') = takeDigits (takeDigits m ds).1 ds' := by
  induction ds generalizing m with
  | nil => rfl
  | cons c r ih =>
    rw [takeDigits_cons] at h
    rw [List.cons_append, takeDigits_cons, takeDigits_cons]
    split_ifs at h ⊢
    exact ih h

/-- The reader takes all digits of a number that fits. -/
theorem takeDigits_toDigits {n : Nat} (h : n < significandBound) :
    takeDigits 0 (Nat.toDigits 10 n) = (n, 0) := by
  have hlast : ∀ m d, d < 10 → m * 10 + d < significandBound →
      takeDigits m [d.digitChar] = (m * 10 + d, 0) := by
    intro m d hd hfits
    rw [takeDigits_cons, Nat.toNat_digitChar_sub_48_of_lt_ten hd, if_pos hfits]
    rfl
  induction n using Nat.strongRecOn with
  | ind n ih =>
    by_cases hn : n < 10
    · rw [Nat.toDigits_of_lt_base hn, hlast 0 n hn (by omega), Nat.zero_mul, Nat.zero_add]
    · have hfront := ih (n / 10) (by omega) (by omega)
      have hvalue : n / 10 * 10 + n % 10 = n := by omega
      have hback := hlast (n / 10) (n % 10) (Nat.mod_lt n (by decide)) (hvalue.symm ▸ h)
      rw [hvalue] at hback
      rw [Nat.toDigits_of_base_le (by decide) (Nat.le_of_not_lt hn),
        takeDigits_append (by rw [hfront]), hfront, hback]

theorem startsExponent_of_stops {t : List Char} (h : Stops t) : startsExponent t = false := by
  cases t with
  | nil => rfl
  | cons c r => simpa [startsExponent] using (h c rfl).2.2

/-- A natural that fits is read back as it was. -/
theorem bare_unsigned_toDigits {n : Nat} (h : n < significandBound) {t : List Char} (ht : Stops t) :
    bare (unsigned (Nat.toDigits 10 n ++ t)) = .ok (.inl n, t) := by
  obtain ⟨htake, hdrop⟩ := span_digits (isDigits_toDigits n).digits ht.digit
  have hwhole := isWhole_toDigits n
  rw [bare_unsigned, htake, hdrop, if_neg hwhole.ne_nil, if_neg fun h => h.2 (hwhole.plain h.1),
    takeDigits_toDigits h, numberBehindWhole_of_head fun c hc => (ht c hc).2.1,
    startsExponent_of_stops ht, if_pos ⟨rfl, rfl⟩]

end Json

/-! ## Floating point numbers -/

namespace Decimal

theorem readsBack_of_onGrid {tie : Tie} {rank : Nat} {e : Int} {d : Decimal}
    (h : onGrid tie rank e = some d) : readsBack rank d = true := by
  unfold onGrid at h
  dsimp only at h
  split at h
  · cases h
  · obtain rfl := Option.some.inj h
    assumption
  · obtain rfl := Option.some.inj h
    assumption
  · split at h
    · obtain rfl := Option.some.inj h
      assumption
    · obtain rfl := Option.some.inj h
      assumption
    · split at h
      · obtain rfl := Option.some.inj h
        assumption
      · obtain rfl := Option.some.inj h
        split <;> assumption

theorem shortest_cases (tie : Tie) {rank : Nat} (h : rank ≠ 0) :
    shortest tie rank = ⟨0, 0⟩ ∨ readsBack rank (shortest tie rank) = true := by
  rw [shortest, if_neg h]
  dsimp only
  cases hfound : (List.range 20).findSome? fun (k : Nat) =>
      onGrid tie rank (ceilingExponent rank - k) with
  | none => exact .inl rfl
  | some d =>
    obtain ⟨k, -, hgrid⟩ := List.exists_of_findSome?_eq_some hfound
    exact .inr (readsBack_of_onGrid hgrid)

/-- Shortest digits that are zero stand for zero, and no exponent is put behind them. -/
theorem exponent_shortest {tie : Tie} {rank : Nat} (h : (shortest tie rank).digits = 0) :
    (shortest tie rank).exponent = 0 := by
  by_cases hrank : rank = 0
  · rw [shortest, if_pos hrank]
  · rcases shortest_cases tie hrank with hzero | hback
    · rw [hzero]
    · have hnearest : (shortest tie rank).nearestRank = 0 := by
        rw [nearestRank]
        exact if_pos (.inl h)
      rw [readsBack, hnearest, beq_iff_eq] at hback
      exact absurd hback.symm hrank

end Decimal

namespace Json

open Decimal (IsDigits)

theorem isDigits_append {ds ds' : List Char} (h : IsDigits ds) (h' : ∀ c ∈ ds', c.isDigit = true) :
    IsDigits (ds ++ ds') :=
  ⟨List.append_ne_nil_of_left_ne_nil h.ne_nil _, fun c hc =>
    (List.mem_append.1 hc).elim (h.digits c) (h' c)⟩

theorem isDigits_take {ds : List Char} (h : IsDigits ds) {k : Nat} (hk : k ≠ 0) :
    IsDigits (ds.take k) := by
  refine ⟨?_, fun c hc => h.digits c (List.mem_of_mem_take hc)⟩
  rw [Ne, List.take_eq_nil_iff]
  exact not_or_intro hk h.ne_nil

theorem isDigits_drop {ds : List Char} (h : IsDigits ds) {k : Nat} (hk : k < ds.length) :
    IsDigits (ds.drop k) := by
  refine ⟨?_, fun c hc => h.digits c (List.mem_of_mem_drop hc)⟩
  rw [Ne, List.drop_eq_nil_iff]
  exact Nat.not_le_of_lt hk

theorem isDigit_replicate (n : Nat) : ∀ c ∈ List.replicate n '0', c.isDigit = true :=
  fun _ hc => List.eq_of_mem_replicate hc ▸ rfl

theorem isWhole_singleton {c : Char} (h : c.isDigit = true) : IsWhole [c] :=
  ⟨⟨List.cons_ne_nil _ _, fun _ hc => List.mem_singleton.1 hc ▸ h⟩, fun _ => rfl⟩

theorem isUnsigned_point {ds fs : List Char} (hds : IsWhole ds) (hfs : IsDigits fs) :
    IsUnsigned (ds ++ '.' :: fs) := by
  have hnumber := IsUnsigned.fraction hds hfs .none
  rwa [List.append_nil] at hnumber

/-- Digits with a point among or behind them are a number. -/
theorem isUnsigned_setPositional {d : Decimal} (h : d.digits = 0 → d.exponent = 0) :
    IsUnsigned (Decimal.setPositional true d) := by
  have hdigits := isDigits_toDigits d.digits
  have hzero : (Nat.toDigits 10 d.digits).head? = some '0' → d.exponent = 0 :=
    fun hhead => h (head_toDigits hhead)
  have hplain := (isWhole_toDigits d.digits).plain
  unfold Decimal.setPositional
  dsimp only
  generalize Nat.toDigits 10 d.digits = ds at hdigits hzero hplain ⊢
  split
  · -- Zeros come behind digits that begin with none.
    have hwhole : IsWhole (ds ++ List.replicate d.exponent.toNat '0') := by
      refine ⟨isDigits_append hdigits (isDigit_replicate _), fun hhead => ?_⟩
      rw [List.head?_append_of_ne_nil _ hdigits.ne_nil] at hhead
      rw [hzero hhead, Int.toNat_zero, List.replicate_zero, List.append_nil, hplain hhead]
    exact isUnsigned_point hwhole (isWhole_singleton rfl).toIsDigits
  · rename_i hexponent
    split
    · have hfraction : IsDigits (List.replicate ((-d.exponent).toNat - ds.length) '0' ++ ds) :=
        ⟨List.append_ne_nil_of_right_ne_nil _ hdigits.ne_nil, fun c hc =>
          (List.mem_append.1 hc).elim (isDigit_replicate _ c) (hdigits.digits c)⟩
      exact isUnsigned_point (isWhole_singleton rfl) hfraction
    · rename_i hplaces
      have hfront : ds.length - (-d.exponent).toNat ≠ 0 := by omega
      have hback : ds.length - (-d.exponent).toNat < ds.length := by omega
      generalize ds.length - (-d.exponent).toNat = k at hfront hback
      -- A zero in front would be all digits, and then there is no exponent.
      have hwhole : IsWhole (ds.take k) := by
        refine ⟨isDigits_take hdigits hfront, fun hhead => ?_⟩
        rw [List.head?_take, if_neg hfront] at hhead
        exact absurd (hzero hhead) (by omega)
      exact isUnsigned_point hwhole (isDigits_drop hdigits hback)

/-- One digit, perhaps a point and more of them, and an exponent are a number. -/
theorem isUnsigned_setScientific (plusSign : Bool) (d : Decimal) :
    IsUnsigned (Decimal.setScientific plusSign d) := by
  unfold Decimal.setScientific
  dsimp only
  generalize d.exponent + ((Nat.toDigits 10 d.digits).length : Int) - 1 = e
  obtain ⟨c, ds, hds⟩ := List.exists_cons_of_ne_nil (isDigits_toDigits d.digits).ne_nil
  have hdigits := isDigits_toDigits d.digits
  rw [hds] at hdigits ⊢
  have hc : IsWhole [c] := isWhole_singleton (hdigits.digits c List.mem_cons_self)
  have hsign : (if e < 0 then ['-'] else if plusSign then ['+'] else []) ∈ signs := by
    split_ifs <;> decide
  have hexponent : IsExponent ('e' :: ((if e < 0 then ['-'] else if plusSign then ['+'] else []) ++
      Nat.toDigits 10 e.natAbs)) := .some (by decide) hsign (isDigits_toDigits _)
  generalize (if e < 0 then ['-'] else if plusSign then ['+'] else []) = sign at hexponent ⊢
  cases ds with
  | nil =>
    have hnumber := IsUnsigned.whole hc hexponent
    simpa using hnumber
  | cons c' ds =>
    have hfraction : IsDigits (c' :: ds) :=
      ⟨List.cons_ne_nil _ _, fun x hx => hdigits.digits x (List.mem_cons_of_mem c hx)⟩
    have hnumber := IsUnsigned.fraction hc hfraction hexponent
    simpa using hnumber

/-- What is printed for a floating point number is a number, or a word if it is not finite. -/
theorem floatText_cases (x : Double) :
    (∃ n, IsUnsigned n ∧ (floatText x = n ∨ floatText x = '-' :: n)) ∨
      floatText x = ['n', 'u', 'l', 'l'] := by
  unfold floatText
  split
  · rename_i hfinite
    cases x with
    | nan => cases hfinite
    | signed negative rank =>
      have hrank : rank.val ≠ infinityRank := by simpa [Double.isFinite] using hfinite
      rw [Decimal.Layout.write]
      dsimp only
      rw [if_neg hrank]
      have hnumber : ∀ e : Int, IsUnsigned (if Decimal.withExponent.positional e
          then Decimal.setPositional true (Decimal.shortest .even rank.val)
          else Decimal.setScientific true (Decimal.shortest .even rank.val)) := by
        intro e
        split
        · exact isUnsigned_setPositional Decimal.exponent_shortest
        · exact isUnsigned_setScientific true _
      cases negative with
      | true => exact .inl ⟨_, hnumber _, .inr rfl⟩
      | false => exact .inl ⟨_, hnumber _, .inl rfl⟩
  · exact .inr rfl

theorem spells_floatText (x : Double) : Spells .value (floatText x) := by
  obtain ⟨n, hn, heq | heq⟩ | heq := floatText_cases x <;> rw [heq]
  · exact .positive hn
  · exact .negative hn
  · exact .word (by decide)

theorem exists_cons_floatText (x : Double) : ∃ c r, floatText x = c :: r ∧ OpensScalar c := by
  obtain ⟨n, hn, heq | heq⟩ | heq := floatText_cases x
  · obtain ⟨c, r, rfl, hc⟩ := hn.exists_cons
    exact ⟨c, r, heq, opensScalar_of_isDigit hc⟩
  · exact ⟨'-', n, heq, rfl, by decide, by decide⟩
  · exact ⟨'n', _, heq, rfl, by decide, by decide⟩

end Json

end SchemaForest
