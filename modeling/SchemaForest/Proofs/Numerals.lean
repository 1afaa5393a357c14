import Mathlib.Data.List.Forall2
import Mathlib.Data.Nat.Digits.Defs
import Mathlib.Tactic.IntervalCases
import SchemaForest.Number.Literal
import SchemaForest.Proofs.Rounding

/-!
# Numerals behind a mark

An annotation may give an integer in base sixteen, eight or two behind `0x`, `0o` or `0b`.  What counts
as such an integer is said here without the reader: a numeral (`NumberText.Denotes`) is a run of digits
and nothing else, and each digit counts the base times as much as the one behind it.

1. **Digits** (`digitValue?_eq_some_iff`) and **numerals** (`denotes_iff`): the reader multiplies and
   adds from the front, and that is the sum of the digits by their weights.
2. **Behind a mark** (`natural?_eq_some_iff`) the reader takes a numeral, but it also takes one with a
   plus sign in front, and it takes none from `2 ^ 128` on.
3. **The number** is the one nearest to the integer (`value_of_marked`).

By the rules of numeric literals there would be no sign there and no bound (`value_off_the_rule`).
-/

namespace SchemaForest.NumberText

/-! ## Digits and numerals -/

/-- The character is the digit of a value in a base, as a small or a capital letter from ten on. -/
structure IsDigit (base : Nat) (c : Char) (v : Nat) : Prop where
  lt : v < base
  char : c = Nat.digitChar v ∨ c = (Nat.digitChar v).toUpper

/-- The text is a numeral of the base and denotes `n`. -/
def Denotes (base : Nat) (ds : List Char) (n : Nat) : Prop :=
  ds ≠ [] ∧ ∃ vs, List.Forall₂ (IsDigit base) ds vs ∧ n = Nat.ofDigits base vs.reverse

theorem digitValue?_eq_some_iff {c : Char} {v : Nat} :
    Decimal.digitValue? c = some v ↔ IsDigit 16 c v := by
  constructor
  · intro h
    have hc : Char.ofNat c.toNat = c := Char.ofNat_toNat c
    have hle : ∀ a b : Char, a ≤ b ↔ a.toNat ≤ b.toNat := fun _ _ => Iff.rfl
    simp only [Decimal.digitValue?, hle] at h
    generalize c.toNat = n at h hc
    -- In each range there are only a few characters.
    split_ifs at h with hdecimal hsmall hcapital
    · obtain ⟨hlow, hhigh⟩ : 48 ≤ n ∧ n ≤ 57 := hdecimal
      interval_cases n <;> cases h <;> subst hc <;> exact ⟨by decide, by decide⟩
    · obtain ⟨hlow, hhigh⟩ : 97 ≤ n ∧ n ≤ 102 := hsmall
      interval_cases n <;> cases h <;> subst hc <;> exact ⟨by decide, by decide⟩
    · obtain ⟨hlow, hhigh⟩ : 65 ≤ n ∧ n ≤ 70 := hcapital
      interval_cases n <;> cases h <;> subst hc <;> exact ⟨by decide, by decide⟩
  · rintro ⟨hlt, hchar⟩
    interval_cases v <;> rcases hchar with rfl | rfl <;> decide

section Numerals

variable {base : Nat}

theorem isDigitOf_iff (hbase : base ≤ 16) {c : Char} :
    Decimal.isDigitOf base c = true ↔ ∃ v, IsDigit base c v := by
  rw [Decimal.isDigitOf, Option.any_eq_true]
  constructor
  · rintro ⟨v, hv, hlt⟩
    exact ⟨v, of_decide_eq_true hlt, (digitValue?_eq_some_iff.1 hv).char⟩
  · rintro ⟨v, hlt, hchar⟩
    exact ⟨v, digitValue?_eq_some_iff.2 ⟨Nat.lt_of_lt_of_le hlt hbase, hchar⟩, decide_eq_true hlt⟩

/-- A text of digits has one list of values, and only a text of digits has. -/
theorem exists_values_iff (hbase : base ≤ 16) {ds : List Char} :
    (∃ vs, List.Forall₂ (IsDigit base) ds vs) ↔ ds.all (Decimal.isDigitOf base) = true := by
  induction ds with
  | nil => exact ⟨fun _ => rfl, fun _ => ⟨[], .nil⟩⟩
  | cons c ds ih =>
    rw [List.all_cons, Bool.and_eq_true, ← ih, isDigitOf_iff hbase]
    constructor
    · rintro ⟨vs, h⟩
      obtain ⟨v, vs, hv, hvs, rfl⟩ := List.forall₂_cons_left_iff.1 h
      exact ⟨⟨v, hv⟩, vs, hvs⟩
    · rintro ⟨⟨v, hv⟩, vs, hvs⟩
      exact ⟨v :: vs, .cons hv hvs⟩

/-- Multiplying and adding from the front gives the sum of the digits by their weights. -/
theorem ofDigits_eq (hbase : base ≤ 16) {ds : List Char} {vs : List Nat}
    (h : List.Forall₂ (IsDigit base) ds vs) :
    Decimal.ofDigits base ds = Nat.ofDigits base vs.reverse := by
  -- What was read before counts once more for every digit that follows.
  have hfold : ∀ front, ds.foldl (fun n c => n * base + (Decimal.digitValue? c).getD 0) front =
      front * base ^ vs.length + Nat.ofDigits base vs.reverse := by
    induction h with
    | nil => intro front; simp
    | @cons c v ds vs hv _ ih =>
      intro front
      have hvalue : Decimal.digitValue? c = some v :=
        digitValue?_eq_some_iff.2 ⟨Nat.lt_of_lt_of_le hv.lt hbase, hv.char⟩
      rw [List.foldl_cons, ih, hvalue, Option.getD_some, List.reverse_cons, Nat.ofDigits_append,
        Nat.ofDigits_singleton, List.length_reverse, List.length_cons, Nat.pow_succ]
      ring
  rw [Decimal.ofDigits, hfold, Nat.zero_mul, Nat.zero_add]

/-- A numeral is a text of digits, and it denotes what reading it gives. -/
theorem denotes_iff (hbase : base ≤ 16) {ds : List Char} {n : Nat} :
    Denotes base ds n ↔
      (ds ≠ [] ∧ ds.all (Decimal.isDigitOf base) = true) ∧ Decimal.ofDigits base ds = n := by
  rw [Denotes, ← exists_values_iff hbase]
  constructor
  · rintro ⟨hne, vs, hvs, rfl⟩
    exact ⟨⟨hne, vs, hvs⟩, ofDigits_eq hbase hvs⟩
  · rintro ⟨⟨hne, vs, hvs⟩, rfl⟩
    exact ⟨hne, vs, hvs, ofDigits_eq hbase hvs⟩

/-- No numeral starts with a sign. -/
theorem not_denotes_sign (hbase : base ≤ 16) (ds : List Char) (n : Nat) :
    ¬ Denotes base ('+' :: ds) n := by
  rw [denotes_iff hbase, List.all_cons, Bool.and_eq_true]
  rintro ⟨⟨-, hsign, -⟩, -⟩
  cases hsign

/-! ## Behind a mark -/

/-- The reader takes a numeral below its bound, and it does not mind a plus sign in front. -/
theorem natural?_eq_some_iff (hbase : base ≤ 16) {s : List Char} {n : Nat} :
    natural? base s = some n ↔
      ∃ ds, (s = ds ∨ s = '+' :: ds) ∧ Denotes base ds n ∧ n < 2 ^ 128 := by
  -- What is left without the sign is read if it is a numeral below the bound.
  have hread : ∀ ds, (if ds ≠ [] ∧ ds.all (Decimal.isDigitOf base) = true then
      if Decimal.ofDigits base ds < integerBound then some (Decimal.ofDigits base ds) else none
      else none) = some n ↔ Denotes base ds n ∧ n < 2 ^ 128 := by
    intro ds
    have hbound : integerBound = 2 ^ 128 := rfl
    rw [denotes_iff hbase, hbound]
    split
    · rename_i hdigits
      constructor
      · intro h
        obtain ⟨hlt, h⟩ := Option.ite_none_right_eq_some.1 h
        obtain rfl := Option.some.inj h
        exact ⟨⟨hdigits, rfl⟩, hlt⟩
      · rintro ⟨⟨-, rfl⟩, hlt⟩
        rw [if_pos hlt]
    · rename_i hdigits
      exact ⟨fun h => (nomatch h), fun h => absurd h.1.1 hdigits⟩
  by_cases hsign : ∃ r, s = '+' :: r
  · obtain ⟨r, rfl⟩ := hsign
    refine (hread r).trans ⟨fun h => ⟨r, Or.inr rfl, h⟩, ?_⟩
    rintro ⟨ds, rfl | hds, h⟩
    · exact absurd h.1 (not_denotes_sign hbase r n)
    · obtain rfl := (List.cons.inj hds).2
      exact h
  · rw [natural?]
    · refine (hread s).trans ⟨fun h => ⟨s, Or.inl rfl, h⟩, ?_⟩
      rintro ⟨ds, rfl | rfl, h⟩
      · exact h
      · exact absurd ⟨ds, rfl⟩ hsign
    · exact fun r hr => hsign ⟨r, hr⟩

end Numerals

/-- The letters that mark a base behind a zero. -/
def marks : List (Char × Nat) := [('x', 16), ('X', 16), ('o', 8), ('O', 8), ('b', 2), ('B', 2)]

/-- The text starts with the mark of a base. -/
def Marked (t : List Char) (base : Nat) (rest : List Char) : Prop :=
  ∃ mark, (mark, base) ∈ marks ∧ t = '0' :: mark :: rest

theorem Marked.base_le {t rest : List Char} {base : Nat} (h : Marked t base rest) : base ≤ 16 := by
  obtain ⟨mark, hmark, -⟩ := h
  have hall : ∀ m ∈ marks, m.2 ≤ 16 := by decide
  exact hall _ hmark

theorem radix?_eq_some_iff {t rest : List Char} {base : Nat} :
    radix? t = some (base, rest) ↔ Marked t base rest := by
  constructor
  · intro h
    unfold radix? at h
    split at h
    · split_ifs at h with hx ho hb <;> cases h
      · rcases hx with rfl | rfl <;> exact ⟨_, by decide, rfl⟩
      · rcases ho with rfl | rfl <;> exact ⟨_, by decide, rfl⟩
      · rcases hb with rfl | rfl <;> exact ⟨_, by decide, rfl⟩
    · cases h
  · rintro ⟨mark, hmark, rfl⟩
    simp only [marks, List.mem_cons, List.not_mem_nil, or_false, Prod.mk.injEq] at hmark
    rcases hmark with ⟨rfl, rfl⟩ | ⟨rfl, rfl⟩ | ⟨rfl, rfl⟩ | ⟨rfl, rfl⟩ | ⟨rfl, rfl⟩ | ⟨rfl, rfl⟩ <;>
      rfl

theorem radix?_eq_none_iff {t : List Char} :
    radix? t = none ↔ ∀ base rest, ¬ Marked t base rest := by
  rw [Option.eq_none_iff_forall_ne_some, Prod.forall]
  exact forall₂_congr fun base rest => not_congr radix?_eq_some_iff

/-- The number of a text with a mark is that of the integer behind the mark, if there is one. -/
theorem value_eq_of_marked {s : String} {base : Nat} {rest : List Char}
    (h : Marked (Text.trim s.toList) base rest) :
    value s = ((natural? base rest).map Double.ofNat).getD .nan := by
  have hradix := radix?_eq_some_iff.2 h
  obtain ⟨mark, -, ht⟩ := h
  rw [ht] at hradix
  have hword : '0' :: mark :: rest ≠ "Infinity".toList ∧ '0' :: mark :: rest ≠ "+Infinity".toList ∧
      '0' :: mark :: rest ≠ "-Infinity".toList :=
    ⟨fun heq => (nomatch heq), fun heq => (nomatch heq), fun heq => (nomatch heq)⟩
  rw [value, ht, ofTrimmed, if_neg (List.cons_ne_nil _ _), if_neg (not_or.2 ⟨hword.1, hword.2.1⟩),
    if_neg hword.2.2, hradix]

/-- A text with a mark stands for a number if and only if a numeral of that base below `2 ^ 128` stands
    behind the mark, with or without a plus sign, and nothing else; and then for the number nearest to
    the integer that the numeral denotes, in the middle of two for the even one. -/
theorem value_of_marked {s : String} {base : Nat} {rest : List Char}
    (h : Marked (Text.trim s.toList) base rest) :
    (value s ≠ .nan ↔
      ∃ ds n, (rest = ds ∨ rest = '+' :: ds) ∧ Denotes base ds n ∧ n < 2 ^ 128) ∧
    ∀ ds n, (rest = ds ∨ rest = '+' :: ds) → Denotes base ds n → n < 2 ^ 128 →
      ∃ rank, value s = .signed false rank ∧ ∀ q, Double.IsNearest n 1 q ↔ q = rank := by
  have hvalue := value_eq_of_marked h
  have hread : ∀ n, natural? base rest = some n ↔ _ := fun n => natural?_eq_some_iff h.base_le
  constructor
  · cases hn : natural? base rest with
    | some n =>
      obtain ⟨ds, hds⟩ := (hread n).1 hn
      obtain ⟨rank, hrank, -⟩ := Double.exists_ofNat_eq n
      rw [hvalue, hn, Option.map_some, Option.getD_some, hrank]
      exact ⟨fun _ => ⟨ds, n, hds⟩, fun _ heq => nomatch heq⟩
    | none =>
      rw [hvalue, hn]
      refine ⟨fun hne => absurd rfl hne, ?_⟩
      rintro ⟨ds, n, hds⟩
      cases hn.symm.trans ((hread n).2 ⟨ds, hds⟩)
  · intro ds n hrest hdenotes hlt
    rw [hvalue, (hread n).2 ⟨ds, hrest, hdenotes, hlt⟩]
    exact Double.exists_ofNat_eq n

/-- An odd numerator in the middle of two numbers, with blanks around and a sign. -/
theorem value_of_marked_tie :
    Marked (Text.trim "\t0X+20000000000001 ".toList) 16 "+20000000000001".toList ∧
      ∃ rank, value "\t0X+20000000000001 " = .signed false rank ∧
        Double.IsNearest (2 ^ 53 + 1) 1 rank := by
  have hmarked : Marked (Text.trim "\t0X+20000000000001 ".toList) 16 "+20000000000001".toList :=
    ⟨'X', by decide, by decide⟩
  obtain ⟨-, hvalue⟩ := value_of_marked hmarked
  obtain ⟨rank, hrank, hnearest⟩ := hvalue "20000000000001".toList (2 ^ 53 + 1) (Or.inr rfl)
    ((denotes_iff (Nat.le_refl 16)).2 ⟨by decide, by decide⟩) (by decide)
  exact ⟨hmarked, rank, hrank, (hnearest rank).2 rfl⟩

/-- Where the reader leaves the rules of numeric literals: a sign behind the mark makes no numeral but is
    taken, and the numeral of `2 ^ 128` is not. -/
theorem value_off_the_rule :
    (Marked (Text.trim "0x+10".toList) 16 "+10".toList ∧ (¬ ∃ n, Denotes 16 "+10".toList n) ∧
      value "0x+10" = Double.ofNat 16) ∧
    Marked (Text.trim "0x100000000000000000000000000000000".toList) 16
        "100000000000000000000000000000000".toList ∧
      Denotes 16 "100000000000000000000000000000000".toList (2 ^ 128) ∧
      value "0x100000000000000000000000000000000" = .nan := by
  refine ⟨⟨⟨'x', by decide, by decide⟩, ?_, by decide +kernel⟩, ⟨'x', by decide, by decide⟩, ?_,
    by decide +kernel⟩
  · rintro ⟨n, h⟩
    exact not_denotes_sign (Nat.le_refl 16) "10".toList n h
  · exact (denotes_iff (Nat.le_refl 16)).2 ⟨by decide, by decide⟩

end SchemaForest.NumberText
