import SchemaForest.Proofs.Spelling

/-!
# What lexemes are read from

Reading a lexeme depends on the lexeme and on nothing behind it.  Each reader is shown two things:

1. where it succeeds, it has read what the grammar calls a lexeme (`leaves_of_unsigned`,
   `exists_isQuoted_of_stringBody`);
2. on a lexeme it gives one result, a value or an error, whatever stands behind (`unsigned_append`,
   `stringBody_append`).

The second is an induction along the grammar that does not quite follow it: an escaped pair of
surrogates is one character to the reader and two escapes to the grammar.  So what a reader leaves of a
string is only known to be the end of a string that is no longer (`StaysWithin`), and the induction is
on the length.
-/

namespace SchemaForest.Json

open Fallible
open Decimal (IsDigits IsExponent takeSign span_digits)

/-! ## Numbers -/

/-- The value of a number whose exponent has these digits. -/
def exponentValue (significand : Nat) (start : Int) (negative : Bool) (ds : List Char) :
    Except SyntaxError Double :=
  match ds with
  | [] => .error .endInValue
  | d :: _ =>
    if d.isDigit then
      let e := Decimal.ofDigits 10 (ds.takeWhile Char.isDigit)
      if exponentBound ≤ e then
        if significand ≠ 0 ∧ ¬negative then .error .numberOutOfRange else .ok .zero
      else scale (.ofNat significand) (if negative then start - e else start + e)
    else .error .badNumber

theorem bare_withExponent_cons (m : Nat) (k : Int) (c : Char) (r : List Char) :
    bare (withExponent m k (c :: r)) =
      if c = 'e' ∨ c = 'E' then (exponentValue m k (takeSign r).1 (takeSign r).2).map
        (·, (takeSign r).2.dropWhile Char.isDigit)
      else (scale (.ofNat m) k).map (·, c :: r) := by
  have hdigits : ∀ (negative : Bool) (ds : Rest r) (rest : Rest (c :: r)),
      rest.val = ds.val.dropWhile Char.isDigit →
      bare (match ds.val with
        | [] => .error .endInValue
        | d :: _ =>
          if d.isDigit then
            let e := Decimal.ofDigits 10 (ds.val.takeWhile Char.isDigit)
            if exponentBound ≤ e then
              if m ≠ 0 ∧ ¬negative then .error .numberOutOfRange else .ok (.zero, rest)
            else (scale (.ofNat m) (if negative then k - e else k + e)).map (·, rest)
          else .error .badNumber) =
      (exponentValue m k negative ds.val).map (·, ds.val.dropWhile Char.isDigit) := by
    intro negative ds rest hrest
    unfold exponentValue
    rw [← hrest]
    split
    · rfl
    · dsimp only
      split_ifs
      · rfl
      · rfl
      · cases scale (.ofNat m) _ <;> rfl
      · cases scale (.ofNat m) _ <;> rfl
      · rfl
  unfold withExponent
  dsimp only
  split
  · refine (hdigits _ _ _ rfl).trans ?_
    have hsign : ∀ p : Bool × Rest r, (p.1, p.2.val) = takeSign r →
        (exponentValue m k p.1 p.2.val).map (·, p.2.val.dropWhile Char.isDigit) =
          (exponentValue m k (takeSign r).1 (takeSign r).2).map
            (·, (takeSign r).2.dropWhile Char.isDigit) := by
      intro p hp
      rw [← hp]
    refine hsign _ ?_
    split
    · rfl
    · rfl
    · rename_i hminus hplus
      rw [takeSign_of_ne hminus hplus]
  · cases scale (.ofNat m) k <;> rfl

theorem exponentValue_eq_ok {m : Nat} {k : Int} {negative : Bool} {ds : List Char} {x : Double}
    (h : exponentValue m k negative ds = .ok x) : ds.takeWhile Char.isDigit ≠ [] := by
  cases ds with
  | nil => cases h
  | cons d r =>
    rw [exponentValue] at h
    split at h
    · rename_i hd
      rw [List.takeWhile_cons_of_pos hd]
      exact List.cons_ne_nil _ _
    · cases h

/-- The exponent ends where its digits end. -/
theorem exponentValue_append {ds t : List Char} (hds : IsDigits ds) (ht : Stops t) (m : Nat) (k : Int)
    (negative : Bool) : exponentValue m k negative (ds ++ t) = exponentValue m k negative ds := by
  obtain ⟨htake, -⟩ := span_digits hds.digits ht.digit
  have htake' : ds.takeWhile Char.isDigit = ds := List.takeWhile_eq_self_iff.2 hds.digits
  obtain ⟨d, r, rfl⟩ := List.exists_cons_of_ne_nil hds.ne_nil
  rw [List.cons_append] at htake ⊢
  rw [exponentValue, exponentValue, htake, htake']

theorem leaves_of_withExponent {m : Nat} {k : Int} {s t : List Char} {x : Double}
    (h : bare (withExponent m k s) = .ok (x, t)) : leaves (stepExponentPart s) = .ok t := by
  cases s with
  | nil =>
    rw [withExponent] at h
    cases hscale : scale (.ofNat m) k with
    | error e =>
      rw [hscale] at h
      cases h
    | ok y =>
      rw [hscale] at h
      exact congrArg Except.ok (Prod.mk.inj (Except.ok.inj h)).2
  | cons c r =>
    rw [bare_withExponent_cons] at h
    rw [leaves_stepExponentPart_cons]
    split_ifs at h ⊢
    · obtain ⟨y, hy, heq⟩ := map_eq_ok_iff.1 h
      rw [leaves_stepExponent, if_neg (exponentValue_eq_ok hy)]
      exact congrArg Except.ok (Prod.mk.inj heq).2
    · obtain ⟨y, -, heq⟩ := map_eq_ok_iff.1 h
      exact congrArg Except.ok (Prod.mk.inj heq).2

/-- The number that an exponent makes of its digits does not depend on what stands behind. -/
theorem withExponent_append {e : List Char} (he : IsExponent e) (m : Nat) (k : Int) :
    ∃ x : Except SyntaxError Double, ∀ t, Stops t →
      bare (withExponent m k (e ++ t)) = x.map (·, t) := by
  cases he with
  | none =>
    refine ⟨scale (.ofNat m) k, fun t ht => ?_⟩
    cases t with
    | nil =>
      rw [List.append_nil, withExponent]
      cases scale (.ofNat m) k <;> rfl
    | cons c r => rw [List.nil_append, bare_withExponent_cons, if_neg (ht c rfl).2.2]
  | @some letter sign ds hletter hsign hds =>
    have hletter : letter = 'e' ∨ letter = 'E' := by simpa using hletter
    refine ⟨exponentValue m k (sign == ['-']) ds, fun t ht => ?_⟩
    rw [List.cons_append, bare_withExponent_cons, if_pos hletter, List.append_assoc,
      takeSign_digits hsign hds, exponentValue_append hds ht, (span_digits hds.digits ht.digit).2]

/-- Whether an exponent begins here. -/
def startsExponent : List Char → Bool
  | c :: _ => c == 'e' || c == 'E'
  | [] => false

/-- The number behind its whole part, which has a significand and digits that it does not hold. -/
def numberBehindWhole (m dropped : Nat) : List Char → Except SyntaxError ((Nat ⊕ Double) × List Char)
  | '.' :: r =>
    if r.takeWhile Char.isDigit = [] then .error (if r = [] then .endInValue else .badNumber)
    else
      (bare (withExponent (takeDigits m (r.takeWhile Char.isDigit)).1
        ((dropped : Int) - (((r.takeWhile Char.isDigit).length : Int) -
          (takeDigits m (r.takeWhile Char.isDigit)).2))
        (r.dropWhile Char.isDigit))).map fun (x, t) => (.inr x, t)
  | s =>
    if dropped = 0 ∧ !startsExponent s then .ok (.inl m, s)
    else (bare (withExponent m dropped s)).map fun (x, t) => (.inr x, t)

theorem numberBehindWhole_of_head {s : List Char} (h : ∀ c ∈ s.head?, c ≠ '.') (m dropped : Nat) :
    numberBehindWhole m dropped s =
      if dropped = 0 ∧ !startsExponent s then .ok (.inl m, s)
      else (bare (withExponent m dropped s)).map fun (x, t) => (.inr x, t) := by
  unfold numberBehindWhole
  split
  · exact absurd rfl (h _ rfl)
  · rfl

theorem bare_behindWhole {s rest : List Char} (hhead : ∀ c ∈ rest.head?, c ≠ '.')
    (hrest : rest.length < s.length) (m dropped : Nat) :
    bare (if dropped = 0 ∧ !startsExponent rest then
        .ok ((.inl m : Nat ⊕ Double), (⟨rest, hrest⟩ : After s))
      else (withExponent m dropped rest).map fun (x, t) =>
        (.inr x, ⟨t.val, Nat.lt_of_le_of_lt t.property hrest⟩)) =
      numberBehindWhole m dropped rest := by
  rw [numberBehindWhole_of_head hhead]
  split
  · rfl
  · cases withExponent m dropped rest <;> rfl

theorem bare_unsigned (s : List Char) :
    bare (unsigned s) =
      if s.takeWhile Char.isDigit = [] then .error (if s = [] then .endInValue else .badNumber)
      else if (s.takeWhile Char.isDigit).head? = some '0' ∧
        (s.takeWhile Char.isDigit).length ≠ 1 then .error .badNumber
      else numberBehindWhole (takeDigits 0 (s.takeWhile Char.isDigit)).1
        (takeDigits 0 (s.takeWhile Char.isDigit)).2 (s.dropWhile Char.isDigit) := by
  rw [unsigned]
  dsimp only
  split
  · rfl
  · split
    · rfl
    · split
      · rename_i r hpoint
        have hrest : ∀ m k, numberBehindWhole m k (s.dropWhile Char.isDigit) =
          numberBehindWhole m k ('.' :: r) := fun m k => congrArg (numberBehindWhole m k) hpoint
        rw [hrest, numberBehindWhole]
        split
        · rfl
        · cases withExponent _ _ (r.dropWhile Char.isDigit) <;> rfl
      · -- The match on the rest carries proofs about it, so both are generalized together.
        rename_i hpoint
        generalize_proofs h₁ h₂ h₃
        revert h₁ h₂ h₃ hpoint
        generalize s.dropWhile Char.isDigit = rest
        intro hpoint h₁ h₂ h₃
        have hhead : ∀ c ∈ rest.head?, c ≠ '.' := by
          rintro c hc rfl
          obtain ⟨r, rfl⟩ := List.head?_eq_some_iff.1 hc
          exact hpoint r rfl
        cases rest with
        | nil => exact bare_behindWhole hhead h₁ _ _
        | cons c r => exact bare_behindWhole hhead h₁ _ _

theorem leaves_stepExponentPart_of_startsExponent {s : List Char} (h : startsExponent s = false) :
    leaves (stepExponentPart s) = .ok s := by
  cases s with
  | nil => rfl
  | cons c r =>
    rw [leaves_stepExponentPart_cons, if_neg]
    rintro (rfl | rfl) <;> cases h

theorem eq_nil_of_isExponent {e : List Char} (he : IsExponent e) (h : startsExponent e = false) :
    e = [] := by
  cases he with
  | none => rfl
  | some hletter hsign hds =>
    simp only [List.mem_cons, List.not_mem_nil, or_false] at hletter
    rcases hletter with rfl | rfl <;> cases h

theorem startsExponent_append {e t : List Char} (he : IsExponent e) (ht : Stops t) :
    startsExponent (e ++ t) = startsExponent e := by
  cases he with
  | none =>
    cases t with
    | nil => rfl
    | cons c r => simpa [startsExponent] using (ht c rfl).2.2
  | some hletter hsign hds => rfl

/-- A number that is read ends where a step over it ends. -/
theorem leaves_of_unsigned {s t : List Char} {n : Nat ⊕ Double}
    (h : bare (unsigned s) = .ok (n, t)) : leaves (stepUnsigned s) = .ok t := by
  rw [bare_unsigned] at h
  rw [leaves_stepUnsigned]
  split_ifs at h ⊢
  generalize s.dropWhile Char.isDigit = rest at h ⊢
  unfold numberBehindWhole at h
  split at h
  · rw [stepBehindWhole]
    split_ifs at h ⊢
    obtain ⟨⟨x, t'⟩, hx, heq⟩ := map_eq_ok_iff.1 h
    obtain ⟨-, rfl⟩ := Prod.mk.inj heq
    exact leaves_of_withExponent hx
  · rename_i hpoint
    have hhead : ∀ c ∈ rest.head?, c ≠ '.' := by
      rintro c hc rfl
      obtain ⟨r, rfl⟩ := List.head?_eq_some_iff.1 hc
      exact hpoint r rfl
    rw [stepBehindWhole_of_head hhead]
    split_ifs at h with hplain
    · obtain ⟨-, rfl⟩ := Prod.mk.inj (Except.ok.inj h)
      exact leaves_stepExponentPart_of_startsExponent (by simpa using hplain.2)
    · obtain ⟨⟨x, t'⟩, hx, heq⟩ := map_eq_ok_iff.1 h
      obtain ⟨-, rfl⟩ := Prod.mk.inj heq
      exact leaves_of_withExponent hx

/-- The value of a number does not depend on what stands behind. -/
theorem unsigned_append {n : List Char} (hn : IsUnsigned n) :
    ∃ x : Except SyntaxError (Nat ⊕ Double), ∀ t, Stops t →
      bare (unsigned (n ++ t)) = x.map (·, t) := by
  cases hn with
  | @whole ds e hds he =>
    obtain ⟨x, hx⟩ := withExponent_append he (takeDigits 0 ds).1 (takeDigits 0 ds).2
    refine ⟨if (takeDigits 0 ds).2 = 0 ∧ !startsExponent e then .ok (.inl (takeDigits 0 ds).1)
      else x.map .inr, fun t ht => ?_⟩
    have hhead := head_exponent he ht
    obtain ⟨htake, hdrop⟩ := span_digits hds.digits fun c hc => (hhead c hc).1
    rw [List.append_assoc, bare_unsigned, htake, hdrop, if_neg hds.ne_nil,
      if_neg fun h => h.2 (hds.plain h.1), numberBehindWhole_of_head fun c hc => (hhead c hc).2,
      startsExponent_append he ht, hx t ht]
    split
    · rename_i hplain
      rw [eq_nil_of_isExponent he (by simpa using hplain.2)]
      rfl
    · cases x <;> rfl
  | @fraction ds fs e hds hfs he =>
    obtain ⟨x, hx⟩ := withExponent_append he (takeDigits (takeDigits 0 ds).1 fs).1
      (((takeDigits 0 ds).2 : Int) - ((fs.length : Int) - (takeDigits (takeDigits 0 ds).1 fs).2))
    refine ⟨x.map .inr, fun t ht => ?_⟩
    have happend : ds ++ '.' :: (fs ++ e) ++ t = ds ++ '.' :: (fs ++ (e ++ t)) := by
      simp only [List.append_assoc, List.cons_append]
    obtain ⟨htake, hdrop⟩ := span_digits hds.digits (not_isDigit_point (fs ++ (e ++ t)))
    obtain ⟨htake', hdrop'⟩ := span_digits hfs.digits fun c hc => (head_exponent he ht c hc).1
    rw [happend, bare_unsigned, htake, hdrop, if_neg hds.ne_nil,
      if_neg fun h => h.2 (hds.plain h.1), numberBehindWhole, htake', hdrop', if_neg hfs.ne_nil, hx t ht]
    cases x <;> rfl

/-! ## Strings -/

/-- The character that a leading surrogate makes with what stands behind it. -/
def pairChar (n : Nat) : List Char → Except SyntaxError (Char × List Char)
  | [] => .error .endInString
  | '\\' :: [] => .error .endInString
  | '\\' :: 'u' :: t => bare (hexUnit t) >>= fun (m, r) =>
    if 0xDC00 ≤ m ∧ m ≤ 0xDFFF then
      .ok (Char.ofNat (0x10000 + (n - 0xD800) * 0x400 + (m - 0xDC00)), r)
    else .error .loneSurrogate
  | _ => .error .halfSurrogate

/-- The character of a unit and what stands behind it. -/
def unitChar (n : Nat) (s : List Char) : Except SyntaxError (Char × List Char) :=
  if 0xDC00 ≤ n ∧ n ≤ 0xDFFF then .error .loneSurrogate
  else if 0xD800 ≤ n ∧ n ≤ 0xDBFF then pairChar n s
  else .ok (Char.ofNat n, s)

theorem bare_unicodeEscape (s : List Char) :
    bare (unicodeEscape s) = bare (hexUnit s) >>= fun (n, r) => unitChar n r := by
  rw [unicodeEscape]
  cases hexUnit s with
  | error e => rfl
  | ok p =>
    obtain ⟨n, r, hr⟩ := p
    change bare (if _ then _ else _) = unitChar n r
    unfold unitChar
    split
    · rfl
    · split
      · dsimp only
        split
        · rfl
        · rfl
        · rename_i t
          change bare (hexUnit t >>= _) = bare (hexUnit t) >>= _
          cases hexUnit t with
          | error e => rfl
          | ok q =>
            obtain ⟨m, r'⟩ := q
            change bare (if _ then _ else _) = if _ then _ else _
            split_ifs <;> rfl
        · rename_i hnil hback hunit
          unfold pairChar
          split
          · exact (hnil rfl).elim
          · exact (hback rfl).elim
          · exact (hunit _ rfl).elim
          · rfl
      · rfl

theorem bare_escape_cons (c : Char) (r : List Char) :
    bare (escape (c :: r)) =
      if c = 'u' then bare (hexUnit r) >>= fun (n, t) => unitChar n t
      else match shortEscape? c with
        | some x => .ok (x, r)
        | none => .error .badEscape := by
  rw [escape, ← bare_unicodeEscape]
  split
  · cases unicodeEscape r <;> rfl
  · cases shortEscape? c <;> rfl

theorem bare_stringBody_cons (c : Char) (r : List Char) :
    bare (stringBody (c :: r)) =
      if c = '"' then .ok ([], r)
      else if c = '\\' then bare (escape r) >>= fun (x, t) =>
        (bare (stringBody t)).map fun (xs, t') => (x :: xs, t')
      else if c.toNat < 32 then .error .rawControl
      else (bare (stringBody r)).map fun (xs, t) => (c :: xs, t) := by
  rw [stringBody]
  split
  · rfl
  · split
    · cases escape r with
      | error e => rfl
      | ok p =>
        obtain ⟨x, t⟩ := p
        change bare (Except.map _ (stringBody t.val)) = Except.map _ (bare (stringBody t.val))
        cases stringBody t.val <;> rfl
    · split
      · rfl
      · cases stringBody r <;> rfl

/-- A leading surrogate takes one more escape. -/
theorem exists_unitChar {n : Nat} {s t : List Char} {x : Char} (h : unitChar n s = .ok (x, t)) :
    t = s ∨ ∃ u, IsHex u ∧ s = '\\' :: 'u' :: (u ++ t) := by
  unfold unitChar at h
  split at h
  · cases h
  · split at h
    · unfold pairChar at h
      split at h
      · cases h
      · cases h
      · obtain ⟨⟨m, r⟩, hunit, htrail⟩ := bind_eq_ok_iff.1 h
        obtain ⟨u, hu, -, rfl⟩ := bare_hexUnit_eq_ok_iff.1 hunit
        dsimp only at htrail
        split at htrail
        · obtain ⟨-, rfl⟩ := Prod.mk.inj (Except.ok.inj htrail)
          exact .inr ⟨u, hu, rfl⟩
        · cases htrail
      · cases h
    · exact .inl (Prod.mk.inj (Except.ok.inj h)).2.symm

/-- An escape that is read is one or two escapes of the grammar. -/
theorem exists_escape {s t : List Char} {x : Char} (h : bare (escape s) = .ok (x, t)) :
    ∃ e, s = e ++ t ∧ ∀ q, IsQuoted q → IsQuoted ('\\' :: (e ++ q)) := by
  cases s with
  | nil => cases h
  | cons c r =>
    rw [bare_escape_cons] at h
    split at h
    · rename_i hc
      obtain ⟨⟨n, t'⟩, hunit, hchar⟩ := bind_eq_ok_iff.1 h
      obtain ⟨u, hu, -, rfl⟩ := bare_hexUnit_eq_ok_iff.1 hunit
      rw [hc]
      obtain rfl | ⟨u', hu', rfl⟩ := exists_unitChar hchar
      · exact ⟨'u' :: u, rfl, fun q hq => .escape (.unicode hu) hq⟩
      · refine ⟨'u' :: (u ++ '\\' :: 'u' :: u'), by simp, fun q hq => ?_⟩
        simpa using IsQuoted.escape (.unicode hu) (.escape (.unicode hu') hq)
    · split at h
      · rename_i x' hshort
        obtain ⟨-, rfl⟩ := Prod.mk.inj (Except.ok.inj h)
        have hmem : c ∈ shortEscapes := isSome_shortEscape?_iff.1 (by rw [hshort]; rfl)
        exact ⟨[c], rfl, fun q hq => .escape (.short hmem) hq⟩
      · cases h

theorem exists_isQuoted_of_stringBody : ∀ {s t cs : List Char}, bare (stringBody s) = .ok (cs, t) →
    ∃ q, IsQuoted q ∧ s = q ++ t
  | [], t, cs, h => by
    rw [stringBody] at h
    cases h
  | c :: r, t, cs, h => by
    rw [bare_stringBody_cons] at h
    split_ifs at h with hquote hback hcontrol
    · obtain ⟨-, rfl⟩ := Prod.mk.inj (Except.ok.inj h)
      exact ⟨_, .close, by rw [hquote]; rfl⟩
    · obtain ⟨⟨x, r'⟩, hescape, hrest⟩ := bind_eq_ok_iff.1 h
      obtain ⟨⟨xs, t'⟩, hbody, heq⟩ := map_eq_ok_iff.1 hrest
      obtain ⟨-, rfl⟩ := Prod.mk.inj heq
      obtain ⟨e, rfl, he⟩ := exists_escape hescape
      obtain ⟨q, hq, rfl⟩ := exists_isQuoted_of_stringBody hbody
      exact ⟨_, he q hq, by rw [hback, List.cons_append, List.append_assoc]⟩
    · obtain ⟨⟨xs, t'⟩, hbody, heq⟩ := map_eq_ok_iff.1 h
      obtain ⟨-, rfl⟩ := Prod.mk.inj heq
      obtain ⟨q, hq, rfl⟩ := exists_isQuoted_of_stringBody hbody
      exact ⟨_, .plain ⟨hquote, hback, Nat.le_of_not_lt hcontrol⟩ hq, rfl⟩
termination_by s => s.length

theorem pairChar_of_ne {c : Char} (hc : c ≠ '\\') (n : Nat) (s : List Char) :
    pairChar n (c :: s) = .error .halfSurrogate := by
  unfold pairChar
  split
  · rename_i heq
    cases heq
  · rename_i heq
    exact absurd (List.cons.inj heq).1 hc
  · rename_i heq
    exact absurd (List.cons.inj heq).1 hc
  · rfl

theorem pairChar_of_ne_u {c : Char} (hc : c ≠ 'u') (n : Nat) (s : List Char) :
    pairChar n ('\\' :: c :: s) = .error .halfSurrogate := by
  unfold pairChar
  split
  · rename_i heq
    cases heq
  · rename_i heq
    cases heq
  · rename_i heq
    exact absurd (List.cons.inj (List.cons.inj heq).2).1 hc
  · rfl

theorem pairChar_unit {u : List Char} (hu : IsHex u) (n : Nat) (s : List Char) :
    pairChar n ('\\' :: 'u' :: (u ++ s)) =
      if 0xDC00 ≤ Decimal.ofDigits 16 u ∧ Decimal.ofDigits 16 u ≤ 0xDFFF then
        .ok (Char.ofNat (0x10000 + (n - 0xD800) * 0x400 + (Decimal.ofDigits 16 u - 0xDC00)), s)
      else .error .loneSurrogate := by
  have hunit : bare (hexUnit (u ++ s)) = .ok (Decimal.ofDigits 16 u, s) :=
    bare_hexUnit_eq_ok_iff.2 ⟨u, hu, rfl, rfl⟩
  rw [pairChar, hunit]
  rfl

/-- A character is read in front of a string, and of what follows only the end of a string of at most
    this length. -/
def StaysWithin (length : Nat) (read : List Char → Except SyntaxError (Char × List Char)) : Prop :=
  (∃ e, ∀ t, read t = .error e) ∨
  ∃ x q, IsQuoted q ∧ q.length ≤ length ∧ ∀ t, read t = .ok (x, q ++ t)

theorem ne_u_of_mem_shortEscapes {c : Char} (h : c ∈ shortEscapes) : c ≠ 'u' := by
  rintro rfl
  revert h
  decide

theorem pairChar_staysWithin (n : Nat) {q : List Char} (hq : IsQuoted q) :
    StaysWithin q.length fun t => pairChar n (q ++ t) := by
  cases hq with
  | close => exact .inl ⟨_, fun t => pairChar_of_ne (by decide) n t⟩
  | plain hc _ => exact .inl ⟨_, fun t => pairChar_of_ne hc.2.1 n _⟩
  | @escape e q he hq =>
    cases he with
    | @short c hc =>
      exact .inl ⟨_, fun t => pairChar_of_ne_u (ne_u_of_mem_shortEscapes hc) n _⟩
    | @unicode u hu =>
      have hlength : q.length ≤ ('\\' :: ('u' :: u ++ q)).length := by
        simp only [List.length_cons, List.length_append]
        omega
      have hunit : ∀ t, pairChar n ('\\' :: ('u' :: u ++ q) ++ t) =
          pairChar n ('\\' :: 'u' :: (u ++ (q ++ t))) := fun t =>
        congrArg (fun s => pairChar n ('\\' :: 'u' :: s)) (List.append_assoc u q t)
      by_cases htrail : 0xDC00 ≤ Decimal.ofDigits 16 u ∧ Decimal.ofDigits 16 u ≤ 0xDFFF
      · exact .inr ⟨_, q, hq, hlength, fun t =>
          (hunit t).trans ((pairChar_unit hu n _).trans (if_pos htrail))⟩
      · exact .inl ⟨_, fun t =>
          (hunit t).trans ((pairChar_unit hu n _).trans (if_neg htrail))⟩

theorem unitChar_staysWithin (n : Nat) {q : List Char} (hq : IsQuoted q) :
    StaysWithin q.length fun t => unitChar n (q ++ t) := by
  unfold unitChar
  split
  · exact .inl ⟨_, fun t => rfl⟩
  · split
    · exact pairChar_staysWithin n hq
    · exact .inr ⟨_, q, hq, Nat.le_refl _, fun t => rfl⟩

theorem escape_staysWithin {e q : List Char} (he : IsEscape e) (hq : IsQuoted q) :
    StaysWithin q.length fun t => bare (escape (e ++ (q ++ t))) := by
  cases he with
  | @short c hc =>
    obtain ⟨x, hx⟩ := Option.isSome_iff_exists.1 (isSome_shortEscape?_iff.2 hc)
    refine .inr ⟨x, q, hq, Nat.le_refl _, fun t => ?_⟩
    change bare (escape (c :: (q ++ t))) = _
    rw [bare_escape_cons, if_neg (ne_u_of_mem_shortEscapes hc), hx]
  | @unicode u hu =>
    have hunit : ∀ t, bare (escape ('u' :: u ++ (q ++ t))) =
        unitChar (Decimal.ofDigits 16 u) (q ++ t) := by
      intro t
      have hhex : bare (hexUnit (u ++ (q ++ t))) = .ok (Decimal.ofDigits 16 u, q ++ t) :=
        bare_hexUnit_eq_ok_iff.2 ⟨u, hu, rfl, rfl⟩
      rw [List.cons_append, bare_escape_cons, if_pos rfl, hhex]
      rfl
    simp only [hunit]
    exact unitChar_staysWithin _ hq

/-- The characters of a string do not depend on what stands behind it. -/
theorem stringBody_append {q : List Char} (hq : IsQuoted q) :
    ∃ x : Except SyntaxError (List Char), ∀ t, bare (stringBody (q ++ t)) = x.map (·, t) := by
  cases hq with
  | close =>
    refine ⟨.ok [], fun t => ?_⟩
    rw [List.cons_append, bare_stringBody_cons, if_pos rfl]
    rfl
  | @plain c q hc hq =>
    obtain ⟨x, hx⟩ := stringBody_append hq
    refine ⟨x.map (c :: ·), fun t => ?_⟩
    rw [List.cons_append, bare_stringBody_cons, if_neg hc.1, if_neg hc.2.1,
      if_neg (Nat.not_lt_of_le hc.2.2), hx]
    cases x <;> rfl
  | @escape e q he hq =>
    obtain ⟨error, herror⟩ | ⟨y, q', hq', hlength, hread⟩ := escape_staysWithin he hq
    · refine ⟨.error error, fun t => ?_⟩
      have hescape : bare (escape (e ++ (q ++ t))) = .error error := herror t
      rw [List.cons_append, bare_stringBody_cons, if_neg (by decide), if_pos rfl, List.append_assoc,
        hescape]
      rfl
    · obtain ⟨x, hx⟩ := stringBody_append hq'
      refine ⟨x.map (y :: ·), fun t => ?_⟩
      have hescape : bare (escape (e ++ (q ++ t))) = .ok (y, q' ++ t) := hread t
      rw [List.cons_append, bare_stringBody_cons, if_neg (by decide), if_pos rfl, List.append_assoc,
        hescape]
      change Except.map _ (bare (stringBody (q' ++ t))) = _
      rw [hx]
      cases x <;> rfl
termination_by q.length

end SchemaForest.Json
