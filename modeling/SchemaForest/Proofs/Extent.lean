import SchemaForest.Proofs.Lexemes
import SchemaForest.Proofs.Stepping

/-!
# What reading depends on

A value that is read to its end is a word of the grammar, and reading it depends on that word alone.

1. Each reader has an equation in which texts appear without proofs about their length
   (`shown_readValue`, `shown_readItems`, `shown_readFields`).
2. Reading ends where a step ends (`leaves_of_readValue`), and a step goes over what is spelled.  The
   converse fails: a number out of range or half a pair of surrogates is spelled and not read.
3. On what is spelled reading has one outcome, whatever stands behind (`Spells.readsAlike`).  The
   induction is on the grammar.  A field whose value is not read needs more than its induction
   hypothesis: reading goes on behind a step, and a step over what is spelled goes to the end.
-/

namespace SchemaForest.Json

open Fallible

/-! ## Words, strings and numbers -/

theorem bare_readScalar_digit {c : Char} (h : c.isDigit = true) (r : List Char) :
    bare (readScalar c r) =
      (bare (unsigned (c :: r))).map fun (n, t) => (numberDraft false n, t) := by
  unfold readScalar
  rw [if_pos h]
  cases unsigned (c :: r) <;> rfl

theorem bare_readScalar_minus (r : List Char) :
    bare (readScalar '-' r) = (bare (unsigned r)).map fun (n, t) => (numberDraft true n, t) := by
  change bare (Except.map _ (unsigned r)) = _
  cases unsigned r <;> rfl

theorem bare_readScalar_quote (r : List Char) :
    bare (readScalar '"' r) =
      (bare (stringBody r)).map fun (cs, t) => (.string (String.ofList cs), t) := by
  change bare (Except.map _ (stringBody r)) = _
  cases stringBody r <;> rfl

theorem bare_readScalar_word {c : Char} {w : List Char} (h : c :: w ∈ words) :
    ∃ d, ∀ r, bare (readScalar c r) = (leaves (word w r)).map (d, ·) := by
  have hmap : ∀ {c : Char} {w r : List Char} (d : Draft),
      bare ((word w r).map fun t => (d, After.ofRest c t)) = (leaves (word w r)).map (d, ·) := by
    intro c w r d
    cases word w r <;> rfl
  simp only [words, List.mem_cons, List.not_mem_nil, or_false, List.cons.injEq] at h
  rcases h with ⟨rfl, rfl⟩ | ⟨rfl, rfl⟩ | ⟨rfl, rfl⟩
  · exact ⟨.null, fun r => hmap _⟩
  · exact ⟨.bool true, fun r => hmap _⟩
  · exact ⟨.bool false, fun r => hmap _⟩

/-- A scalar that is read ends where a step over it ends. -/
theorem leaves_of_readScalar {c : Char} {r t : List Char} {d : Draft}
    (h : bare (readScalar c r) = .ok (d, t)) : leaves (stepScalar c r) = .ok t := by
  have hword : ∀ {w : List Char}, c :: w ∈ words → leaves (stepScalar c r) = .ok t := by
    intro w hw
    obtain ⟨d', hread⟩ := bare_readScalar_word hw
    rw [hread] at h
    obtain ⟨t', ht', heq⟩ := map_eq_ok_iff.1 h
    obtain ⟨-, rfl⟩ := Prod.mk.inj heq
    rw [leaves_stepScalar_word hw, ht']
  by_cases hc : c.isDigit = true
  · rw [bare_readScalar_digit hc] at h
    obtain ⟨⟨n, t'⟩, ht', heq⟩ := map_eq_ok_iff.1 h
    obtain ⟨-, rfl⟩ := Prod.mk.inj heq
    rw [leaves_stepScalar_digit hc, leaves_of_unsigned ht']
  · unfold readScalar at h
    rw [if_neg hc] at h
    split at h
    · exact hword (w := ['u', 'l', 'l']) (by decide)
    · exact hword (by decide : 't' :: ['r', 'u', 'e'] ∈ words)
    · exact hword (by decide : 'f' :: ['a', 'l', 's', 'e'] ∈ words)
    · have hread := (bare_readScalar_quote r).symm.trans h
      obtain ⟨⟨cs, t'⟩, ht', heq⟩ := map_eq_ok_iff.1 hread
      obtain ⟨-, rfl⟩ := Prod.mk.inj heq
      obtain ⟨q, hq, rfl⟩ := exists_isQuoted_of_stringBody ht'
      rw [leaves_stepScalar_quote, leaves_stepString_append hq]
    · have hread := (bare_readScalar_minus r).symm.trans h
      obtain ⟨⟨n, t'⟩, ht', heq⟩ := map_eq_ok_iff.1 hread
      obtain ⟨-, rfl⟩ := Prod.mk.inj heq
      rw [leaves_stepScalar_minus, leaves_of_unsigned ht']
    · cases h

/-! ## Values -/

section Shown

variable {α : Type} {P Q : List Char → Prop}

/-- What was read and the text behind it, without the proof that the text is shorter. -/
def shown (x : α × Option {r : List Char // P r}) : α × Option (List Char) :=
  (x.1, x.2.map Subtype.val)

theorem shown_map (f : {r : List Char // P r} → {r : List Char // Q r})
    (h : ∀ t, (f t).val = t.val) (a : α) (x : Option {r : List Char // P r}) :
    shown (a, x.map f) = shown (a, x) := by
  cases x with
  | none => rfl
  | some t => exact congrArg (fun r => (a, some r)) (h t)

theorem of_shown {x : α × Option {r : List Char // P r}} {t : List Char}
    (h : (shown x).2 = some t) : P t := by
  obtain ⟨r, -, rfl⟩ := Option.map_eq_some_iff.1 h
  exact r.property

end Shown

/-- The reading of a container one level down. -/
def oneDeeper {α : Type} (wrap : α → Draft) (depth : Nat)
    (read : Nat → α × Option (List Char)) : Draft × Option (List Char) :=
  match depth with
  | 0 => (.broken .tooDeep, none)
  | d + 1 => Prod.map wrap id (read d)

theorem shown_readValue_nil {depth : Nat} {s : List Char} (h : skipGaps s = []) :
    shown (readValue depth s) = (.broken .endInValue, none) := by
  rw [readValue]
  split
  · rfl
  · rename_i hcons
    cases h.symm.trans hcons

theorem shown_readValue {depth : Nat} {s r : List Char} {c : Char} (h : skipGaps s = c :: r) :
    shown (readValue depth s) =
      if c = '[' then oneDeeper .array depth fun d => shown (readItems d true r)
      else if c = '\x7b' then oneDeeper .object depth fun d => shown (readFields d true r)
      else match bare (readScalar c r) with
        | .error e => (.broken e, none)
        | .ok (d, t) => (d, some t) := by
  have hs : (c :: r).length ≤ s.length := h ▸ length_skipGaps_le s
  rw [readValue]
  split
  · rename_i hnil
    cases h.symm.trans hnil
  · rename_i c' r' hcons
    obtain ⟨rfl, rfl⟩ := List.cons.inj (h.symm.trans hcons)
    dsimp only
    split
    · cases depth with
      | zero => rfl
      | succ d => exact shown_map (fun t : After r => (t.cons c).widen hs) (fun _ => rfl) _ _
    · split
      · cases depth with
        | zero => rfl
        | succ d => exact shown_map (fun t : After r => (t.cons c).widen hs) (fun _ => rfl) _ _
      · cases readScalar c r with
        | error e => rfl
        | ok p => rfl

theorem readText_eq (s : List Char) : readText s = shown (readValue depthBound s) := rfl

/-- The text of a part of a container, behind its comma and the blanks, and not at the end. -/
def readStart (first : Bool) (close : Char) (missing : SyntaxError) (c : Char) (r : List Char) :
    Except SyntaxError (List Char) :=
  if first then .ok (c :: r) else if c = ',' then leaves (nextPart close r) else .error missing

theorem leaves_readStart {s : List Char} (first : Bool) (close : Char) (missing : SyntaxError)
    {c : Char} {r : List Char} (h : (c :: r).length ≤ s.length) :
    leaves (if first then .ok (⟨c :: r, h⟩ : Rest s)
      else if c = ',' then (nextPart close r).map (Rest.widen (Nat.le_of_succ_le h))
      else .error missing) = readStart first close missing c r := by
  unfold readStart
  split_ifs
  · rfl
  · exact leaves_map (Rest.widen (Nat.le_of_succ_le h)) (fun _ => rfl) _
  · rfl

/-- What follows an item: nothing if the text behind it is not known. -/
def behindItem (p : Draft × Option (List Char))
    (read : List Char → DraftItems × Option (List Char)) : DraftItems × Option (List Char) :=
  match p with
  | (d, none) => (.item d .done, none)
  | (d, some t) => Prod.map (.item d) id (read t)

theorem shown_readItems_nil {depth : Nat} {first : Bool} {s : List Char} (h : skipGaps s = []) :
    shown (readItems depth first s) = (.failed .endInList, none) := by
  rw [readItems]
  split
  · rfl
  · rename_i hcons
    cases h.symm.trans hcons

theorem shown_readItems {depth : Nat} {first : Bool} {s r : List Char} {c : Char}
    (h : skipGaps s = c :: r) :
    shown (readItems depth first s) =
      if c = ']' then (.done, some r)
      else match readStart first ']' .noListComma c r with
        | .error e => (.failed e, none)
        | .ok v => behindItem (shown (readValue depth v)) fun t => shown (readItems depth false t) := by
  have hs : (c :: r).length ≤ s.length := h ▸ length_skipGaps_le s
  rw [readItems]
  split
  · rename_i hnil
    cases h.symm.trans hnil
  · rename_i c' r' hcons
    obtain ⟨rfl, rfl⟩ := List.cons.inj (h.symm.trans hcons)
    dsimp only
    split
    · rfl
    · rw [← leaves_readStart first ']' .noListComma hs]
      split
      · rename_i e hitem
        rw [hitem]
        rfl
      · rename_i v hitem
        rw [hitem]
        change _ = behindItem (shown (readValue depth v.val)) _
        split
        · rename_i d hvalue
          rw [hvalue]
          rfl
        · rename_i d t hvalue
          rw [hvalue]
          exact shown_map (After.widen (Nat.le_of_lt (Nat.lt_of_lt_of_le t.property v.property)))
            (fun _ => rfl) _ _

/-- What follows a field: where its value is not read to the end, the text behind a step over it. -/
def behindField (name : String) (p : Draft × Option (List Char))
    (step : Except SyntaxError (List Char)) (read : List Char → DraftFields × Option (List Char)) :
    DraftFields × Option (List Char) :=
  match p with
  | (d, some t) => Prod.map (.field name d none) id (read t)
  | (d, none) =>
    match step with
    | .error e => (.field name d (some e) .done, none)
    | .ok t => Prod.map (.field name d none) id (read t)

/-- A field from its name on, and what follows it. -/
def readField (depth : Nat) (read : List Char → DraftFields × Option (List Char)) :
    List Char → DraftFields × Option (List Char)
  | [] => (.failed .endInObject, none)
  | q :: k =>
    if q ≠ '"' then (.failed .keyNotString, none)
    else match bare (stringBody k) with
      | .error e => (.failed e, none)
      | .ok (cs, k') =>
        match leaves (colon k') with
        | .error e => (.unvalued (String.ofList cs) e, none)
        | .ok v =>
          behindField (String.ofList cs) (shown (readValue depth v)) (leaves (stepValue v)) read

theorem shown_readFields_nil {depth : Nat} {first : Bool} {s : List Char} (h : skipGaps s = []) :
    shown (readFields depth first s) = (.failed .endInObject, none) := by
  rw [readFields]
  split
  · rfl
  · rename_i hcons
    cases h.symm.trans hcons

theorem shown_readFields {depth : Nat} {first : Bool} {s r : List Char} {c : Char}
    (h : skipGaps s = c :: r) :
    shown (readFields depth first s) =
      if c = '\x7d' then (.done, some r)
      else match readStart first '\x7d' .noObjectComma c r with
        | .error e => (.failed e, none)
        | .ok f => readField depth (fun t => shown (readFields depth false t)) f := by
  have hs : (c :: r).length ≤ s.length := h ▸ length_skipGaps_le s
  rw [readFields]
  split
  · rename_i hnil
    cases h.symm.trans hnil
  · rename_i c' r' hcons
    obtain ⟨rfl, rfl⟩ := List.cons.inj (h.symm.trans hcons)
    dsimp only
    split
    · rfl
    · rw [← leaves_readStart first '\x7d' .noObjectComma hs]
      split
      · rename_i e hfield
        rw [hfield]
        rfl
      · rename_i hfield
        rw [hfield]
        rfl
      · rename_i q k hq hfield
        rw [hfield]
        change _ = readField depth _ (q :: k)
        rw [readField]
        split
        · rfl
        · split
          · rename_i e hname
            rw [hname]
            rfl
          · rename_i cs k' hname
            rw [hname]
            change _ = match leaves (colon k'.val) with
              | .error e => (DraftFields.unvalued (String.ofList cs) e, none)
              | .ok v => _
            split
            · rename_i e hcolon
              rw [hcolon]
              rfl
            · rename_i v hcolon
              rw [hcolon]
              have hv : ∀ t : After v.val, t.val.length ≤ s.length := by
                intro t
                have h₁ := t.property
                have h₂ := v.property
                have h₃ := k'.property
                rw [List.length_cons] at hq
                omega
              change _ = behindField _ (shown (readValue depth v.val)) (leaves (stepValue v.val)) _
              split
              · rename_i d t hvalue
                rw [hvalue]
                exact shown_map (After.widen (hv t)) (fun _ => rfl) _ _
              · rename_i d hvalue
                rw [hvalue]
                split
                · rename_i e hstep
                  rw [hstep]
                  rfl
                · rename_i t hstep
                  rw [hstep]
                  exact shown_map (After.widen (hv t)) (fun _ => rfl) _ _

/-! ## Where reading ends -/

theorem leaves_nextPart_eq_ok_iff {close : Char} {s t : List Char} :
    leaves (nextPart close s) = .ok t ↔ skipGaps s = t ∧ ∃ c ∈ t.head?, c ≠ close := by
  unfold nextPart
  split
  · rename_i hnil
    refine iff_of_false (by rintro ⟨⟩) ?_
    rintro ⟨rfl, c, hc, -⟩
    rw [hnil] at hc
    cases hc
  · rename_i c r hcons
    have hiff : skipGaps s = t ↔ c :: r = t := hcons ▸ Iff.rfl
    rw [hiff]
    split
    · rename_i hc
      refine iff_of_false (by rintro ⟨⟩) ?_
      rintro ⟨rfl, _, ⟨⟩, hne⟩
      exact hne hc
    · rename_i hc
      constructor
      · intro h
        obtain rfl := Except.ok.inj h
        exact ⟨rfl, c, rfl, hc⟩
      · rintro ⟨rfl, -⟩
        rfl

/-- Reading begins a part where a step over it begins, but for blanks. -/
theorem exists_partStart {first : Bool} {close c : Char} {missing : SyntaxError} {s r v : List Char}
    (hs : skipGaps s = c :: r) (h : readStart first close missing c r = .ok v) :
    ∃ v', partStart first missing c r = .ok v' ∧ skipGaps v' = v ∧ v.length ≤ s.length := by
  have hlength := length_skipGaps_le s
  rw [hs] at hlength
  unfold readStart at h
  unfold partStart
  split_ifs at h ⊢
  · obtain rfl := Except.ok.inj h
    exact ⟨_, rfl, skipGaps_of_skipGaps hs, hlength⟩
  · obtain ⟨rfl, -⟩ := leaves_nextPart_eq_ok_iff.1 h
    exact ⟨r, rfl, rfl, Nat.le_trans (length_skipGaps_le r) (Nat.le_of_succ_le hlength)⟩

theorem exists_of_behindItem {p : Draft × Option (List Char)}
    {read : List Char → DraftItems × Option (List Char)} {t : List Char}
    (h : (behindItem p read).2 = some t) : ∃ u, p.2 = some u ∧ (read u).2 = some t := by
  obtain ⟨d, _ | u⟩ := p
  · cases h
  · exact ⟨u, rfl, h⟩

/-- What a field can end in: an error before its value, or whatever its value leads to. -/
theorem readField_cases (depth : Nat) (read : List Char → DraftFields × Option (List Char))
    {f : List Char} (hf : skipGaps f = f) :
    (∃ e, readField depth read f = (.failed e, none)) ∨
    (∃ name e, readField depth read f = (.unvalued name e, none)) ∨
    ∃ name v, stepName f = .ok v ∧
      readField depth read f =
        behindField name (shown (readValue depth v)) (leaves (stepValue v)) read := by
  cases f with
  | nil => exact .inl ⟨_, rfl⟩
  | cons q k =>
    rw [readField, stepName_cons hf]
    by_cases hquote : q ≠ '"'
    · rw [if_pos hquote]
      exact .inl ⟨_, rfl⟩
    · rw [if_neg hquote, if_neg hquote]
      split
      · exact .inl ⟨_, rfl⟩
      · rename_i cs k' hname
        obtain ⟨q, hq, rfl⟩ := exists_isQuoted_of_stringBody hname
        rw [leaves_stepString_append hq]
        split
        · exact .inr (.inl ⟨_, _, rfl⟩)
        · rename_i v hcolon
          exact .inr (.inr ⟨_, v, hcolon, rfl⟩)

theorem exists_of_behindField {name : String} {p : Draft × Option (List Char)}
    {step : Except SyntaxError (List Char)} {read : List Char → DraftFields × Option (List Char)}
    {t : List Char} (h : (behindField name p step read).2 = some t) :
    ∃ u, (p.2 = some u ∨ step = .ok u) ∧ (read u).2 = some t := by
  obtain ⟨d, _ | u⟩ := p
  · cases step with
    | error e => cases h
    | ok u => exact ⟨u, .inr rfl, h⟩
  · exact ⟨u, .inl rfl, h⟩

mutual
/-- A value that is read ends where a step over it ends. -/
theorem leaves_of_readValue {depth : Nat} {s t : List Char}
    (h : (shown (readValue depth s)).2 = some t) : leaves (stepValue s) = .ok t := by
  cases hs : skipGaps s with
  | nil =>
    rw [shown_readValue_nil hs] at h
    cases h
  | cons c r =>
    have hr := length_lt_of_skipGaps hs
    rw [shown_readValue hs] at h
    rw [leaves_stepValue hs]
    split_ifs at h ⊢
    · cases depth with
      | zero => cases h
      | succ d => exact leaves_of_readItems h
    · cases depth with
      | zero => cases h
      | succ d => exact leaves_of_readFields h
    · split at h
      · cases h
      · rename_i d t' hscalar
        obtain rfl := Option.some.inj h
        exact leaves_of_readScalar hscalar
termination_by (s.length, 0)
decreasing_by all_goals exact Prod.Lex.left _ _ hr

theorem leaves_of_readItems {depth : Nat} {first : Bool} {s t : List Char}
    (h : (shown (readItems depth first s)).2 = some t) : leaves (stepItems first s) = .ok t := by
  cases hs : skipGaps s with
  | nil =>
    rw [shown_readItems_nil hs] at h
    cases h
  | cons c r =>
    rw [shown_readItems hs] at h
    rw [leaves_stepItems hs]
    split_ifs at h ⊢
    · exact congrArg Except.ok (Option.some.inj h)
    · split at h
      · cases h
      · rename_i v hstart
        obtain ⟨v', hstart', hv', hv⟩ := exists_partStart hs hstart
        obtain ⟨u, hvalue, hrest⟩ := exists_of_behindItem h
        have hstep := leaves_of_readValue hvalue
        have hu : u.length < v.length := of_leaves hstep
        have hvalue' : leaves (stepValue v') = .ok u := by
          rw [leaves_stepValue_congr (hv'.trans (skipGaps_of_skipGaps hv').symm), hstep]
        rw [hstart']
        change (leaves (stepValue v') >>= _) = _
        rw [hvalue']
        exact leaves_of_readItems hrest
termination_by (s.length, 1)
decreasing_by
  · exact Prod.Lex.right' _ hv Nat.zero_lt_one
  · exact Prod.Lex.left _ _ (Nat.lt_of_lt_of_le hu hv)

theorem leaves_of_readFields {depth : Nat} {first : Bool} {s t : List Char}
    (h : (shown (readFields depth first s)).2 = some t) : leaves (stepFields first s) = .ok t := by
  cases hs : skipGaps s with
  | nil =>
    rw [shown_readFields_nil hs] at h
    cases h
  | cons c r =>
    rw [shown_readFields hs] at h
    rw [leaves_stepFields hs]
    split_ifs at h ⊢
    · exact congrArg Except.ok (Option.some.inj h)
    · split at h
      · cases h
      · rename_i f hstart
        obtain ⟨f', hstart', hf', hf⟩ := exists_partStart hs hstart
        obtain ⟨e, he⟩ | ⟨name, e, he⟩ | ⟨name, v, hname, hfield⟩ :=
          readField_cases depth _ (skipGaps_of_skipGaps hf')
        · rw [he] at h
          cases h
        · rw [he] at h
          cases h
        rw [hfield] at h
        obtain ⟨u, hvalue, hrest⟩ := exists_of_behindField h
        have hname' : stepName f' = .ok v := by
          rw [stepName, hf', ← hname, stepName, skipGaps_of_skipGaps hf']
        have hv : v.length < s.length := Nat.lt_of_lt_of_le (length_lt_of_stepName hname) hf
        have hstep : leaves (stepValue v) = .ok u := hvalue.elim leaves_of_readValue id
        have hu : u.length < v.length := of_leaves hstep
        rw [hstart']
        change (stepName f' >>= fun v => leaves (stepValue v) >>= _) = _
        rw [hname']
        change (leaves (stepValue v) >>= _) = _
        rw [hstep]
        exact leaves_of_readFields hrest
termination_by (s.length, 1)
decreasing_by
  · exact Prod.Lex.left _ _ hv
  · exact Prod.Lex.left _ _ (Nat.lt_trans hu hv)
end

/-! ## What reading depends on -/

/-- Behind its separator a part is read. -/
theorem readStart_of_separator {first : Bool} {sep s : List Char} {d close : Char}
    (hsep : IsSeparator first sep) (hs : s.head? = some d) (hgap : isGap d = false)
    (hclose : d ≠ close) (hcomma : close ≠ ',') (missing : SyntaxError) :
    ∃ c r, skipGaps (sep ++ s) = c :: r ∧ c ≠ close ∧
      readStart first close missing c r = .ok s := by
  obtain ⟨r, rfl⟩ := List.head?_eq_some_iff.1 hs
  have hskip : skipGaps (d :: r) = d :: r := skipGaps_of_head (by rintro _ ⟨⟩; exact hgap)
  obtain ⟨rfl, hfront⟩ | ⟨rfl, r', hfront, hr'⟩ := skipGaps_separator hsep hskip
  · exact ⟨d, r, hfront, hclose, rfl⟩
  · exact ⟨',', r', hfront, hcomma.symm, leaves_nextPart_eq_ok_iff.2 ⟨hr', d, rfl, hclose⟩⟩

/-- Reading a value does not see the blanks in front. -/
theorem shown_readValue_congr {s s' : List Char} (h : skipGaps s = skipGaps s') (depth : Nat) :
    shown (readValue depth s) = shown (readValue depth s') := by
  cases hs : skipGaps s with
  | nil => rw [shown_readValue_nil hs, shown_readValue_nil (h ▸ hs)]
  | cons c r => rw [shown_readValue hs, shown_readValue (h ▸ hs)]

theorem shown_readItems_close {depth : Nat} {first : Bool} {g : List Char} (hg : IsBlank g)
    (t : List Char) : shown (readItems depth first (g ++ ']' :: t)) = (.done, some t) := by
  rw [shown_readItems (skipGaps_blank hg rfl t), if_pos rfl]

theorem shown_readItems_item {depth : Nat} {first : Bool} {sep s : List Char} {d : Char}
    (hsep : IsSeparator first sep) (hs : s.head? = some d) (hd : Opens d) :
    shown (readItems depth first (sep ++ s)) =
      behindItem (shown (readValue depth s)) fun t => shown (readItems depth false t) := by
  obtain ⟨c, r, hskip, hc, hstart⟩ :=
    readStart_of_separator hsep hs hd.1 hd.2.1 (by decide) .noListComma
  rw [shown_readItems hskip, if_neg hc, hstart]

theorem shown_readFields_close {depth : Nat} {first : Bool} {g : List Char} (hg : IsBlank g)
    (t : List Char) : shown (readFields depth first (g ++ '\x7d' :: t)) = (.done, some t) := by
  rw [shown_readFields (skipGaps_blank hg rfl t), if_pos rfl]

theorem shown_readFields_field {depth : Nat} {first : Bool} {sep : List Char}
    (hsep : IsSeparator first sep) (k : List Char) :
    shown (readFields depth first (sep ++ '"' :: k)) =
      readField depth (fun t => shown (readFields depth false t)) ('"' :: k) := by
  have hclose : '"' ≠ '\x7d' := by decide
  obtain ⟨c, r, hskip, hc, hstart⟩ :=
    readStart_of_separator (s := '"' :: k) hsep rfl rfl hclose (by decide) .noObjectComma
  rw [shown_readFields hskip, if_neg hc, hstart]

theorem readField_name {depth : Nat} {read : List Char → DraftFields × Option (List Char)}
    {k g s cs : List Char} (hg : IsBlank g) (h : bare (stringBody k) = .ok (cs, g ++ ':' :: s)) :
    readField depth read ('"' :: k) =
      behindField (String.ofList cs) (shown (readValue depth s)) (leaves (stepValue s)) read := by
  rw [readField, if_neg (not_not.2 rfl), h]
  dsimp only
  rw [leaves_colon_append hg]

/-- Over a value that a step goes over reading goes on, whether or not the value was read. -/
theorem behindField_ok (name : String) (d : Draft) (ends : Bool) (u : List Char)
    (read : List Char → DraftFields × Option (List Char)) :
    behindField name (d, if ends then some u else none) (.ok u) read =
      Prod.map (.field name d none) id (read u) := by
  cases ends <;> rfl

/-- What reading a part gives. -/
abbrev Part.Reading : Part → Type
  | .value => Draft
  | .items _ => DraftItems
  | .fields _ => DraftFields

/-- Reading a part. -/
def Part.read (depth : Nat) : (p : Part) → List Char → p.Reading × Option (List Char)
  | .value, s => shown (readValue depth s)
  | .items first, s => shown (readItems depth first s)
  | .fields first, s => shown (readFields depth first s)

/-- A part is read alike whatever stands behind it. -/
def Part.ReadsAlike (depth : Nat) (p : Part) (w : List Char) : Prop :=
  ∃ (d : p.Reading) (ends : Bool), ∀ t, (p = .value → Stops t) →
    p.read depth (w ++ t) = (d, if ends then some t else none)

section Scalar

variable {c : Char} {r t : List Char} (hc : OpensScalar c) (depth : Nat)

include hc

/-- A word, a string or a number is read alike at every depth. -/
theorem shown_readValue_of_ok {d : Draft} (h : bare (readScalar c r) = .ok (d, t)) :
    shown (readValue depth (c :: r)) = (d, some t) := by
  have hskip : skipGaps (c :: r) = c :: r := skipGaps_of_head (by rintro _ ⟨⟩; exact hc.1)
  rw [shown_readValue hskip, if_neg hc.2.1, if_neg hc.2.2, h]

theorem shown_readValue_of_error {e : SyntaxError} (h : bare (readScalar c r) = .error e) :
    shown (readValue depth (c :: r)) = (.broken e, none) := by
  have hskip : skipGaps (c :: r) = c :: r := skipGaps_of_head (by rintro _ ⟨⟩; exact hc.1)
  rw [shown_readValue hskip, if_neg hc.2.1, if_neg hc.2.2, h]

end Scalar

theorem readsAlike_scalar {c : Char} {r : List Char} (hc : OpensScalar c)
    {x : Except SyntaxError Draft}
    (hx : ∀ t, Stops t → bare (readScalar c (r ++ t)) = x.map (·, t)) (depth : Nat) :
    Part.ReadsAlike depth .value (c :: r) := by
  cases x with
  | error e =>
    exact ⟨.broken e, false, fun t ht => shown_readValue_of_error hc depth (hx t (ht rfl))⟩
  | ok d => exact ⟨d, true, fun t ht => shown_readValue_of_ok hc depth (hx t (ht rfl))⟩

theorem oneDeeper_alike {α : Type} (wrap : α → Draft)
    {read : List Char → Nat → α × Option (List Char)}
    (h : ∀ d, ∃ (a : α) (ends : Bool), ∀ t, read t d = (a, if ends then some t else none))
    (depth : Nat) : ∃ (d : Draft) (ends : Bool), ∀ t,
      oneDeeper wrap depth (read t) = (d, if ends then some t else none) := by
  cases depth with
  | zero => exact ⟨.broken .tooDeep, false, fun _ => rfl⟩
  | succ d =>
    obtain ⟨a, ends, ha⟩ := h d
    refine ⟨wrap a, ends, fun t => ?_⟩
    rw [oneDeeper, ha]
    rfl

/-- Reading depends on what is read and on nothing behind it. -/
theorem Spells.readsAlike {p : Part} {w : List Char} (h : Spells p w) :
    ∀ depth, p.ReadsAlike depth w := by
  induction h with
  | word hw =>
    obtain ⟨c, r, rfl, hc⟩ := exists_cons_of_mem_words _ hw
    obtain ⟨d, hd⟩ := bare_readScalar_word hw
    refine readsAlike_scalar hc (x := .ok d) fun t _ => ?_
    rw [hd, leaves_word_eq_ok_iff.2 rfl]
    rfl
  | positive hn =>
    obtain ⟨x, hx⟩ := unsigned_append hn
    obtain ⟨c, r, rfl, hc⟩ := hn.exists_cons
    refine readsAlike_scalar (opensScalar_of_isDigit hc) (x := x.map (numberDraft false))
      fun t ht => ?_
    rw [bare_readScalar_digit hc, ← List.cons_append, hx t ht]
    cases x <;> rfl
  | negative hn =>
    obtain ⟨x, hx⟩ := unsigned_append hn
    refine readsAlike_scalar ⟨rfl, by decide, by decide⟩ (x := x.map (numberDraft true))
      fun t ht => ?_
    rw [bare_readScalar_minus, hx t ht]
    cases x <;> rfl
  | string hq =>
    obtain ⟨x, hx⟩ := stringBody_append hq
    refine readsAlike_scalar ⟨rfl, by decide, by decide⟩
      (x := x.map fun cs => .string (String.ofList cs)) fun t _ => ?_
    rw [bare_readScalar_quote, hx]
    cases x <;> rfl
  | @array r _ ih =>
    intro depth
    have hparts (d : Nat) : ∃ (a : DraftItems) (ends : Bool), ∀ t,
        shown (readItems d true (r ++ t)) = (a, if ends then some t else none) :=
      (ih d).imp fun a => .imp fun ends ha t => ha t fun h => nomatch h
    obtain ⟨d, ends, hd⟩ := oneDeeper_alike .array hparts depth
    refine ⟨d, ends, fun t _ => ?_⟩
    refine (shown_readValue (skipGaps_of_head (by rintro _ ⟨⟩; rfl))).trans ?_
    rw [if_pos rfl]
    exact hd t
  | @object r _ ih =>
    intro depth
    have hparts (d : Nat) : ∃ (a : DraftFields) (ends : Bool), ∀ t,
        shown (readFields d true (r ++ t)) = (a, if ends then some t else none) :=
      (ih d).imp fun a => .imp fun ends ha t => ha t fun h => nomatch h
    obtain ⟨d, ends, hd⟩ := oneDeeper_alike .object hparts depth
    refine ⟨d, ends, fun t _ => ?_⟩
    refine (shown_readValue (skipGaps_of_head (by rintro _ ⟨⟩; rfl))).trans ?_
    rw [if_neg (by decide), if_pos rfl]
    exact hd t
  | endItems hg =>
    refine fun depth => ⟨.done, true, fun t _ => ?_⟩
    rw [Part.read, List.append_assoc]
    exact shown_readItems_close hg t
  | @item first sep v r hsep hv hr ihv ihr =>
    intro depth
    obtain ⟨d, ends, hd⟩ := ihv depth
    obtain ⟨items, ends', hitems⟩ := ihr depth
    obtain ⟨c, v', rfl, hc⟩ := hv.exists_cons
    have hread : ∀ t, shown (readItems depth first (sep ++ (c :: v' ++ r) ++ t)) =
        behindItem (d, if ends then some (r ++ t) else none)
          fun t => shown (readItems depth false t) := by
      intro t
      have hvalue : shown (readValue depth (c :: v' ++ (r ++ t))) =
        (d, if ends then some (r ++ t) else none) := hd (r ++ t) fun _ => hr.stops_items t
      rw [List.append_assoc, List.append_assoc, shown_readItems_item hsep rfl hc, hvalue]
    cases ends with
    | false => exact ⟨.item d .done, false, fun t _ => hread t⟩
    | true =>
      refine ⟨.item d items, ends', fun t _ => (hread t).trans ?_⟩
      have hrest : shown (readItems depth false (r ++ t)) =
          (items, if ends' then some t else none) := hitems t fun h => nomatch h
      change Prod.map _ id (shown (readItems depth false (r ++ t))) = _
      rw [hrest]
      rfl
  | endFields hg =>
    refine fun depth => ⟨.done, true, fun t _ => ?_⟩
    rw [Part.read, List.append_assoc]
    exact shown_readFields_close hg t
  | @field first sep q g g' v r hsep hq hg hg' hv hr ihv ihr =>
    intro depth
    obtain ⟨x, hx⟩ := stringBody_append hq
    obtain ⟨d, ends, hd⟩ := ihv depth
    obtain ⟨fields, ends', hfields⟩ := ihr depth
    have happend : ∀ t, sep ++ '"' :: (q ++ (g ++ ':' :: (g' ++ (v ++ r)))) ++ t =
        sep ++ '"' :: (q ++ (g ++ ':' :: (g' ++ (v ++ (r ++ t))))) := by
      intro t
      simp only [List.append_assoc, List.cons_append]
    cases x with
    | error e =>
      refine ⟨.failed e, false, fun t _ => ?_⟩
      rw [Part.read, happend, shown_readFields_field hsep, readField, if_neg (not_not.2 rfl), hx]
      rfl
    | ok cs =>
      have hread : ∀ t, shown (readFields depth first
          (sep ++ '"' :: (q ++ (g ++ ':' :: (g' ++ (v ++ r)))) ++ t)) =
          Prod.map (.field (String.ofList cs) d none) id (shown (readFields depth false (r ++ t))) := by
        intro t
        have hvalue : shown (readValue depth (g' ++ (v ++ (r ++ t)))) =
            (d, if ends then some (r ++ t) else none) := by
          rw [shown_readValue_congr (skipGaps_append hg' _)]
          exact hd (r ++ t) fun _ => hr.stops_fields t
        -- A value that is not read to its end is still spelled, so a step goes over it.
        have hstep : leaves (stepValue (g' ++ (v ++ (r ++ t)))) = .ok (r ++ t) := by
          rw [leaves_stepValue_congr (skipGaps_append hg' _)]
          exact hv.step_append fun _ => hr.stops_fields t
        rw [happend, shown_readFields_field hsep, readField_name hg (hx _), hvalue, hstep,
          behindField_ok]
      refine ⟨.field (String.ofList cs) d none fields, ends', fun t _ => (hread t).trans ?_⟩
      have hrest : shown (readFields depth false (r ++ t)) =
          (fields, if ends' then some t else none) := hfields t (by rintro ⟨⟩)
      rw [hrest]
      rfl

/-- A value that is read alone is read in front of what stops it. -/
theorem Spells.shown_append {depth : Nat} {w t : List Char} (h : Spells .value w) {d : Draft}
    {rest : Option (List Char)} (hread : shown (readValue depth w) = (d, rest)) (ht : Stops t) :
    shown (readValue depth (w ++ t)) = (d, rest.map fun _ => t) := by
  obtain ⟨d', ends, hall⟩ := h.readsAlike depth
  have halone := hall [] fun _ _ hc => nomatch hc
  rw [List.append_nil] at halone
  obtain ⟨rfl, rfl⟩ := Prod.mk.inj (hread.symm.trans halone)
  exact (hall t fun _ => ht).trans (by cases ends <;> rfl)

end SchemaForest.Json
