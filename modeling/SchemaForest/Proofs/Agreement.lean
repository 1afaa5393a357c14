import SchemaForest.Ast.Document
import SchemaForest.Filter.Select
import SchemaForest.Proofs.DistinctNames
import SchemaForest.Proofs.Fallible

/-!
# Two ways to a source

A source is read from a text, or from the value that the text parses to.  On a text that is one value
without repeated names, both ways succeed with the same source or both fail
(`SourceFile.ofText_agree`).

1. The draft of a text may hold errors that nobody has met yet.  A draft that can be turned into a
   value holds none: it is the draft of that value (`Json.readValue_of_content`).  The induction
   follows the reader, and what it carries besides is that reading came to its end, since a value that
   could only be stepped over has left an error behind.
2. On one draft the two ways differ in how they report items that are too many, and in nothing that
   succeeds (`readSource_agree`).
3. Without repeated names nothing is collapsed on the way through a value, so the value leads to the
   draft of the text again (`Json.draft_of_unrepeated`).
-/

namespace SchemaForest

open Fallible

/-! ## Results that agree -/

/-- Two results succeed with the same value or both fail; the errors may differ. -/
def Agree {ε ε' α : Type} (x : Except ε α) (y : Except ε' α) : Prop := ∀ a, x = .ok a ↔ y = .ok a

namespace Agree

variable {ε ε' α β : Type} {x : Except ε α} {y : Except ε' α}

theorem refl (x : Except ε α) : Agree x x := fun _ => Iff.rfl

theorem of_errors (e : ε) (e' : ε') : Agree (.error e : Except ε α) (.error e' : Except ε' α) :=
  fun _ => ⟨fun h => (nomatch h), fun h => (nomatch h)⟩

theorem bind (h : Agree x y) {f : α → Except ε β} {g : α → Except ε' β}
    (hfg : ∀ a, Agree (f a) (g a)) : Agree (x >>= f) (y >>= g) := by
  intro b
  rw [bind_eq_ok_iff, bind_eq_ok_iff]
  exact exists_congr fun a => and_congr (h a) (hfg a b)

theorem map (h : Agree x y) (f : α → β) : Agree (x.map f) (y.map f) := by
  intro b
  rw [map_eq_ok_iff, map_eq_ok_iff]
  exact exists_congr fun a => and_congr_left' (h a)

theorem toOption_eq (h : Agree x y) : x.toOption = y.toOption := by
  cases x with
  | ok a => rw [(h a).1 rfl]; rfl
  | error e =>
    cases y with
    | ok a => exact absurd ((h a).2 rfl) (by intro hok; cases hok)
    | error e' => rfl

end Agree

theorem Located.within_eq_ok_iff {ε α : Type} {step : Step} {x : Except (Located ε) α} {a : α} :
    Located.within step x = .ok a ↔ x = .ok a := by
  cases x with
  | ok b => exact Iff.rfl
  | error e => exact ⟨fun h => (nomatch h), fun h => (nomatch h)⟩

theorem Agree.within {ε α : Type} {x y : Except (Located ε) α} (h : Agree x y) (step : Step) :
    Agree (Located.within step x) (Located.within step y) := by
  intro a
  rw [Located.within_eq_ok_iff, Located.within_eq_ok_iff]
  exact h a

/-! ## Drafts of complete texts -/

namespace Draft

theorem contentItems_item_eq_ok_iff {i : Nat} {d : Draft} {rest : DraftItems} {vs : List Json} :
    contentItems i (.item d rest) = .ok vs ↔
      ∃ v, d.content = .ok v ∧ ∃ ws, contentItems (i + 1) rest = .ok ws ∧ v :: ws = vs := by
  rw [contentItems, bind_eq_ok_iff]
  refine exists_congr fun v => and_congr Located.within_eq_ok_iff ?_
  rw [bind_eq_ok_iff]
  exact exists_congr fun ws => and_congr_right fun _ => ⟨Except.ok.inj, congrArg Except.ok⟩

theorem contentFields_field_eq_ok_iff {name : String} {d : Draft} {e? : Option SyntaxError}
    {rest : DraftFields} {fs : List (String × Json)} :
    contentFields (.field name d e? rest) = .ok fs ↔
      ∃ v, d.content = .ok v ∧ ∃ gs, contentFields rest = .ok gs ∧ (name, v) :: gs = fs := by
  rw [contentFields, bind_eq_ok_iff]
  refine exists_congr fun v => and_congr Located.within_eq_ok_iff ?_
  rw [bind_eq_ok_iff]
  exact exists_congr fun gs => and_congr_right fun _ => ⟨Except.ok.inj, congrArg Except.ok⟩

end Draft

namespace Json

/-- What reads as neither an array nor an object: a word, a string or a number. -/
theorem readScalar_cases {c : Char} {r : List Char} {d : Draft} {t : After (c :: r)}
    (h : readScalar c r = .ok (d, t)) :
    d = .null ∨ (∃ b, d = .bool b) ∨ (∃ s, d = .string s) ∨
      ∃ negative s n t', unsigned s = .ok (n, t') ∧ d = numberDraft negative n := by
  unfold readScalar at h
  dsimp only at h
  split at h
  · obtain ⟨⟨n, t'⟩, hn, heq⟩ := map_eq_ok_iff.1 h
    cases heq
    exact .inr (.inr (.inr ⟨false, _, n, t', hn, rfl⟩))
  · split at h
    · obtain ⟨t', -, heq⟩ := map_eq_ok_iff.1 h
      cases heq
      exact .inl rfl
    · obtain ⟨t', -, heq⟩ := map_eq_ok_iff.1 h
      cases heq
      exact .inr (.inl ⟨true, rfl⟩)
    · obtain ⟨t', -, heq⟩ := map_eq_ok_iff.1 h
      cases heq
      exact .inr (.inl ⟨false, rfl⟩)
    · obtain ⟨⟨cs, t'⟩, -, heq⟩ := map_eq_ok_iff.1 h
      cases heq
      exact .inr (.inr (.inl ⟨_, rfl⟩))
    · obtain ⟨⟨n, t'⟩, hn, heq⟩ := map_eq_ok_iff.1 h
      cases heq
      exact .inr (.inr (.inr ⟨true, _, n, t', hn, rfl⟩))
    · cases h

/-- A number is an integer, up to its sign the one that was read, or a floating point number. -/
theorem numberDraft_cases (negative : Bool) (n : Nat ⊕ Double) :
    (∃ m : Nat, n = .inl m ∧ numberDraft negative n = .integer m) ∨
    (∃ m : Nat, n = .inl m ∧ m ≤ 1 <<< 63 ∧ numberDraft negative n = .integer (-m)) ∨
    ∃ x, numberDraft negative n = .float x := by
  cases n with
  | inr x => exact .inr (.inr ⟨_, rfl⟩)
  | inl m =>
    rw [numberDraft]
    split
    · exact .inl ⟨m, rfl, rfl⟩
    · split
      · exact .inr (.inr ⟨_, rfl⟩)
      · rename_i hsmall
        exact .inr (.inl ⟨m, rfl, by omega, rfl⟩)

/-- A word, a string or a number is a value, and has no names. -/
theorem readScalar_eq_ofJson {c : Char} {r : List Char} {d : Draft} {t : After (c :: r)}
    (h : readScalar c r = .ok (d, t)) : ∃ v, d = .ofJson v ∧ v.Distinct := by
  obtain rfl | ⟨b, rfl⟩ | ⟨s, rfl⟩ | ⟨negative, s, n, t', -, rfl⟩ := readScalar_cases h
  · exact ⟨.null, rfl, trivial⟩
  · exact ⟨.bool b, rfl, trivial⟩
  · exact ⟨.string s, rfl, trivial⟩
  · obtain ⟨m, -, heq⟩ | ⟨m, -, -, heq⟩ | ⟨x, heq⟩ := numberDraft_cases negative n
    · exact ⟨.integer m, heq, trivial⟩
    · exact ⟨.integer (-m), heq, trivial⟩
    · exact ⟨.float x, heq, trivial⟩

/-- What reading a value can end in: an error, a container or a value without parts.  The rest is
    there exactly if the container has come to its end. -/
theorem readValue_cases (depth : Nat) (s : List Char) :
    (∃ e, (readValue depth s).1 = .broken e) ∨
    (∃ d r, r.length < s.length ∧ (readValue depth s).1 = .array (readItems d true r).1 ∧
      (readValue depth s).2.isSome = (readItems d true r).2.isSome) ∨
    (∃ d r, r.length < s.length ∧ (readValue depth s).1 = .object (readFields d true r).1 ∧
      (readValue depth s).2.isSome = (readFields d true r).2.isSome) ∨
    ∃ v, (readValue depth s).1 = .ofJson v ∧ (readValue depth s).2.isSome := by
  rw [readValue]
  split
  · exact .inl ⟨_, rfl⟩
  · rename_i c r hs
    have hr : r.length < s.length := by
      have hle := length_skipGaps_le s
      rw [hs, List.length_cons] at hle
      exact hle
    dsimp only
    split
    · split
      · exact .inl ⟨_, rfl⟩
      · exact .inr (.inl ⟨_, r, hr, rfl, by rw [Option.isSome_map]⟩)
    · split
      · split
        · exact .inl ⟨_, rfl⟩
        · exact .inr (.inr (.inl ⟨_, r, hr, rfl, by rw [Option.isSome_map]⟩))
      · split
        · exact .inl ⟨_, rfl⟩
        · rename_i d t hscalar
          obtain ⟨v, rfl, -⟩ := readScalar_eq_ofJson hscalar
          exact .inr (.inr (.inr ⟨v, rfl, rfl⟩))

/-- What reading items can end in.  A value behind which reading cannot go on is the last item. -/
theorem readItems_cases (depth : Nat) (first : Bool) (s : List Char) :
    (∃ e, (readItems depth first s).1 = .failed e) ∨
    ((readItems depth first s).1 = .done ∧ (readItems depth first s).2.isSome) ∨
    ∃ v : Rest s,
      ((readValue depth v.val).2 = none ∧
        (readItems depth first s).1 = .item (readValue depth v.val).1 .done) ∨
      ∃ t : After v.val,
        (readItems depth first s).1 =
          .item (readValue depth v.val).1 (readItems depth false t.val).1 ∧
        (readItems depth first s).2.isSome = (readItems depth false t.val).2.isSome := by
  rw [readItems]
  split
  · exact .inl ⟨_, rfl⟩
  · split
    · exact .inr (.inl ⟨rfl, rfl⟩)
    · dsimp only
      split
      · exact .inl ⟨_, rfl⟩
      · rename_i v hv
        refine .inr (.inr ⟨v, ?_⟩)
        split
        · rename_i d hd
          exact .inl ⟨by rw [hd], by rw [hd]⟩
        · rename_i d t hd
          exact .inr ⟨t, by rw [hd], by rw [Option.isSome_map]⟩

/-- What reading fields can end in.  Behind a value that could only be stepped over there may be more
    fields, which the draft then shows. -/
theorem readFields_cases (depth : Nat) (first : Bool) (s : List Char) :
    (∃ e, (readFields depth first s).1 = .failed e) ∨
    (∃ name e, (readFields depth first s).1 = .unvalued name e) ∨
    ((readFields depth first s).1 = .done ∧ (readFields depth first s).2.isSome) ∨
    ∃ name, ∃ v : After s,
      ((readValue depth v.val).2 = none ∧ ∃ e? rest,
        (readFields depth first s).1 = .field name (readValue depth v.val).1 e? rest) ∨
      ∃ t : After v.val,
        (readFields depth first s).1 =
          .field name (readValue depth v.val).1 none (readFields depth false t.val).1 ∧
        (readFields depth first s).2.isSome = (readFields depth false t.val).2.isSome := by
  rw [readFields]
  split
  · exact .inl ⟨_, rfl⟩
  · split
    · exact .inr (.inr (.inl ⟨rfl, rfl⟩))
    · dsimp only
      split
      · exact .inl ⟨_, rfl⟩
      · exact .inl ⟨_, rfl⟩
      · rename_i q k hq hfield
        split
        · exact .inl ⟨_, rfl⟩
        · split
          · exact .inl ⟨_, rfl⟩
          · rename_i cs k' hbody
            split
            · exact .inr (.inl ⟨_, _, rfl⟩)
            · rename_i v hcolon
              have hv : v.val.length < s.length := by
                have h₁ := v.property
                have h₂ := k'.property
                rw [List.length_cons] at hq
                omega
              refine .inr (.inr (.inr ⟨String.ofList cs, ⟨v.val, hv⟩, ?_⟩))
              split
              · rename_i d t hd
                exact .inr ⟨t, by rw [hd], by rw [Option.isSome_map]⟩
              · rename_i d hd
                refine .inl ⟨by rw [hd], ?_⟩
                split
                · exact ⟨_, _, by rw [hd]⟩
                · exact ⟨_, _, by rw [hd]⟩

mutual
/-- A draft of a text without errors is the draft of its value, and reading came to its end. -/
theorem readValue_of_content (depth : Nat) (s : List Char) {v : Json}
    (h : (readValue depth s).1.content = .ok v) :
    (readValue depth s).1 = .ofJson v ∧ (readValue depth s).2.isSome := by
  obtain ⟨e, he⟩ | ⟨d, r, hr, hdraft, hend⟩ | ⟨d, r, hr, hdraft, hend⟩ | ⟨w, hdraft, hend⟩ :=
    readValue_cases depth s
  · rw [he] at h
    cases h
  · rw [hdraft, Draft.content] at h
    obtain ⟨vs, hvs, rfl⟩ := map_eq_ok_iff.1 h
    obtain ⟨hitems, hsome⟩ := readItems_of_content d true r hvs
    rw [hdraft, hend, hitems, Draft.ofJson]
    exact ⟨rfl, hsome⟩
  · rw [hdraft, Draft.content] at h
    obtain ⟨fs, hfs, rfl⟩ := map_eq_ok_iff.1 h
    obtain ⟨hfields, hsome⟩ := readFields_of_content d true r hfs
    rw [hdraft, hend, hfields, Draft.ofJson]
    exact ⟨rfl, hsome⟩
  · rw [hdraft, Draft.content_ofJson] at h
    obtain rfl := Except.ok.inj h
    exact ⟨hdraft, hend⟩
termination_by (s.length, 0)
decreasing_by all_goals exact Prod.Lex.left _ _ hr

theorem readItems_of_content (depth : Nat) (first : Bool) (s : List Char) {i : Nat}
    {vs : List Json} (h : Draft.contentItems i (readItems depth first s).1 = .ok vs) :
    (readItems depth first s).1 = Draft.ofItems vs ∧ (readItems depth first s).2.isSome := by
  obtain ⟨e, he⟩ | ⟨hdraft, hend⟩ | ⟨⟨v, hv⟩, ⟨hstop, hdraft⟩ | ⟨⟨t, ht⟩, hdraft, hend⟩⟩ :=
    readItems_cases depth first s
  · rw [he] at h
    cases h
  · rw [hdraft] at h
    obtain rfl := Except.ok.inj h
    exact ⟨hdraft, hend⟩
  · -- Behind this value reading has stopped, so it is in error.
    rw [hdraft, Draft.contentItems_item_eq_ok_iff] at h
    obtain ⟨w, hw, -⟩ := h
    have hsome := (readValue_of_content depth v hw).2
    rw [hstop] at hsome
    cases hsome
  · rw [hdraft, Draft.contentItems_item_eq_ok_iff] at h
    obtain ⟨w, hw, ws, hws, rfl⟩ := h
    obtain ⟨hitems, hsome⟩ := readItems_of_content depth false t hws
    rw [hdraft, hend, hitems, (readValue_of_content depth v hw).1, Draft.ofItems]
    exact ⟨rfl, hsome⟩
termination_by (s.length, 1)
decreasing_by
  · exact Prod.Lex.right' _ hv Nat.zero_lt_one
  · exact Prod.Lex.left _ _ (Nat.lt_of_lt_of_le ht hv)
  · exact Prod.Lex.right' _ hv Nat.zero_lt_one

theorem readFields_of_content (depth : Nat) (first : Bool) (s : List Char)
    {fs : List (String × Json)} (h : Draft.contentFields (readFields depth first s).1 = .ok fs) :
    (readFields depth first s).1 = Draft.ofFields fs ∧ (readFields depth first s).2.isSome := by
  obtain ⟨e, he⟩ | ⟨name, e, he⟩ | ⟨hdraft, hend⟩ |
    ⟨name, ⟨v, hv⟩, ⟨hstop, e?, rest, hdraft⟩ | ⟨⟨t, ht⟩, hdraft, hend⟩⟩ :=
    readFields_cases depth first s
  · rw [he] at h
    cases h
  · rw [he] at h
    cases h
  · rw [hdraft] at h
    obtain rfl := Except.ok.inj h
    exact ⟨hdraft, hend⟩
  · -- Behind this value reading has stopped or gone on by a step, so the value is in error.
    rw [hdraft, Draft.contentFields_field_eq_ok_iff] at h
    obtain ⟨w, hw, -⟩ := h
    have hsome := (readValue_of_content depth v hw).2
    rw [hstop] at hsome
    cases hsome
  · rw [hdraft, Draft.contentFields_field_eq_ok_iff] at h
    obtain ⟨w, hw, gs, hgs, rfl⟩ := h
    obtain ⟨hfields, hsome⟩ := readFields_of_content depth false t hgs
    rw [hdraft, hend, hfields, (readValue_of_content depth v hw).1, Draft.ofFields]
    exact ⟨rfl, hsome⟩
termination_by (s.length, 1)
decreasing_by
  · exact Prod.Lex.left _ _ hv
  · exact Prod.Lex.left _ _ (Nat.lt_trans ht hv)
  · exact Prod.Lex.left _ _ hv
end

/-- No object in the text repeats a name. -/
def Unrepeated (text : String) : Prop :=
  ∀ w, (Draft.ofText text).content = .ok w → w.Distinct

/-- A text that is one value shows the draft of that value, unless it was collapsed. -/
theorem draft_of_unrepeated {text : String} {v : Json} (h : ofText text = .ok v)
    (hunrepeated : Unrepeated text) : Draft.ofText text = .ofJson v := by
  unfold ofText at h
  dsimp only at h
  split at h
  · cases h
  · rename_i w hcontent
    obtain ⟨-, hv⟩ : _ ∧ w.collapse = v := by
      split at h
      · exact ⟨‹_›, Except.ok.inj h⟩
      · cases h
    rw [← hv, collapse_of_distinct (hunrepeated w hcontent)]
    exact (readValue_of_content _ _ hcontent).1

end Json

/-! ## Readers of one draft -/

/-- Items that are too many are a fault wherever a record stands. -/
theorem surplus?_eq_none_iff {origin : Origin} {rest : DraftItems} :
    surplus? origin rest = none ↔ rest = .done := by
  cases rest with
  | done => cases origin <;> exact iff_of_true rfl rfl
  | failed e => cases origin <;> exact iff_of_false (Option.some_ne_none _) (by intro h; cases h)
  | item d rest => cases origin <;> exact iff_of_false (Option.some_ne_none _) (by intro h; cases h)

section Pair

variable {α β : Type} {m n : String} {r r' : Draft → Except DecodeError α}
  {q q' : Draft → Except DecodeError β} {x₀ : Option α} {y₀ : Option β}

theorem pairFields_agree (hr : ∀ d, Agree (r d) (r' d)) (hq : ∀ d, Agree (q d) (q' d)) :
    ∀ (fields : DraftFields) (x : Option α) (y : Option β),
      Agree (pairFields ⟨m, r, x₀⟩ ⟨n, q, y₀⟩ x y fields)
        (pairFields ⟨m, r', x₀⟩ ⟨n, q', y₀⟩ x y fields)
  | .done, x, y => .refl (.ok (x, y))
  | .failed e, _, _ => .of_errors _ _
  | .unvalued name e, x, y => by
    rw [pairFields, pairFields]
    exact .refl _
  | .field name v stepped rest, x, y => by
    unfold pairFields
    by_cases hm : name = m
    · rw [if_pos hm, if_pos hm]
      by_cases hx : x.isSome
      · rw [if_pos hx, if_pos hx]
        exact .refl _
      · rw [if_neg hx, if_neg hx]
        exact ((hr v).within _).bind fun x' => pairFields_agree hr hq rest (some x') y
    · rw [if_neg hm, if_neg hm]
      by_cases hn : name = n
      · rw [if_pos hn, if_pos hn]
        by_cases hy : y.isSome
        · rw [if_pos hy, if_pos hy]
          exact .refl _
        · rw [if_neg hy, if_neg hy]
          exact ((hq v).within _).bind fun y' => pairFields_agree hr hq rest x (some y')
      · rw [if_neg hn, if_neg hn]
        cases stepped with
        | some e => exact .refl _
        | none => exact pairFields_agree hr hq rest x y

theorem pairItems_agree (hr : ∀ d, Agree (r d) (r' d)) (hq : ∀ d, Agree (q d) (q' d))
    (origin origin' : Origin) (expected : String) (items : DraftItems) :
    Agree (pairItems ⟨m, r, x₀⟩ ⟨n, q, y₀⟩ origin expected items)
      (pairItems ⟨m, r', x₀⟩ ⟨n, q', y₀⟩ origin' expected items) := by
  cases items with
  | done => exact .refl _
  | failed e => exact .refl _
  | item v rest =>
    refine ((hr v).within _).bind fun x => ?_
    cases rest with
    | done => exact .refl _
    | failed e => exact .refl _
    | item w rest =>
      refine ((hq w).within _).bind fun y => ?_
      cases hs : surplus? origin rest with
      | none =>
        have hs' : surplus? origin' rest = none :=
          surplus?_eq_none_iff.2 (surplus?_eq_none_iff.1 hs)
        rw [hs']
        exact .refl _
      | some fault =>
        cases hs' : surplus? origin' rest with
        | none =>
          rw [surplus?_eq_none_iff.2 (surplus?_eq_none_iff.1 hs')] at hs
          cases hs
        | some fault' => exact .of_errors _ _

theorem readPair_agree (hr : ∀ d, Agree (r d) (r' d)) (hq : ∀ d, Agree (q d) (q' d))
    (origin origin' : Origin) (typeName : String) (d : Draft) :
    Agree (readPair ⟨m, r, x₀⟩ ⟨n, q, y₀⟩ origin typeName d)
      (readPair ⟨m, r', x₀⟩ ⟨n, q', y₀⟩ origin' typeName d) := by
  cases d with
  | object fields => exact (pairFields_agree hr hq fields none none).bind fun _ => .refl _
  | array items => exact pairItems_agree hr hq origin origin' _ items
  | _ => exact .refl _

end Pair

theorem readItemsWith_agree {α : Type} {read read' : Draft → Except DecodeError α}
    (h : ∀ d, Agree (read d) (read' d)) : ∀ (items : DraftItems) (i : Nat),
      Agree (readItemsWith read i items) (readItemsWith read' i items)
  | .done, _ => .refl (.ok [])
  | .failed _, _ => .of_errors _ _
  | .item v rest, i =>
    ((h v).within _).bind fun _ => (readItemsWith_agree h rest (i + 1)).bind fun _ => .refl _

theorem readList_agree {α : Type} {read read' : Draft → Except DecodeError α}
    (h : ∀ d, Agree (read d) (read' d)) (d : Draft) : Agree (readList read d) (readList read' d) := by
  cases d with
  | array items => exact readItemsWith_agree h items 0
  | _ => exact .refl _

theorem readSpan_agree (origin origin' : Origin) (d : Draft) :
    Agree (readSpan origin d) (readSpan origin' d) :=
  (readPair_agree (fun _ => .refl _) (fun _ => .refl _) origin origin' "Span" d).map _

theorem readComment_agree (origin origin' : Origin) (d : Draft) :
    Agree (readComment origin d) (readComment origin' d) :=
  (readPair_agree (fun _ => .refl _) (readSpan_agree origin origin') origin origin' "Comment" d).map _

/-- Where a draft comes from makes no difference to what succeeds. -/
theorem readSource_agree (origin origin' : Origin) (d : Draft) :
    Agree (readSource origin d) (readSource origin' d) :=
  (readPair_agree (fun _ => .refl _) (readList_agree (readComment_agree origin origin')) origin
    origin' "SourceFile" d).map _

/-! ## Texts and values -/

theorem SourceFile.ofText_agree {text : String} {v : Json} (h : Json.ofText text = .ok v)
    (hunrepeated : Json.Unrepeated text) : Agree (SourceFile.ofText text) (SourceFile.ofJson v) := by
  rw [SourceFile.ofText, SourceFile.ofJson, Json.draft_of_unrepeated h hunrepeated]
  exact readSource_agree .text .value (.ofJson v)

/-! ## Filters that hand on what they are given -/

namespace Filter

/-- The filter gives its input and nothing else. -/
def HandsOn (interpret : Interpreter) (filter : String) (v : Json) : Prop :=
  interpret filter v = .ok (.one (.ofJson v))

theorem documents_one (v : Value) : documents (.one v) = (reread v).map ([·]) := by
  have hresults : (Stream.one v).results = [.ok v] := rfl
  rw [documents, hresults, mapM_cons, document]
  cases reread v <;> rfl

/-- What is handed on passes through its text. -/
theorem HandsOn.select_eq {interpret : Interpreter} {filter : String} {v : Json}
    (h : HandsOn interpret filter v) : interpret.select filter v = reread (.ofJson v) := by
  rw [Interpreter.select, Interpreter.run, h]
  dsimp only
  rw [documents_one]
  cases reread (.ofJson v) <;> rfl

/-- The filter of a single point hands on what it is given. -/
theorem handsOn_identity (v : Json) : HandsOn evaluate "." v := by
  have htokens : Token.ofText "." = some [.symbol "."] := by decide +kernel
  have hterm : Term.ofText? "." = some .identity := by
    rw [Term.ofText?, htokens]
    rfl
  have hclosed : Term.identity.isClosed known = true := rfl
  rw [HandsOn, evaluate, hterm]
  dsimp only
  rw [if_pos hclosed]
  rfl

end Filter

end SchemaForest
