import SchemaForest.Proofs.Spelling

/-!
# Steps over values

A step over a value goes over one word of the grammar and no further: what it went over is spelled
(`exists_spells_value`), and over what is spelled it goes to the end (`Spells.step_append`).  Both are
inductions, the first along the steps and the second along the grammar.

Between the two stand equations for each step (`leaves_stepValue`, `leaves_stepItems`,
`leaves_stepFields`), in which a text appears only behind its blanks.
-/

namespace SchemaForest.Json

open Fallible

/-! ## Words, strings and numbers -/

theorem leaves_stepScalar_word {c : Char} {w : List Char} (h : c :: w ∈ words) (r : List Char) :
    leaves (stepScalar c r) = leaves (word w r) := by
  simp only [words, List.mem_cons, List.not_mem_nil, or_false, List.cons.injEq] at h
  rcases h with ⟨rfl, rfl⟩ | ⟨rfl, rfl⟩ | ⟨rfl, rfl⟩
  · exact leaves_map (After.ofRest 'n') (fun _ => rfl) _
  · exact leaves_map (After.ofRest 't') (fun _ => rfl) _
  · exact leaves_map (After.ofRest 'f') (fun _ => rfl) _

theorem leaves_stepScalar_digit {c : Char} (h : c.isDigit = true) (r : List Char) :
    leaves (stepScalar c r) = leaves (stepUnsigned (c :: r)) := by
  unfold stepScalar
  rw [if_pos h]

theorem leaves_stepScalar_quote (r : List Char) :
    leaves (stepScalar '"' r) = leaves (stepString r) :=
  leaves_map (After.ofRest '"') (fun _ => rfl) _

theorem leaves_stepScalar_minus (r : List Char) :
    leaves (stepScalar '-' r) = leaves (stepUnsigned r) :=
  leaves_map (After.cons '-') (fun _ => rfl) _

theorem exists_spells_scalar {c : Char} {r t : List Char} (h : leaves (stepScalar c r) = .ok t) :
    ∃ w, Spells .value w ∧ c :: r = w ++ t := by
  unfold stepScalar at h
  split at h
  · obtain ⟨n, hn, hr⟩ := exists_isUnsigned h
    exact ⟨n, .positive hn, hr⟩
  · split at h
    all_goals try rw [leaves_map (After.ofRest _) fun _ => rfl] at h
    · exact ⟨['n', 'u', 'l', 'l'], .word (by decide), by rw [leaves_word_eq_ok_iff.1 h]; rfl⟩
    · exact ⟨['t', 'r', 'u', 'e'], .word (by decide), by rw [leaves_word_eq_ok_iff.1 h]; rfl⟩
    · exact ⟨['f', 'a', 'l', 's', 'e'], .word (by decide), by rw [leaves_word_eq_ok_iff.1 h]; rfl⟩
    · obtain ⟨q, hq, rfl⟩ := exists_isQuoted h
      exact ⟨_, .string hq, rfl⟩
    · rw [leaves_map (After.cons _) fun _ => rfl] at h
      obtain ⟨n, hn, rfl⟩ := exists_isUnsigned h
      exact ⟨_, .negative hn, rfl⟩
    · cases h

/-! ## Values -/

theorem leaves_stepValue_nil {s : List Char} (h : skipGaps s = []) :
    leaves (stepValue s) = .error .endInValue := by
  rw [stepValue]
  split
  · rfl
  · rename_i hcons
    cases h.symm.trans hcons

theorem leaves_stepValue {s r : List Char} {c : Char} (h : skipGaps s = c :: r) :
    leaves (stepValue s) =
      if c = '[' then leaves (stepItems true r)
      else if c = '\x7b' then leaves (stepFields true r)
      else leaves (stepScalar c r) := by
  have hs : (c :: r).length ≤ s.length := h ▸ length_skipGaps_le s
  rw [stepValue]
  split
  · rename_i hnil
    rw [h] at hnil
    cases hnil
  · rename_i c' r' hcons
    obtain ⟨rfl, rfl⟩ := List.cons.inj (h.symm.trans hcons)
    dsimp only
    split
    · exact leaves_map (fun t : After r => (t.cons c).widen hs) (fun _ => rfl) _
    · split
      · exact leaves_map (fun t : After r => (t.cons c).widen hs) (fun _ => rfl) _
      · exact leaves_map (After.widen hs) (fun _ => rfl) _

/-- The text of a part of a container, behind the comma that a later part needs. -/
def partStart (first : Bool) (missing : SyntaxError) (c : Char) (r : List Char) :
    Except SyntaxError (List Char) :=
  if first then .ok (c :: r) else if c = ',' then .ok r else .error missing

theorem leaves_start {s : List Char} (first : Bool) (missing : SyntaxError) {c : Char}
    {r : List Char} (h : (c :: r).length ≤ s.length) :
    leaves (if first then .ok (⟨c :: r, h⟩ : Rest s)
      else if c = ',' then .ok ⟨r, Nat.le_of_succ_le h⟩ else .error missing) =
      partStart first missing c r := by
  unfold partStart
  split_ifs <;> rfl

theorem leaves_stepItems_nil {first : Bool} {s : List Char} (h : skipGaps s = []) :
    leaves (stepItems first s) = .error .endInList := by
  rw [stepItems]
  split
  · rfl
  · rename_i hcons
    cases h.symm.trans hcons

theorem leaves_stepItems {first : Bool} {s r : List Char} {c : Char} (h : skipGaps s = c :: r) :
    leaves (stepItems first s) =
      if c = ']' then .ok r
      else partStart first .noListComma c r >>= fun v => leaves (stepValue v) >>= fun t =>
        leaves (stepItems false t) := by
  rw [stepItems]
  split
  · rename_i hnil
    rw [h] at hnil
    cases hnil
  · rename_i c' r' hcons
    obtain ⟨rfl, rfl⟩ := List.cons.inj (h.symm.trans hcons)
    have hs : (c :: r).length ≤ s.length := h ▸ length_skipGaps_le s
    dsimp only
    split
    · rfl
    · rw [← leaves_start first .noListComma hs]
      split
      · rename_i e hitem
        rw [hitem]
        rfl
      · rename_i v hitem
        rw [hitem]
        change _ = leaves (stepValue v.val) >>= _
        split
        · rename_i e hvalue
          rw [hvalue]
          rfl
        · rename_i t hvalue
          rw [hvalue]
          exact leaves_map (After.widen (Nat.le_of_lt (Nat.lt_of_lt_of_le t.property v.property)))
            (fun _ => rfl) (stepItems false t.val)

/-- The text behind the colon of a field that begins here. -/
def stepName (f : List Char) : Except SyntaxError (List Char) :=
  match skipGaps f with
  | [] => .error .endInObject
  | q :: k =>
    if q ≠ '"' then .error .keyNotString
    else leaves (stepString k) >>= fun k' => leaves (colon k')

theorem stepName_cons {f k : List Char} {q : Char} (h : skipGaps f = q :: k) :
    stepName f = if q ≠ '"' then .error .keyNotString
      else leaves (stepString k) >>= fun k' => leaves (colon k') := by
  rw [stepName, h]

theorem leaves_stepFields_nil {first : Bool} {s : List Char} (h : skipGaps s = []) :
    leaves (stepFields first s) = .error .endInObject := by
  rw [stepFields]
  split
  · rfl
  · rename_i hcons
    cases h.symm.trans hcons

theorem leaves_stepFields {first : Bool} {s r : List Char} {c : Char} (h : skipGaps s = c :: r) :
    leaves (stepFields first s) =
      if c = '\x7d' then .ok r
      else partStart first .noObjectComma c r >>= fun f => stepName f >>= fun v =>
        leaves (stepValue v) >>= fun t => leaves (stepFields false t) := by
  rw [stepFields]
  split
  · rename_i hnil
    rw [h] at hnil
    cases hnil
  · rename_i c' r' hcons
    obtain ⟨rfl, rfl⟩ := List.cons.inj (h.symm.trans hcons)
    have hs : (c :: r).length ≤ s.length := h ▸ length_skipGaps_le s
    dsimp only
    split
    · rfl
    · rw [← leaves_start first .noObjectComma hs]
      split
      · rename_i e hfield
        rw [hfield]
        rfl
      · rename_i f hfield
        rw [hfield]
        change _ = stepName f.val >>= _
        split
        · rename_i hnil
          rw [stepName, hnil]
          rfl
        · rename_i q k hquote
          rw [stepName_cons hquote]
          split
          · rfl
          · split
            · rename_i e hname
              rw [hname]
              rfl
            · rename_i k' hname
              rw [hname]
              change _ = leaves (colon k'.val) >>= _
              split
              · rename_i e hcolon
                rw [hcolon]
                rfl
              · rename_i v hcolon
                rw [hcolon]
                change _ = leaves (stepValue v.val) >>= _
                split
                · rename_i e hvalue
                  rw [hvalue]
                  rfl
                · rename_i t hvalue
                  rw [hvalue]
                  change _ = leaves (stepFields false t.val)
                  cases stepFields false t.val <;> rfl

theorem leaves_colon_eq_ok_iff {s t : List Char} :
    leaves (colon s) = .ok t ↔ skipGaps s = ':' :: t := by
  unfold colon
  split
  · rename_i hnil
    rw [hnil]
    exact iff_of_false (by rintro ⟨⟩) (by rintro ⟨⟩)
  · rename_i c r hcons
    have hiff : skipGaps s = ':' :: t ↔ c = ':' ∧ r = t := hcons ▸ List.cons.injEq .. ▸ Iff.rfl
    rw [hiff]
    split
    · rename_i hc
      exact ⟨fun h => ⟨hc, Except.ok.inj h⟩, fun h => congrArg Except.ok h.2⟩
    · rename_i hc
      exact iff_of_false (by rintro ⟨⟩) fun h => hc h.1

theorem leaves_colon_append {g : List Char} (hg : IsBlank g) (s : List Char) :
    leaves (colon (g ++ ':' :: s)) = .ok s :=
  leaves_colon_eq_ok_iff.2 (skipGaps_blank hg rfl s)

/-! ## Steps follow the grammar -/

/-- The text behind a blank. -/
theorem exists_blank {s r : List Char} (h : skipGaps s = r) : ∃ g, IsBlank g ∧ s = g ++ r :=
  h ▸ exists_skipGaps s

/-- Nothing is left to skip. -/
theorem skipGaps_of_skipGaps {s t : List Char} (h : skipGaps s = t) : skipGaps t = t := by
  refine skipGaps_of_head fun c hc => ?_
  have hhead := List.head?_dropWhile_not isGap s
  rw [← h, skipGaps, Option.mem_def] at hc
  rw [hc] at hhead
  exact hhead

theorem length_lt_of_skipGaps {s r : List Char} {c : Char} (h : skipGaps s = c :: r) :
    r.length < s.length := by
  have hle := length_skipGaps_le s
  rw [h] at hle
  exact hle

theorem exists_separator {first : Bool} {missing : SyntaxError} {s r v : List Char} {c : Char}
    (hs : skipGaps s = c :: r) (h : partStart first missing c r = .ok v) :
    (∃ sep, IsSeparator first sep ∧ s = sep ++ skipGaps v) ∧ v.length ≤ s.length := by
  have hlength := length_skipGaps_le s
  rw [hs] at hlength
  obtain ⟨g, hg, hgs⟩ := exists_blank hs
  unfold partStart at h
  split_ifs at h with hfirst hc
  · obtain rfl := Except.ok.inj h
    rw [skipGaps_of_skipGaps hs]
    exact ⟨⟨g, hfirst ▸ .first hg, hgs⟩, hlength⟩
  · obtain rfl := Except.ok.inj h
    obtain ⟨g', hg', hr⟩ := exists_skipGaps r
    refine ⟨⟨g ++ ',' :: g', Bool.eq_false_iff.2 hfirst ▸ .next hg hg', ?_⟩,
      Nat.le_of_succ_le hlength⟩
    rw [List.append_assoc, List.cons_append, ← hr, ← hc, hgs]

theorem exists_name {f v : List Char} (h : stepName f = .ok v) :
    ∃ q g, IsQuoted q ∧ IsBlank g ∧ skipGaps f = '"' :: (q ++ (g ++ ':' :: v)) := by
  unfold stepName at h
  split at h
  · cases h
  · rename_i c k hquote
    split_ifs at h with hc
    obtain ⟨k', hk, hcolon⟩ := bind_eq_ok_iff.1 h
    obtain ⟨q, hq, rfl⟩ := exists_isQuoted hk
    obtain ⟨g, hg, rfl⟩ := exists_blank (leaves_colon_eq_ok_iff.1 hcolon)
    exact ⟨q, g, hq, hg, by rw [hquote, not_not.1 hc]⟩

theorem length_lt_of_stepName {f v : List Char} (h : stepName f = .ok v) : v.length < f.length := by
  obtain ⟨q, g, -, -, hf⟩ := exists_name h
  have hle := length_skipGaps_le f
  rw [hf] at hle
  simp only [List.length_cons, List.length_append] at hle
  omega

mutual
theorem exists_spells_value {s t : List Char} (h : leaves (stepValue s) = .ok t) :
    ∃ w, Spells .value w ∧ skipGaps s = w ++ t := by
  cases hs : skipGaps s with
  | nil =>
    rw [leaves_stepValue_nil hs] at h
    cases h
  | cons c r =>
    have hr := length_lt_of_skipGaps hs
    rw [leaves_stepValue hs] at h
    split_ifs at h with harray hobject
    · obtain ⟨w, hw, hwt⟩ := exists_spells_items h
      exact ⟨_, .array hw, by rw [harray, hwt]; rfl⟩
    · obtain ⟨w, hw, hwt⟩ := exists_spells_fields h
      exact ⟨_, .object hw, by rw [hobject, hwt]; rfl⟩
    · exact exists_spells_scalar h
termination_by (s.length, 0)
decreasing_by all_goals exact Prod.Lex.left _ _ hr

theorem exists_spells_items {first : Bool} {s t : List Char}
    (h : leaves (stepItems first s) = .ok t) : ∃ w, Spells (.items first) w ∧ s = w ++ t := by
  cases hs : skipGaps s with
  | nil =>
    rw [leaves_stepItems_nil hs] at h
    cases h
  | cons c r =>
    rw [leaves_stepItems hs] at h
    split_ifs at h with hclose
    · obtain rfl := Except.ok.inj h
      obtain ⟨g, hg, hgs⟩ := exists_blank hs
      exact ⟨_, .endItems hg, by rw [hgs, hclose, List.append_assoc]; rfl⟩
    · obtain ⟨v, hstart, h⟩ := bind_eq_ok_iff.1 h
      obtain ⟨u, hvalue, hrest⟩ := bind_eq_ok_iff.1 h
      obtain ⟨⟨sep, hsep, hs'⟩, hv⟩ := exists_separator hs hstart
      have hu : u.length < v.length := of_leaves hvalue
      obtain ⟨w, hw, hvw⟩ := exists_spells_value hvalue
      obtain ⟨w', hw', hu'⟩ := exists_spells_items hrest
      refine ⟨_, .item hsep hw hw', ?_⟩
      rw [hs', hvw, hu', List.append_assoc, List.append_assoc]
termination_by (s.length, 1)
decreasing_by
  · exact Prod.Lex.right' _ hv Nat.zero_lt_one
  · exact Prod.Lex.left _ _ (Nat.lt_of_lt_of_le hu hv)

theorem exists_spells_fields {first : Bool} {s t : List Char}
    (h : leaves (stepFields first s) = .ok t) : ∃ w, Spells (.fields first) w ∧ s = w ++ t := by
  cases hs : skipGaps s with
  | nil =>
    rw [leaves_stepFields_nil hs] at h
    cases h
  | cons c r =>
    rw [leaves_stepFields hs] at h
    split_ifs at h with hclose
    · obtain rfl := Except.ok.inj h
      obtain ⟨g, hg, hgs⟩ := exists_blank hs
      exact ⟨_, .endFields hg, by rw [hgs, hclose, List.append_assoc]; rfl⟩
    · obtain ⟨f, hstart, h⟩ := bind_eq_ok_iff.1 h
      obtain ⟨v, hname, h⟩ := bind_eq_ok_iff.1 h
      obtain ⟨u, hvalue, hrest⟩ := bind_eq_ok_iff.1 h
      obtain ⟨⟨sep, hsep, hs'⟩, hf⟩ := exists_separator hs hstart
      obtain ⟨q, g, hq, hg, hfq⟩ := exists_name hname
      have hv : v.length < s.length := Nat.lt_of_lt_of_le (length_lt_of_stepName hname) hf
      have hu : u.length < v.length := of_leaves hvalue
      obtain ⟨g', hg', hvg⟩ := exists_skipGaps v
      obtain ⟨w, hw, hvw⟩ := exists_spells_value hvalue
      obtain ⟨w', hw', hu'⟩ := exists_spells_fields hrest
      refine ⟨_, .field hsep hq hg hg' hw hw', ?_⟩
      rw [hs', hfq, hvg, hvw, hu']
      simp only [List.append_assoc, List.cons_append]
termination_by (s.length, 1)
decreasing_by
  · exact Prod.Lex.left _ _ hv
  · exact Prod.Lex.left _ _ (Nat.lt_trans hu hv)
end

/-! ## What is spelled is stepped over -/

/-- A step over a part. -/
def Part.step : Part → List Char → Except SyntaxError (List Char)
  | .value, s => leaves (stepValue s)
  | .items first, s => leaves (stepItems first s)
  | .fields first, s => leaves (stepFields first s)

theorem stops_of_isGap {c : Char} (h : isGap c = true) :
    c.isDigit = false ∧ c ≠ '.' ∧ ¬(c = 'e' ∨ c = 'E') := by
  simp only [isGap, Bool.or_eq_true, beq_iff_eq] at h
  rcases h with ((rfl | rfl) | rfl) | rfl <;> decide

/-- Behind a number blanks may follow, and then whatever may follow the number. -/
theorem Stops.append {g s : List Char} (hg : IsBlank g) (hs : Stops s) : Stops (g ++ s) := by
  cases g with
  | nil => exact hs
  | cons c g => exact stops_cons (stops_of_isGap (hg c List.mem_cons_self))

theorem Spells.stops_items {r : List Char} (h : Spells (.items false) r) (t : List Char) :
    Stops (r ++ t) := by
  cases h with
  | endItems hg =>
    rw [List.append_assoc]
    exact .append hg (stops_cons (by decide))
  | item hsep _ _ =>
    cases hsep with
    | next hg _ =>
      rw [List.append_assoc, List.append_assoc]
      exact .append hg (stops_cons (by decide))

theorem Spells.stops_fields {r : List Char} (h : Spells (.fields false) r) (t : List Char) :
    Stops (r ++ t) := by
  cases h with
  | endFields hg =>
    rw [List.append_assoc]
    exact .append hg (stops_cons (by decide))
  | field hsep _ _ _ _ _ =>
    cases hsep with
    | next hg _ =>
      rw [List.append_assoc, List.append_assoc]
      exact .append hg (stops_cons (by decide))

/-- What a value can begin with. -/
def Opens (c : Char) : Prop := isGap c = false ∧ c ≠ ']' ∧ c ≠ '\x7d'

theorem opens_of_isDigit {c : Char} (h : c.isDigit = true) : Opens c := by
  refine ⟨?_, ?_, ?_⟩
  · rw [Bool.eq_false_iff]
    intro hgap
    rw [(stops_of_isGap hgap).1] at h
    cases h
  · rintro rfl
    cases h
  · rintro rfl
    cases h

theorem IsUnsigned.exists_cons {n : List Char} (h : IsUnsigned n) :
    ∃ c r, n = c :: r ∧ c.isDigit = true := by
  have hwhole : ∀ {ds : List Char}, IsWhole ds → ∀ e, ∃ c r, ds ++ e = c :: r ∧ c.isDigit = true := by
    intro ds hds e
    obtain ⟨c, r, rfl⟩ := List.exists_cons_of_ne_nil hds.ne_nil
    exact ⟨c, r ++ e, rfl, hds.digits c List.mem_cons_self⟩
  cases h with
  | whole hds _ => exact hwhole hds _
  | fraction hds _ _ => exact hwhole hds _

theorem Spells.exists_cons {w : List Char} (h : Spells .value w) : ∃ c r, w = c :: r ∧ Opens c := by
  cases h with
  | word hw =>
    have hwords : ∀ w ∈ words, ∃ c r, w = c :: r ∧ Opens c := by
      simp [words, Opens, isGap]
    exact hwords _ hw
  | positive hn =>
    obtain ⟨c, r, hcons, hc⟩ := hn.exists_cons
    exact ⟨c, r, hcons, opens_of_isDigit hc⟩
  | _ => exact ⟨_, _, rfl, by unfold Opens; decide⟩

/-- Behind the blanks of a separator stands its comma, or what it separates. -/
theorem skipGaps_separator {first : Bool} {sep s : List Char} (hsep : IsSeparator first sep)
    (hs : skipGaps s = s) :
    (first = true ∧ skipGaps (sep ++ s) = s) ∨
    (first = false ∧ ∃ r, skipGaps (sep ++ s) = ',' :: r ∧ skipGaps r = s) := by
  cases hsep with
  | first hg => exact .inl ⟨rfl, by rw [skipGaps_append hg, hs]⟩
  | @next g g' hg hg' =>
    refine .inr ⟨rfl, g' ++ s, ?_, by rw [skipGaps_append hg', hs]⟩
    rw [List.append_assoc]
    exact skipGaps_blank hg rfl _

/-- Behind its separator a part begins. -/
theorem partStart_of_separator {first : Bool} {sep s : List Char} {d close : Char}
    (hsep : IsSeparator first sep) (hs : s.head? = some d) (hgap : isGap d = false)
    (hclose : d ≠ close) (hcomma : close ≠ ',') (missing : SyntaxError) :
    ∃ c r v, skipGaps (sep ++ s) = c :: r ∧ c ≠ close ∧
      partStart first missing c r = .ok v ∧ skipGaps v = s := by
  obtain ⟨r, rfl⟩ := List.head?_eq_some_iff.1 hs
  have hskip : skipGaps (d :: r) = d :: r := skipGaps_of_head (by rintro _ ⟨⟩; exact hgap)
  obtain ⟨rfl, hfront⟩ | ⟨rfl, r', hfront, hr'⟩ := skipGaps_separator hsep hskip
  · exact ⟨d, r, d :: r, hfront, hclose, rfl, hskip⟩
  · exact ⟨',', r', r', hfront, hcomma.symm, rfl, hr'⟩

/-- What a value other than a container begins with. -/
def OpensScalar (c : Char) : Prop := isGap c = false ∧ c ≠ '[' ∧ c ≠ '\x7b'

theorem opensScalar_of_isDigit {c : Char} (h : c.isDigit = true) : OpensScalar c := by
  refine ⟨(opens_of_isDigit h).1, ?_, ?_⟩
  · rintro rfl
    cases h
  · rintro rfl
    cases h

theorem exists_cons_of_mem_words : ∀ w ∈ words, ∃ c r, w = c :: r ∧ OpensScalar c := by
  simp [words, OpensScalar, isGap]

theorem leaves_stepValue_scalar {c : Char} (h : OpensScalar c) (r : List Char) :
    leaves (stepValue (c :: r)) = leaves (stepScalar c r) := by
  rw [leaves_stepValue (skipGaps_of_head (by rintro _ ⟨⟩; exact h.1)), if_neg h.2.1, if_neg h.2.2]

/-- A step over a value does not see the blanks in front. -/
theorem leaves_stepValue_congr {s s' : List Char} (h : skipGaps s = skipGaps s') :
    leaves (stepValue s) = leaves (stepValue s') := by
  cases hs : skipGaps s with
  | nil => rw [leaves_stepValue_nil hs, leaves_stepValue_nil (h ▸ hs)]
  | cons c r => rw [leaves_stepValue hs, leaves_stepValue (h ▸ hs)]

theorem leaves_stepItems_close {first : Bool} {g : List Char} (hg : IsBlank g) (t : List Char) :
    leaves (stepItems first (g ++ ']' :: t)) = .ok t := by
  rw [leaves_stepItems (skipGaps_blank hg rfl t), if_pos rfl]

theorem leaves_stepItems_item {first : Bool} {sep s : List Char} {d : Char}
    (hsep : IsSeparator first sep) (hs : s.head? = some d) (hd : Opens d) :
    leaves (stepItems first (sep ++ s)) =
      leaves (stepValue s) >>= fun t => leaves (stepItems false t) := by
  obtain ⟨c, r, v, hskip, hc, hstart, hv⟩ :=
    partStart_of_separator hsep hs hd.1 hd.2.1 (by decide) .noListComma
  have hvalue : leaves (stepValue v) = leaves (stepValue s) :=
    leaves_stepValue_congr (hv.trans (skipGaps_of_skipGaps hv).symm)
  rw [leaves_stepItems hskip, if_neg hc, hstart, ← hvalue]
  rfl

theorem leaves_stepFields_close {first : Bool} {g : List Char} (hg : IsBlank g) (t : List Char) :
    leaves (stepFields first (g ++ '\x7d' :: t)) = .ok t := by
  rw [leaves_stepFields (skipGaps_blank hg rfl t), if_pos rfl]

theorem leaves_stepFields_field {first : Bool} {sep q g s : List Char}
    (hsep : IsSeparator first sep) (hq : IsQuoted q) (hg : IsBlank g) :
    leaves (stepFields first (sep ++ '"' :: (q ++ (g ++ ':' :: s)))) =
      leaves (stepValue s) >>= fun t => leaves (stepFields false t) := by
  have hclose : '"' ≠ '\x7d' := by decide
  obtain ⟨c, r, f, hskip, hc, hstart, hf⟩ :=
    partStart_of_separator (s := '"' :: (q ++ (g ++ ':' :: s))) hsep rfl rfl hclose
      (by decide) .noObjectComma
  have hname : stepName f = .ok s := by
    rw [stepName_cons hf, if_neg (not_not.2 rfl), leaves_stepString_append hq]
    exact leaves_colon_append hg s
  rw [leaves_stepFields hskip, if_neg hc, hstart]
  change (stepName f >>= _) = _
  rw [hname]
  rfl

/-- Over what is spelled a step goes to its end. -/
theorem Spells.step_append {p : Part} {w : List Char} (h : Spells p w) :
    ∀ {t : List Char}, (p = .value → Stops t) → p.step (w ++ t) = .ok t := by
  induction h with
  | word hw =>
    intro t _
    obtain ⟨c, r, rfl, hc⟩ := exists_cons_of_mem_words _ hw
    exact (leaves_stepValue_scalar hc _).trans
      ((leaves_stepScalar_word hw _).trans (leaves_word_eq_ok_iff.2 rfl))
  | positive hn =>
    intro t ht
    obtain ⟨c, r, rfl, hc⟩ := hn.exists_cons
    exact (leaves_stepValue_scalar (opensScalar_of_isDigit hc) _).trans
      ((leaves_stepScalar_digit hc _).trans (leaves_stepUnsigned_append hn (ht rfl)))
  | negative hn =>
    intro t ht
    exact (leaves_stepValue_scalar ⟨rfl, by decide, by decide⟩ _).trans
      ((leaves_stepScalar_minus _).trans (leaves_stepUnsigned_append hn (ht rfl)))
  | string hq =>
    intro t _
    exact (leaves_stepValue_scalar ⟨rfl, by decide, by decide⟩ _).trans
      ((leaves_stepScalar_quote _).trans (leaves_stepString_append hq t))
  | array _ ih =>
    intro t _
    refine (leaves_stepValue (skipGaps_of_head (by rintro _ ⟨⟩; rfl))).trans ?_
    rw [if_pos rfl]
    exact ih fun h => nomatch h
  | object _ ih =>
    intro t _
    refine (leaves_stepValue (skipGaps_of_head (by rintro _ ⟨⟩; rfl))).trans ?_
    rw [if_neg (by decide), if_pos rfl]
    exact ih fun h => nomatch h
  | endItems hg =>
    intro t _
    rw [Part.step, List.append_assoc]
    exact leaves_stepItems_close hg t
  | @item first sep v r hsep hv hr ihv ihr =>
    intro t _
    obtain ⟨c, v', rfl, hc⟩ := hv.exists_cons
    have hvalue : leaves (stepValue (c :: v' ++ (r ++ t))) = .ok (r ++ t) :=
      ihv fun _ => hr.stops_items t
    have hrest : leaves (stepItems false (r ++ t)) = .ok t := ihr fun h => nomatch h
    rw [Part.step, List.append_assoc, List.append_assoc, leaves_stepItems_item hsep rfl hc, hvalue]
    exact hrest
  | endFields hg =>
    intro t _
    rw [Part.step, List.append_assoc]
    exact leaves_stepFields_close hg t
  | @field first sep q g g' v r hsep hq hg hg' hv hr ihv ihr =>
    intro t _
    have hvalue : leaves (stepValue (g' ++ (v ++ (r ++ t)))) = .ok (r ++ t) := by
      rw [leaves_stepValue_congr (skipGaps_append hg' _)]
      exact ihv fun _ => hr.stops_fields t
    have hrest : leaves (stepFields false (r ++ t)) = .ok t := ihr fun h => nomatch h
    have happend : sep ++ '"' :: (q ++ (g ++ ':' :: (g' ++ (v ++ r)))) ++ t =
        sep ++ '"' :: (q ++ (g ++ ':' :: (g' ++ (v ++ (r ++ t))))) := by
      simp only [List.append_assoc, List.cons_append]
    rw [Part.step, happend, leaves_stepFields_field hsep hq hg, hvalue]
    exact hrest

end SchemaForest.Json
