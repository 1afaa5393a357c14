import SchemaForest.Proofs.Agreement
import SchemaForest.Proofs.Extent
import SchemaForest.Proofs.Printing

/-!
# Values that pass through their texts

What a filter gives is printed and read again.  For a value that was read from a text this changes
nothing but floating point numbers, and each of these becomes what the text printed for it reads as
(`Json.ofText_text`).

1. A value that was read fits its reader (`Json.Fits`): it is nested no deeper than the reader goes, and
   its integers are those of sixty-four bits (`Json.fits_of_readValue`).
2. A value that fits is printed in one way for a whole text and for a part of it, and read back but for
   its floating point numbers.  The induction is on the value (`Json.gives_value`).  The first of these
   that is not read, being out of range, is the error of the whole.
-/

namespace SchemaForest

open Fallible
open SchemaForest.Filter (Value)

namespace Json

/-! ## Floating point numbers read again -/

mutual
/-- The value with every floating point number read again from what is printed for it. -/
def rereadFloats : Json → Except SyntaxError Json
  | .null => .ok .null
  | .bool b => .ok (.bool b)
  | .integer i => .ok (.integer i)
  | .float x => ofText (String.ofList (floatText x))
  | .string s => .ok (.string s)
  | .array items => (rereadFloatsItems items).map .array
  | .object fields => (rereadFloatsFields fields).map .object

def rereadFloatsItems : List Json → Except SyntaxError (List Json)
  | [] => .ok []
  | v :: rest => do
    let w ← rereadFloats v
    let ws ← rereadFloatsItems rest
    return w :: ws

def rereadFloatsFields : List (String × Json) → Except SyntaxError (List (String × Json))
  | [] => .ok []
  | (name, v) :: rest => do
    let w ← rereadFloats v
    let ws ← rereadFloatsFields rest
    return (name, w) :: ws
end

/-! ## Values that fit the reader -/

mutual
/-- The value is nested no deeper than this, and its integers have sixty-four bits. -/
def Fits (depth : Nat) : Json → Prop
  | .integer i => -(1 <<< 63 : Nat) ≤ i ∧ i < significandBound
  | .array items => ∃ d, depth = d + 1 ∧ FitItems d items
  | .object fields => ∃ d, depth = d + 1 ∧ FitFields d fields
  | _ => True

def FitItems (depth : Nat) : List Json → Prop
  | [] => True
  | v :: rest => Fits depth v ∧ FitItems depth rest

def FitFields (depth : Nat) : List (String × Json) → Prop
  | [] => True
  | (_, v) :: rest => Fits depth v ∧ FitFields depth rest
end

theorem takeDigits_lt {m : Nat} (hm : m < significandBound) (ds : List Char) :
    (takeDigits m ds).1 < significandBound := by
  induction ds generalizing m with
  | nil => exact hm
  | cons c r ih =>
    rw [takeDigits_cons]
    split
    · rename_i hfits
      exact ih hfits
    · exact hm

/-- A whole number that is read fits sixty-four bits. -/
theorem lt_of_unsigned {s : List Char} {n : Nat} {t : After s} (h : unsigned s = .ok (.inl n, t)) :
    n < significandBound := by
  have h : bare (unsigned s) = .ok (.inl n, t.val) := by rw [bare, h]; rfl
  rw [bare_unsigned] at h
  split_ifs at h
  unfold numberBehindWhole at h
  split at h
  · split_ifs at h
    obtain ⟨p, -, heq⟩ := map_eq_ok_iff.1 h
    cases heq
  · split_ifs at h
    · obtain ⟨hn, -⟩ := Prod.mk.inj (Except.ok.inj h)
      rw [← Sum.inl.inj hn]
      exact takeDigits_lt (by decide) _
    · obtain ⟨p, -, heq⟩ := map_eq_ok_iff.1 h
      cases heq

theorem fits_of_readScalar {c : Char} {r t : List Char} {d : Draft}
    (h : bare (readScalar c r) = .ok (d, t)) (depth : Nat) : ∃ v, d = .ofJson v ∧ Fits depth v := by
  obtain ⟨⟨d, t'⟩, hread, heq⟩ := map_eq_ok_iff.1 h
  obtain ⟨rfl, -⟩ := Prod.mk.inj heq
  obtain rfl | ⟨b, rfl⟩ | ⟨s, rfl⟩ | ⟨negative, s, n, t, hn, rfl⟩ := readScalar_cases hread
  · exact ⟨.null, rfl, trivial⟩
  · exact ⟨.bool b, rfl, trivial⟩
  · exact ⟨.string s, rfl, trivial⟩
  · obtain ⟨m, rfl, heq⟩ | ⟨m, rfl, hm, heq⟩ | ⟨x, heq⟩ := numberDraft_cases negative n
    · have hm := lt_of_unsigned hn
      exact ⟨.integer m, heq, by omega, by omega⟩
    · have hbound : (0 : Int) < significandBound := by decide
      exact ⟨.integer (-m), heq, by omega, by omega⟩
    · exact ⟨.float x, heq, trivial⟩

theorem ofJson_injective {v w : Json} (h : Draft.ofJson v = .ofJson w) : v = w := by
  have hcontent := congrArg Draft.content h
  rw [Draft.content_ofJson, Draft.content_ofJson] at hcontent
  exact Except.ok.inj hcontent

/-- Behind a value that was read there is a rest. -/
theorem ne_none_of_readValue {depth : Nat} {s : List Char} {v : Json}
    (h : (readValue depth s).1 = .ofJson v) : (readValue depth s).2 ≠ none := by
  have hcontent : (readValue depth s).1.content = .ok v := by rw [h, Draft.content_ofJson]
  have hsome := (readValue_of_content depth s hcontent).2
  intro hnone
  rw [hnone] at hsome
  cases hsome

mutual
/-- A value that was read fits. -/
theorem fits_of_readValue {depth : Nat} {s : List Char} {v : Json}
    (h : (readValue depth s).1 = .ofJson v) : Fits depth v := by
  have hshown : (shown (readValue depth s)).1 = .ofJson v := h
  cases hs : skipGaps s with
  | nil =>
    rw [shown_readValue_nil hs] at hshown
    cases v <;> cases hshown
  | cons c r =>
    have hr := length_lt_of_skipGaps hs
    rw [shown_readValue hs] at hshown
    split_ifs at hshown
    · cases depth with
      | zero => cases v <;> cases hshown
      | succ d =>
        cases v with
        | array items => exact ⟨d, rfl, fits_of_readItems (Draft.array.inj hshown)⟩
        | _ => cases hshown
    · cases depth with
      | zero => cases v <;> cases hshown
      | succ d =>
        cases v with
        | object fields => exact ⟨d, rfl, fits_of_readFields (Draft.object.inj hshown)⟩
        | _ => cases hshown
    · split at hshown
      · cases v <;> cases hshown
      · rename_i d t hscalar
        obtain ⟨w, rfl, hw⟩ := fits_of_readScalar hscalar depth
        rwa [← ofJson_injective hshown]
termination_by (s.length, 0)
decreasing_by all_goals exact Prod.Lex.left _ _ hr

theorem fits_of_readItems {depth : Nat} {first : Bool} {s : List Char} {items : List Json}
    (h : (readItems depth first s).1 = Draft.ofItems items) : FitItems depth items := by
  cases items with
  | nil => trivial
  | cons v rest =>
    obtain ⟨e, he⟩ | ⟨hdraft, -⟩ | ⟨⟨u, hu⟩, ⟨hstop, hdraft⟩ | ⟨⟨t, ht⟩, hdraft, -⟩⟩ :=
      readItems_cases depth first s
    · cases he.symm.trans h
    · cases hdraft.symm.trans h
    · obtain ⟨hv, -⟩ := DraftItems.item.inj (hdraft.symm.trans h)
      exact absurd hstop (ne_none_of_readValue hv)
    · obtain ⟨hv, hrest⟩ := DraftItems.item.inj (hdraft.symm.trans h)
      exact ⟨fits_of_readValue hv, fits_of_readItems hrest⟩
termination_by (s.length, 1)
decreasing_by
  · exact Prod.Lex.right' _ hu Nat.zero_lt_one
  · exact Prod.Lex.left _ _ (Nat.lt_of_lt_of_le ht hu)

theorem fits_of_readFields {depth : Nat} {first : Bool} {s : List Char}
    {fields : List (String × Json)} (h : (readFields depth first s).1 = Draft.ofFields fields) :
    FitFields depth fields := by
  cases fields with
  | nil => trivial
  | cons f rest =>
    obtain ⟨e, he⟩ | ⟨name, e, he⟩ | ⟨hdraft, -⟩ |
      ⟨name, ⟨u, hu⟩, ⟨hstop, e?, behind, hdraft⟩ | ⟨⟨t, ht⟩, hdraft, -⟩⟩ :=
      readFields_cases depth first s
    · cases he.symm.trans h
    · cases he.symm.trans h
    · cases hdraft.symm.trans h
    · obtain ⟨-, hv, -⟩ := DraftFields.field.inj (hdraft.symm.trans h)
      exact absurd hstop (ne_none_of_readValue hv)
    · obtain ⟨-, hv, -, hrest⟩ := DraftFields.field.inj (hdraft.symm.trans h)
      exact ⟨fits_of_readValue hv, fits_of_readFields hrest⟩
termination_by (s.length, 1)
decreasing_by
  · exact Prod.Lex.left _ _ hu
  · exact Prod.Lex.left _ _ (Nat.lt_trans ht hu)
end

/-! ## What is printed is read back -/

/-- Reading gives a value and leaves `t` behind, or it gives a draft whose first error is this one. -/
def Gives {α β : Type} (draft : β → α) (content : α → Except (Located SyntaxError) β)
    (x : Except SyntaxError β) (p : α × Option (List Char)) (t : List Char) : Prop :=
  match x with
  | .ok b => p = (draft b, some t)
  | .error e => ∃ path, content p.1 = .error ⟨path, e⟩

theorem stops_itemChars (items : List Value) (t : List Char) :
    Stops (Value.itemChars false items ++ ']' :: t) := by
  cases items <;> exact stops_cons (by decide)

theorem stops_fieldChars (fields : List (String × Value)) (t : List Char) :
    Stops (Value.fieldChars false fields ++ '\x7d' :: t) := by
  cases fields <;> exact stops_cons (by decide)

theorem chars_array (items : List Value) (t : List Char) :
    (Value.array items).chars ++ t = '[' :: (Value.itemChars true items ++ ']' :: t) := by
  simp [Value.chars]

theorem chars_object (fields : List (String × Value)) (t : List Char) :
    (Value.object fields).chars ++ t = '\x7b' :: (Value.fieldChars true fields ++ '\x7d' :: t) := by
  simp [Value.chars, openBrace, closeBrace]

theorem quoted_append (s : String) (t : List Char) :
    Value.quoted s ++ t = '"' :: (s.toList.flatMap Value.escapeChar ++ '"' :: t) := by
  simp [Value.quoted]

theorem fieldChars_cons (first : Bool) (name : String) (v : Value) (rest : List (String × Value))
    (t : List Char) : Value.fieldChars first ((name, v) :: rest) ++ t =
      (if first then [] else [',']) ++ '"' :: (name.toList.flatMap Value.escapeChar ++
        '"' :: ([] ++ ':' :: (v.chars ++ (Value.fieldChars false rest ++ t)))) := by
  simp [Value.fieldChars, Value.quoted]

theorem chars_ofInt (i : Int) : (Value.ofInt i).chars = integerText i := by
  rw [Value.ofInt]
  split
  · rename_i w hw
    rw [Value.word?] at hw
    split_ifs at hw with hi
    rw [Value.chars, ← Option.some.inj hw, hi]
  · rw [Value.chars, String.toList_ofList]

/-- An integer of sixty-four bits is read back as it was. -/
theorem shown_readValue_integer {i : Int} (hlow : -(1 <<< 63 : Nat) ≤ i) (hhigh : i < significandBound)
    (depth : Nat) {t : List Char} (ht : Stops t) :
    shown (readValue depth (integerText i ++ t)) = (.integer i, some t) := by
  have hbound : i.natAbs < significandBound := by
    have : significandBound = 18446744073709551616 := rfl
    omega
  have hread := bare_unsigned_toDigits hbound ht
  rw [integerText]
  by_cases hsign : i < 0
  · have hdraft : numberDraft true (.inl i.natAbs) = .integer i := by
      rw [numberDraft, if_neg (by decide), if_neg (by omega)]
      exact congrArg Draft.integer (by omega)
    rw [if_pos hsign]
    rw [List.cons_append]
    refine shown_readValue_of_ok ⟨rfl, by decide, by decide⟩ depth ?_
    rw [bare_readScalar_minus, hread, ← hdraft]
    rfl
  · have hdraft : numberDraft false (.inl i.natAbs) = .integer i :=
      congrArg Draft.integer (by omega)
    obtain ⟨c, r, hdigits⟩ := List.exists_cons_of_ne_nil (isDigits_toDigits i.natAbs).ne_nil
    have hc : c.isDigit = true :=
      (isDigits_toDigits i.natAbs).digits c (hdigits ▸ List.mem_cons_self)
    rw [hdigits, List.cons_append] at hread
    rw [if_neg hsign, hdigits, List.cons_append]
    refine shown_readValue_of_ok (opensScalar_of_isDigit hc) depth ?_
    rw [bare_readScalar_digit hc, hread, ← hdraft]
    rfl

theorem ofText_of_gives {s : List Char} {x : Except SyntaxError Json}
    (h : Gives .ofJson Draft.content x (shown (readValue depthBound s)) [])
    (hdistinct : ∀ w, x = .ok w → w.Distinct) : ofText (String.ofList s) = x := by
  rw [ofText, String.toList_ofList, readText_eq]
  cases x with
  | ok w =>
    have hread : shown (readValue depthBound s) = (.ofJson w, some []) := h
    rw [hread]
    dsimp only
    rw [Draft.content_ofJson]
    exact congrArg Except.ok (collapse_of_distinct (hdistinct w rfl))
  | error e =>
    obtain ⟨path, hpath⟩ := h
    dsimp only
    rw [hpath]

/-- A floating point number reads alike wherever it is printed. -/
theorem exists_gives_float (x : Double) : ∃ y : Except SyntaxError Json,
    (∀ w, y = .ok w → w.Distinct) ∧ ∀ depth t, Stops t →
      Gives .ofJson Draft.content y (shown (readValue depth (floatText x ++ t))) t := by
  have hspells := spells_floatText x
  obtain ⟨c, r, hcons, hc⟩ := exists_cons_floatText x
  rw [hcons] at hspells ⊢
  cases hread : bare (readScalar c r) with
  | error e =>
    refine ⟨.error e, by rintro w ⟨⟩, fun depth t ht => ⟨[], ?_⟩⟩
    rw [hspells.shown_append (shown_readValue_of_error hc depth hread) ht]
    rfl
  | ok p =>
    obtain ⟨⟨d, t'⟩, hscalar, rfl⟩ := map_eq_ok_iff.1 hread
    obtain ⟨v, rfl, hv⟩ := readScalar_eq_ofJson hscalar
    exact ⟨.ok v, fun w hw => Except.ok.inj hw ▸ hv, fun depth t ht =>
      hspells.shown_append (shown_readValue_of_ok hc depth hread) ht⟩

theorem gives_float (x : Double) (depth : Nat) {t : List Char} (ht : Stops t) :
    Gives .ofJson Draft.content (rereadFloats (.float x))
      (shown (readValue depth (floatText x ++ t))) t := by
  obtain ⟨y, hdistinct, hy⟩ := exists_gives_float x
  have halone := hy depthBound [] (by rintro _ ⟨⟩)
  rw [List.append_nil] at halone
  rw [rereadFloats, ofText_of_gives halone hdistinct]
  exact hy depth t ht

/-- A floating point number whose text begins with a digit becomes the number that the text is. -/
theorem rereadFloats_of_isDigit {x y : Double} {c : Char} {r : List Char}
    (htext : floatText x = c :: r) (hc : c.isDigit = true)
    (hread : bare (unsigned (c :: r)) = .ok (.inr y, [])) :
    rereadFloats (.float x) = .ok (.float y) := by
  have hscalar : bare (readScalar c r) = .ok (.float y, []) := by
    rw [bare_readScalar_digit hc, hread]
    rfl
  rw [rereadFloats, htext]
  refine ofText_of_gives ?_ fun w hw => Except.ok.inj hw ▸ trivial
  exact shown_readValue_of_ok (opensScalar_of_isDigit hc) depthBound hscalar

/-- What is printed for a value begins like a value. -/
theorem exists_cons_chars (v : Json) : ∃ c r, (Value.ofJson v).chars = c :: r ∧ Opens c := by
  cases v with
  | null => exact ⟨_, _, rfl, by unfold Opens; decide⟩
  | bool b => cases b <;> exact ⟨_, _, rfl, by unfold Opens; decide⟩
  | integer i =>
    rw [Value.ofJson, chars_ofInt, integerText]
    split
    · exact ⟨_, _, rfl, by unfold Opens; decide⟩
    · obtain ⟨c, r, hdigits⟩ := List.exists_cons_of_ne_nil (isDigits_toDigits i.natAbs).ne_nil
      exact ⟨c, r, hdigits, opens_of_isDigit
        ((isDigits_toDigits i.natAbs).digits c (hdigits ▸ List.mem_cons_self))⟩
  | float x =>
    rw [Value.ofJson, Value.chars, String.toList_ofList]
    exact (spells_floatText x).exists_cons
  | string s => exact ⟨_, _, rfl, by unfold Opens; decide⟩
  | array items => exact ⟨_, _, rfl, by unfold Opens; decide⟩
  | object fields => exact ⟨_, _, rfl, by unfold Opens; decide⟩

theorem isBlank_nil : IsBlank [] := by rintro _ ⟨⟩

/-- What stands in front of a printed part. -/
theorem isSeparator_comma (first : Bool) : IsSeparator first (if first then [] else [',']) := by
  cases first with
  | true => exact .first isBlank_nil
  | false => exact .next isBlank_nil isBlank_nil

theorem shown_readValue_string (s : String) (depth : Nat) (t : List Char) :
    shown (readValue depth (Value.quoted s ++ t)) = (.string s, some t) := by
  rw [quoted_append]
  refine shown_readValue_of_ok ⟨rfl, by decide, by decide⟩ depth ?_
  rw [bare_readScalar_quote, bare_stringBody_escaped]
  exact congrArg (fun s => Except.ok (Draft.string s, t)) String.ofList_toList

/-- What holds of the parts of a container holds of the container. -/
theorem Gives.container {α β : Type} {draft : β → α}
    {content : α → Except (Located SyntaxError) β} {x : Except SyntaxError β}
    {p : α × Option (List Char)} {t : List Char} (h : Gives draft content x p t) {wrap : α → Draft}
    {f : β → Json} (hdraft : ∀ b, wrap (draft b) = .ofJson (f b))
    (hcontent : ∀ a, (wrap a).content = (content a).map f) :
    Gives .ofJson Draft.content (x.map f) (Prod.map wrap id p) t := by
  cases x with
  | ok b =>
    obtain rfl : p = (draft b, some t) := h
    exact congrArg (·, some t) (hdraft b)
  | error e =>
    obtain ⟨path, hpath⟩ := h
    refine ⟨path, (hcontent p.1).trans ?_⟩
    rw [hpath]
    rfl

theorem Gives.item {x : Except SyntaxError Json} {xs : Except SyntaxError (List Json)}
    {p : Draft × Option (List Char)} {read : List Char → DraftItems × Option (List Char)}
    {s t : List Char} {i : Nat} (hvalue : Gives .ofJson Draft.content x p s)
    (hrest : Gives Draft.ofItems (Draft.contentItems (i + 1)) xs (read s) t) :
    Gives Draft.ofItems (Draft.contentItems i) (x >>= fun w => xs.map (w :: ·)) (behindItem p read)
      t := by
  cases x with
  | error e =>
    obtain ⟨path, hpath⟩ := hvalue
    obtain ⟨rest, hfirst⟩ : ∃ rest, (behindItem p read).1 = .item p.1 rest := by
      obtain ⟨d, _ | u⟩ := p <;> exact ⟨_, rfl⟩
    refine ⟨.index i :: path, ?_⟩
    rw [hfirst, Draft.contentItems, hpath]
    rfl
  | ok w =>
    obtain rfl : p = (.ofJson w, some s) := hvalue
    have hbehind : behindItem (.ofJson w, some s) read =
        (.item (.ofJson w) (read s).1, (read s).2) := rfl
    cases xs with
    | error e =>
      obtain ⟨path, hpath⟩ := hrest
      refine ⟨path, ?_⟩
      rw [hbehind, Draft.contentItems, Draft.content_ofJson, hpath]
      rfl
    | ok ws =>
      have hread : read s = (Draft.ofItems ws, some t) := hrest
      show behindItem _ read = _
      rw [hbehind, hread]
      rfl

theorem Gives.field {x : Except SyntaxError Json} {xs : Except SyntaxError (List (String × Json))}
    {p : Draft × Option (List Char)} {step : Except SyntaxError (List Char)}
    {read : List Char → DraftFields × Option (List Char)} {s t : List Char} (name : String)
    (hvalue : Gives .ofJson Draft.content x p s)
    (hrest : Gives Draft.ofFields Draft.contentFields xs (read s) t) :
    Gives Draft.ofFields Draft.contentFields (x >>= fun w => xs.map ((name, w) :: ·))
      (behindField name p step read) t := by
  cases x with
  | error e =>
    obtain ⟨path, hpath⟩ := hvalue
    obtain ⟨e?, rest, hfirst⟩ :
        ∃ e? rest, (behindField name p step read).1 = .field name p.1 e? rest := by
      obtain ⟨d, _ | u⟩ := p
      · cases step <;> exact ⟨_, _, rfl⟩
      · exact ⟨_, _, rfl⟩
    refine ⟨.key name :: path, ?_⟩
    rw [hfirst, Draft.contentFields, hpath]
    rfl
  | ok w =>
    obtain rfl : p = (.ofJson w, some s) := hvalue
    have hbehind : behindField name (.ofJson w, some s) step read =
        (.field name (.ofJson w) none (read s).1, (read s).2) := rfl
    cases xs with
    | error e =>
      obtain ⟨path, hpath⟩ := hrest
      refine ⟨path, ?_⟩
      rw [hbehind, Draft.contentFields, Draft.content_ofJson, hpath]
      rfl
    | ok ws =>
      have hread : read s = (Draft.ofFields ws, some t) := hrest
      show behindField name _ step read = _
      rw [hbehind, hread]
      rfl

mutual
/-- What is printed for a value is read as the value, but for its floating point numbers. -/
theorem gives_value {depth : Nat} : ∀ {v : Json}, Fits depth v → ∀ {t : List Char}, Stops t →
    Gives .ofJson Draft.content v.rereadFloats (shown (readValue depth ((Value.ofJson v).chars ++ t))) t
  | .null, _, t, _ => shown_readValue_of_ok ⟨rfl, by decide, by decide⟩ depth rfl
  | .bool true, _, t, _ => shown_readValue_of_ok ⟨rfl, by decide, by decide⟩ depth rfl
  | .bool false, _, t, _ => shown_readValue_of_ok ⟨rfl, by decide, by decide⟩ depth rfl
  | .integer i, h, t, ht => by
    rw [Value.ofJson, chars_ofInt]
    exact shown_readValue_integer h.1 h.2 depth ht
  | .float x, _, t, ht => by
    rw [Value.ofJson, Value.chars, String.toList_ofList]
    exact gives_float x depth ht
  | .string s, _, t, _ => shown_readValue_string s depth t
  | .array items, h, t, _ => by
    obtain ⟨d, rfl, hitems⟩ := h
    rw [rereadFloats, Value.ofJson, chars_array,
      shown_readValue (skipGaps_of_head (by rintro _ ⟨⟩; rfl)), if_pos rfl]
    exact (gives_items hitems true 0 t).container (fun _ => rfl) fun _ => rfl
  | .object fields, h, t, _ => by
    obtain ⟨d, rfl, hfields⟩ := h
    rw [rereadFloats, Value.ofJson, chars_object,
      shown_readValue (skipGaps_of_head (by rintro _ ⟨⟩; rfl)), if_neg (by decide), if_pos rfl]
    exact (gives_fields hfields true t).container (fun _ => rfl) fun _ => rfl

theorem gives_items {depth : Nat} : ∀ {items : List Json}, FitItems depth items →
    ∀ (first : Bool) (i : Nat) (t : List Char), Gives Draft.ofItems (Draft.contentItems i)
      (rereadFloatsItems items)
      (shown (readItems depth first (Value.itemChars first (Value.ofItems items) ++ ']' :: t))) t
  | [], _, first, i, t => shown_readItems_close isBlank_nil t
  | v :: rest, h, first, i, t => by
    have hvalue := gives_value h.1 (stops_itemChars (Value.ofItems rest) t)
    obtain ⟨c, r, hcons, hc⟩ := exists_cons_chars v
    rw [Value.ofItems, Value.itemChars, List.append_assoc, List.append_assoc,
      shown_readItems_item (isSeparator_comma first) (by rw [hcons]; rfl) hc]
    exact hvalue.item (gives_items h.2 false (i + 1) t)

theorem gives_fields {depth : Nat} : ∀ {fields : List (String × Json)}, FitFields depth fields →
    ∀ (first : Bool) (t : List Char), Gives Draft.ofFields Draft.contentFields
      (rereadFloatsFields fields)
      (shown (readFields depth first (Value.fieldChars first (Value.ofFields fields) ++ '\x7d' :: t))) t
  | [], _, first, t => shown_readFields_close isBlank_nil t
  | (name, v) :: rest, h, first, t => by
    have hvalue := gives_value h.1 (stops_fieldChars (Value.ofFields rest) t)
    rw [Value.ofFields, fieldChars_cons, shown_readFields_field (isSeparator_comma first),
      readField_name isBlank_nil (bare_stringBody_escaped name.toList _), String.ofList_toList]
    exact hvalue.field name (gives_fields h.2 false t)
end

theorem distinct_of_floatText {x : Double} {w : Json}
    (h : ofText (String.ofList (floatText x)) = .ok w) : w.Distinct := by
  obtain ⟨y, hdistinct, hy⟩ := exists_gives_float x
  have halone := hy depthBound [] (by rintro _ ⟨⟩)
  rw [List.append_nil] at halone
  rw [ofText_of_gives halone hdistinct] at h
  exact hdistinct w h

mutual
/-- Numbers have no names, so none is repeated where none was. -/
theorem distinct_rereadFloats : ∀ {v w : Json}, v.Distinct → v.rereadFloats = .ok w → w.Distinct
  | .null, _, _, h | .bool _, _, _, h | .integer _, _, _, h | .string _, _, _, h => by
    obtain rfl := Except.ok.inj h
    trivial
  | .float _, _, _, h => distinct_of_floatText h
  | .array items, _, hv, h => by
    obtain ⟨ws, hws, rfl⟩ := map_eq_ok_iff.1 h
    exact distinct_rereadFloatsItems hv hws
  | .object fields, _, hv, h => by
    obtain ⟨ws, hws, rfl⟩ := map_eq_ok_iff.1 h
    obtain ⟨hkeys, hfields⟩ := distinct_rereadFloatsFields hv.2 hws
    exact ⟨hkeys ▸ hv.1, hfields⟩

theorem distinct_rereadFloatsItems : ∀ {vs ws : List Json}, AllDistinct vs →
    rereadFloatsItems vs = .ok ws → AllDistinct ws
  | [], _, _, h => by
    obtain rfl := Except.ok.inj h
    trivial
  | v :: rest, _, hvs, h => by
    obtain ⟨w, hw, h⟩ := bind_eq_ok_iff.1 h
    obtain ⟨ws, hws, h⟩ := bind_eq_ok_iff.1 h
    obtain rfl := Except.ok.inj h
    exact ⟨distinct_rereadFloats hvs.1 hw, distinct_rereadFloatsItems hvs.2 hws⟩

theorem distinct_rereadFloatsFields : ∀ {fs gs : List (String × Json)}, FieldsDistinct fs →
    rereadFloatsFields fs = .ok gs → Entries.keys gs = Entries.keys fs ∧ FieldsDistinct gs
  | [], _, _, h => by
    obtain rfl := Except.ok.inj h
    exact ⟨rfl, trivial⟩
  | (name, v) :: rest, _, hfs, h => by
    obtain ⟨w, hw, h⟩ := bind_eq_ok_iff.1 h
    obtain ⟨gs, hgs, h⟩ := bind_eq_ok_iff.1 h
    obtain rfl := Except.ok.inj h
    obtain ⟨hkeys, hrest⟩ := distinct_rereadFloatsFields hfs.2 hgs
    exact ⟨congrArg (name :: ·) hkeys, distinct_rereadFloats hfs.1 hw, hrest⟩
end

section Printed

variable {v : Json} (hfits : Fits depthBound v) (hdistinct : v.Distinct)

include hfits

theorem gives_text :
    Gives .ofJson Draft.content v.rereadFloats (shown (readValue depthBound (Value.ofJson v).chars))
      [] := by
  have hread := gives_value hfits (t := []) (by rintro _ ⟨⟩)
  rwa [List.append_nil] at hread

include hdistinct

/-- What is printed for a value that fits, without repeated names, reads as the value with its
    floating point numbers read again. -/
theorem ofText_text : ofText (Value.ofJson v).text = v.rereadFloats :=
  ofText_of_gives (gives_text hfits) fun _ => distinct_rereadFloats hdistinct

theorem unrepeated_text : Unrepeated (Value.ofJson v).text := by
  intro w hw
  have hread := gives_text hfits
  rw [Draft.ofText, Value.text, String.toList_ofList, readText_eq] at hw
  cases hx : v.rereadFloats with
  | error e =>
    rw [hx] at hread
    obtain ⟨path, hpath⟩ := hread
    cases hpath.symm.trans hw
  | ok w' =>
    rw [hx] at hread
    have hread : shown (readValue depthBound (Value.ofJson v).chars) = (.ofJson w', some []) := hread
    rw [hread, Draft.content_ofJson] at hw
    obtain rfl := Except.ok.inj hw
    exact distinct_rereadFloats hdistinct hx

end Printed

/-- A value whose floating point numbers are read back as they were is read back, whatever stands behind
    what is printed for it. -/
theorem readText_chars {v : Json} (hfits : Fits depthBound v) (hreread : v.rereadFloats = .ok v)
    {t : List Char} (ht : Stops t) : readText ((Value.ofJson v).chars ++ t) = (.ofJson v, some t) := by
  have hread := gives_value hfits ht
  rw [hreread] at hread
  rw [readText_eq]
  exact hread

/-- A value that a text is without repeated names has none, and fits. -/
theorem fits_of_ofText {text : String} {v : Json} (h : ofText text = .ok v)
    (hunrepeated : Unrepeated text) : Fits depthBound v ∧ v.Distinct := by
  have hdraft := draft_of_unrepeated h hunrepeated
  exact ⟨fits_of_readValue hdraft, hunrepeated v (by rw [hdraft, Draft.content_ofJson])⟩

end Json

/-- A text that begins with what is printed for a value is read as this value. -/
theorem SourceFile.ofText_of_chars {v : Json} {text : String} {t : List Char}
    (htext : text.toList = (Value.ofJson v).chars ++ t) (ht : Json.Stops t)
    (hfits : Json.Fits Json.depthBound v) (hreread : v.rereadFloats = .ok v) :
    ofText text = readSource .text (.ofJson v) := by
  rw [ofText, Draft.ofText, htext, Json.readText_chars hfits hreread ht]

/-- A filter that hands on its input gives it with its floating point numbers read again. -/
theorem Filter.HandsOn.select_eq_ok_iff {interpret : Interpreter} {filter text : String} {v w : Json}
    (h : HandsOn interpret filter v) (hv : Json.ofText text = .ok v)
    (hunrepeated : Json.Unrepeated text) :
    interpret.select filter v = .ok w ↔ v.rereadFloats = .ok w := by
  obtain ⟨hfits, hdistinct⟩ := Json.fits_of_ofText hv hunrepeated
  rw [h.select_eq, reread, Json.ofText_text hfits hdistinct]
  cases v.rereadFloats with
  | ok w' => exact ⟨fun h => congrArg Except.ok (Except.ok.inj h),
      fun h => congrArg Except.ok (Except.ok.inj h)⟩
  | error e => exact iff_of_false (by rintro ⟨⟩) (by rintro ⟨⟩)

end SchemaForest
