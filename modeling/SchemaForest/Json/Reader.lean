import SchemaForest.Json.Lexeme

/-!
# Reading JSON texts

1. `stepValue` steps over one value without looking at it.
2. `readValue` reads one value as a draft.  Containers may be nested `depthBound` deep.  Where a
   field cannot be read but can be stepped over, reading goes on behind it, since the one who looks
   at the draft may not want that field.
3. `Draft.ofText` reads the first value of a text and leaves the rest alone; `Json.ofText` reads a
   text that has to hold one value and nothing else.

Every function returns a strictly shorter rest, which is why reading ends.
-/

namespace SchemaForest.Json

/-! ## Stepping over values -/

/-- Steps over a word, string or number that begins with `c`. -/
def stepScalar (c : Char) (r : List Char) : Except SyntaxError (After (c :: r)) :=
  if c.isDigit then stepUnsigned (c :: r)
  else match c with
    | 'n' => (word ['u', 'l', 'l'] r).map (After.ofRest _)
    | 't' => (word ['r', 'u', 'e'] r).map (After.ofRest _)
    | 'f' => (word ['a', 'l', 's', 'e'] r).map (After.ofRest _)
    | '"' => (stepString r).map (After.ofRest _)
    | '-' => (stepUnsigned r).map (After.cons _)
    | _ => .error .noValue

/-- Behind the name of a field: the text behind its colon. -/
def colon (s : List Char) : Except SyntaxError (After s) :=
  match h : skipGaps s with
  | [] => .error .endInObject
  | c :: r =>
    if c = ':' then
      .ok ⟨r, by have := length_skipGaps_le s; rw [h, List.length_cons] at this; omega⟩
    else .error .noColon

mutual
/-- Steps over one value. -/
def stepValue (s : List Char) : Except SyntaxError (After s) :=
  match h : skipGaps s with
  | [] => .error .endInValue
  | c :: r =>
    have hs : (c :: r).length ≤ s.length := h ▸ length_skipGaps_le s
    if c = '[' then (stepItems true r).map fun t => (t.cons c).widen hs
    else if c = '\x7b' then (stepFields true r).map fun t => (t.cons c).widen hs
    else (stepScalar c r).map (After.widen hs)
termination_by (s.length, 0)
decreasing_by
  all_goals
    simp only [List.length_cons] at hs
    apply Prod.Lex.left; omega

/-- Steps over the items of an array and its closing bracket. -/
def stepItems (first : Bool) (s : List Char) : Except SyntaxError (After s) :=
  match h : skipGaps s with
  | [] => .error .endInList
  | c :: r =>
    have hs : (c :: r).length ≤ s.length := h ▸ length_skipGaps_le s
    if c = ']' then .ok (After.widen hs ⟨r, Nat.lt_succ_self _⟩)
    else
      let item : Except SyntaxError (Rest s) :=
        if first then .ok ⟨c :: r, hs⟩
        else if c = ',' then .ok ⟨r, Nat.le_of_succ_le hs⟩
        else .error .noListComma
      match item with
      | .error e => .error e
      | .ok v =>
        match stepValue v.val with
        | .error e => .error e
        | .ok t =>
          have ht : t.val.length < s.length := Nat.lt_of_lt_of_le t.property v.property
          (stepItems false t.val).map (After.widen (Nat.le_of_lt ht))
termination_by (s.length, 1)
decreasing_by
  · rcases Nat.lt_or_eq_of_le v.property with hlt | heq
    · exact Prod.Lex.left _ _ hlt
    · rw [heq]; exact Prod.Lex.right _ (by omega)
  · exact Prod.Lex.left _ _ ht

/-- Steps over the fields of an object and its closing brace. -/
def stepFields (first : Bool) (s : List Char) : Except SyntaxError (After s) :=
  match h : skipGaps s with
  | [] => .error .endInObject
  | c :: r =>
    have hs : (c :: r).length ≤ s.length := h ▸ length_skipGaps_le s
    if c = '\x7d' then .ok (After.widen hs ⟨r, Nat.lt_succ_self _⟩)
    else
      let field : Except SyntaxError (Rest s) :=
        if first then .ok ⟨c :: r, hs⟩
        else if c = ',' then .ok ⟨r, Nat.le_of_succ_le hs⟩
        else .error .noObjectComma
      match field with
      | .error e => .error e
      | .ok f =>
        match hf : skipGaps f.val with
        | [] => .error .endInObject
        | q :: k =>
          have hk : k.length < s.length := by
            have h₁ := length_skipGaps_le f.val
            have h₂ := f.property
            rw [hf, List.length_cons] at h₁
            omega
          if q ≠ '"' then .error .keyNotString
          else match stepString k with
            | .error e => .error e
            | .ok k' => match colon k'.val with
              | .error e => .error e
              | .ok v =>
                have hv : v.val.length < s.length :=
                  Nat.lt_of_lt_of_le v.property (Nat.le_trans k'.property (Nat.le_of_lt hk))
                match stepValue v.val with
                | .error e => .error e
                | .ok t =>
                  have ht : t.val.length < s.length := Nat.lt_trans t.property hv
                  (stepFields false t.val).map (After.widen (Nat.le_of_lt ht))
termination_by (s.length, 1)
decreasing_by
  · exact Prod.Lex.left _ _ hv
  · exact Prod.Lex.left _ _ ht
end

/-! ## Reading values -/

/-- How deep containers may be nested. -/
def depthBound : Nat := 127

/-- Reads a word, string or number that begins with `c`. -/
def readScalar (c : Char) (r : List Char) : Except SyntaxError (Draft × After (c :: r)) :=
  let behind (d : Draft) (t : Rest r) : Draft × After (c :: r) := (d, After.ofRest c t)
  if c.isDigit then (unsigned (c :: r)).map fun (n, t) => (numberDraft false n, t)
  else match c with
    | 'n' => (word ['u', 'l', 'l'] r).map (behind .null)
    | 't' => (word ['r', 'u', 'e'] r).map (behind (.bool true))
    | 'f' => (word ['a', 'l', 's', 'e'] r).map (behind (.bool false))
    | '"' => (stringBody r).map fun (cs, t) => behind (.string (String.ofList cs)) t
    | '-' => (unsigned r).map fun (n, t) => (numberDraft true n, t.cons _)
    | _ => .error .noValue

/-- Behind a comma another part has to follow: neither the end of the text nor `close`. -/
def nextPart (close : Char) (s : List Char) : Except SyntaxError (Rest s) :=
  match h : skipGaps s with
  | [] => .error .endInValue
  | c :: r => if c = close then .error .trailingComma else .ok ⟨c :: r, h ▸ length_skipGaps_le s⟩

mutual
/-- Reads one value.  Without a rest the text ends in an error that nobody can step over. -/
def readValue (depth : Nat) (s : List Char) : Draft × Option (After s) :=
  match h : skipGaps s with
  | [] => (.broken .endInValue, none)
  | c :: r =>
    have hs : (c :: r).length ≤ s.length := h ▸ length_skipGaps_le s
    if c = '[' then
      match depth with
      | 0 => (.broken .tooDeep, none)
      | d + 1 =>
        let (items, rest) := readItems d true r
        (.array items, rest.map fun t => (t.cons c).widen hs)
    else if c = '\x7b' then
      match depth with
      | 0 => (.broken .tooDeep, none)
      | d + 1 =>
        let (fields, rest) := readFields d true r
        (.object fields, rest.map fun t => (t.cons c).widen hs)
    else match readScalar c r with
      | .error e => (.broken e, none)
      | .ok (d, t) => (d, some (t.widen hs))
termination_by (s.length, 0)
decreasing_by
  all_goals
    simp only [List.length_cons] at hs
    apply Prod.Lex.left; omega

/-- Reads the items of an array and its closing bracket. -/
def readItems (depth : Nat) (first : Bool) (s : List Char) : DraftItems × Option (After s) :=
  match h : skipGaps s with
  | [] => (.failed .endInList, none)
  | c :: r =>
    have hs : (c :: r).length ≤ s.length := h ▸ length_skipGaps_le s
    if c = ']' then (.done, some (After.widen hs ⟨r, Nat.lt_succ_self _⟩))
    else
      let item : Except SyntaxError (Rest s) :=
        if first then .ok ⟨c :: r, hs⟩
        else if c = ',' then
          (nextPart ']' r).map (Rest.widen (Nat.le_of_succ_le hs))
        else .error .noListComma
      match item with
      | .error e => (.failed e, none)
      | .ok v =>
        match readValue depth v.val with
        | (d, none) => (.item d .done, none)
        | (d, some t) =>
          have ht : t.val.length < s.length := Nat.lt_of_lt_of_le t.property v.property
          let (items, rest) := readItems depth false t.val
          (.item d items, rest.map (After.widen (Nat.le_of_lt ht)))
termination_by (s.length, 1)
decreasing_by
  · rcases Nat.lt_or_eq_of_le v.property with hlt | heq
    · exact Prod.Lex.left _ _ hlt
    · rw [heq]; exact Prod.Lex.right _ (by omega)
  · exact Prod.Lex.left _ _ ht

/-- Reads the fields of an object and its closing brace. -/
def readFields (depth : Nat) (first : Bool) (s : List Char) : DraftFields × Option (After s) :=
  match h : skipGaps s with
  | [] => (.failed .endInObject, none)
  | c :: r =>
    have hs : (c :: r).length ≤ s.length := h ▸ length_skipGaps_le s
    if c = '\x7d' then (.done, some (After.widen hs ⟨r, Nat.lt_succ_self _⟩))
    else
      let field : Except SyntaxError (Rest s) :=
        if first then .ok ⟨c :: r, hs⟩
        else if c = ',' then
          (nextPart '\x7d' r).map (Rest.widen (Nat.le_of_succ_le hs))
        else .error .noObjectComma
      match field with
      | .error e => (.failed e, none)
      | .ok ⟨[], _⟩ => (.failed .endInObject, none)
      | .ok ⟨q :: k, hq⟩ =>
        have hk : k.length < s.length := Nat.lt_of_succ_le hq
        if q ≠ '"' then (.failed .keyNotString, none)
        else match stringBody k with
          | .error e => (.failed e, none)
          | .ok (cs, k') =>
            let name := String.ofList cs
            match colon k'.val with
            | .error e => (.unvalued name e, none)
            | .ok v =>
              have hv : v.val.length < s.length :=
                Nat.lt_of_lt_of_le v.property (Nat.le_trans k'.property (Nat.le_of_lt hk))
              match readValue depth v.val with
              | (d, some t) =>
                have ht : t.val.length < s.length := Nat.lt_trans t.property hv
                let (fields, rest) := readFields depth false t.val
                (.field name d none fields, rest.map (After.widen (Nat.le_of_lt ht)))
              | (d, none) =>
                match stepValue v.val with
                | .error e => (.field name d (some e) .done, none)
                | .ok t =>
                  have ht : t.val.length < s.length := Nat.lt_trans t.property hv
                  let (fields, rest) := readFields depth false t.val
                  (.field name d none fields, rest.map (After.widen (Nat.le_of_lt ht)))
termination_by (s.length, 1)
decreasing_by
  · exact Prod.Lex.left _ _ hv
  · exact Prod.Lex.left _ _ ht
  · exact Prod.Lex.left _ _ ht
end

/-- Reads the first value of a text. -/
def readText (s : List Char) : Draft × Option (List Char) :=
  let (d, rest) := readValue depthBound s
  (d, rest.map Subtype.val)

/-- A text that holds one value and nothing else but blanks.  Of a name that an object repeats the
    last value counts. -/
def ofText (text : String) : Except SyntaxError Json :=
  let (d, rest) := readText text.toList
  match d.content with
  | .error e => .error e.cause
  | .ok v =>
    if (rest.getD []).all isGap then .ok v.collapse else .error .trailingText

end Json

/-- The draft of the first value of a text; what stands behind it is not read. -/
def Draft.ofText (text : String) : Draft := (Json.readText text.toList).1

end SchemaForest
