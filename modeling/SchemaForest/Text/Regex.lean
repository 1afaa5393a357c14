import SchemaForest.Number.Decimal
import SchemaForest.Text.CharSet

/-!
# Regular expressions

1. `Regex` is an expression, `Regex.ofText?` reads one.
2. `Regex.searchFrom` finds the first place of a text where an expression matches.  Of the matches there
   it takes the one that the expression prefers: the first branch of an alternative, and as many or as
   few repetitions as it asks for.
3. `Regex.findAll` finds all matches that do not overlap.
-/

namespace SchemaForest.Text

/-- A condition on a place between two characters. -/
inductive Anchor where
  | textStart | textEnd | lineStart | lineEnd | wordEdge | noWordEdge
deriving DecidableEq

/-- A regular expression. -/
inductive Regex where
  | empty
  | char (s : CharSet)
  | anchor (a : Anchor)
  | seq (a b : Regex)
  | either (a b : Regex)
  /-- Any number of repetitions, preferably many or preferably few. -/
  | star (greedy : Bool) (a : Regex)
  /-- A part whose place is remembered. -/
  | group (index : Nat) (a : Regex)
deriving DecidableEq

namespace Regex

/-! ## Matching -/

/-- A place in a text, and the groups passed so far with their first and last places. -/
structure Spot where
  before : Option Char
  rest : List Char
  place : Nat
  groups : List (Nat × Nat × Nat)

/-- Whether a condition holds at a place. -/
def Spot.satisfies (s : Spot) : Anchor → Bool
  | .textStart => s.before.isNone
  | .textEnd => s.rest.isEmpty
  | .lineStart => s.before.isNone || s.before == some '\n'
  | .lineEnd => s.rest.isEmpty || s.rest.head? == some '\n'
  | .wordEdge => s.before.any isWord != s.rest.head?.any isWord
  | .noWordEdge => s.before.any isWord == s.rest.head?.any isWord

/-- Repeats a matcher as long as it goes on, and then goes on with `next`. -/
def repeatMatch (greedy : Bool) (once : Spot → (Spot → Option Spot) → Option Spot)
    (next : Spot → Option Spot) : Nat → Spot → Option Spot
  | 0, s => next s
  | n + 1, s =>
    let again := fun (_ : Unit) => once s fun t =>
      if s.place < t.place then repeatMatch greedy once next n t else none
    if greedy then (again ()).orElse fun _ => next s else (next s).orElse again

/-- Matches an expression at a place, and goes on with `next`. -/
def run : Regex → Spot → (Spot → Option Spot) → Option Spot
  | empty, s, next => next s
  | char set, s, next =>
    match s.rest with
    | c :: r => if set.has c then next { s with before := some c, rest := r, place := s.place + 1 }
      else none
    | [] => none
  | anchor a, s, next => if s.satisfies a then next s else none
  | seq a b, s, next => a.run s fun t => b.run t next
  | either a b, s, next => (a.run s next).orElse fun _ => b.run s next
  | star greedy a, s, next => repeatMatch greedy a.run next (s.rest.length + 1) s
  | group index a, s, next =>
    a.run s fun t =>
      next { t with groups := (index, s.place, t.place) :: t.groups.filter (·.1 != index) }

/-- The first match from a place on: where it starts, and the place behind it. -/
def searchFrom (e : Regex) (s : Spot) : Option (Nat × Spot) :=
  go s.rest s.before s.place
where
  /-- Tries one place after the other. -/
  go (rest : List Char) (before : Option Char) (place : Nat) : Option (Nat × Spot) :=
    match e.run ⟨before, rest, place, []⟩ some with
    | some t => some (place, t)
    | none =>
      match rest with
      | [] => none
      | c :: r => go r (some c) (place + 1)

/-- The matches from a place on.  Behind a match no empty one follows at once. -/
def matchesFrom (e : Regex) (last : Option Nat) : Nat → Spot → List (Nat × Spot)
  | 0, _ => []
  | n + 1, s =>
    match e.searchFrom s with
    | none => []
    | some (start, t) =>
      if start = t.place ∧ last = some start then
        match s.rest.drop (start - s.place) with
        | [] => []
        | c :: r => matchesFrom e none n ⟨some c, r, start + 1, []⟩
      else (start, t) :: matchesFrom e (some t.place) n { t with groups := [] }

/-- All matches in a text, each with its first place and the place behind it. -/
def findAll (e : Regex) (text : List Char) : List (Nat × Spot) :=
  e.matchesFrom none (2 * text.length + 2) ⟨none, text, 0, []⟩

/-! ## Reading -/

/-- How an expression is read. -/
structure Flags where
  anyCase : Bool
  /-- Blanks and comments do not count. -/
  spaced : Bool
  /-- A point stands for line feeds too. -/
  dotAll : Bool
  /-- Lines have starts and ends. -/
  multiline : Bool
  /-- Repetitions prefer to be few. -/
  lazy : Bool

/-- What is left to read, the number of groups so far, and their names. -/
structure Source where
  rest : List Char
  groups : Nat
  names : List (Nat × String)
deriving DecidableEq

/-- The set of characters of an escape. -/
def classEscape? : Char → Option CharSet
  | 'd' => some .digit
  | 'D' => some (.compl .digit)
  | 'w' => some .wordChar
  | 'W' => some (.compl .wordChar)
  | 's' => some .blank
  | 'S' => some (.compl .blank)
  | _ => none

/-- The character of some hexadecimal digits. -/
def hexChar? (digits : List Char) : Option Char :=
  let n := Decimal.ofDigits 16 digits
  if digits ≠ [] ∧ digits.all (Decimal.isDigitOf 16) ∧ n.isValidChar then some (.ofNat n) else none

/-- The character of an escape behind its backslash, and the text behind it. -/
def charEscape? (s : List Char) : Option (Char × List Char) :=
  let hex (count : Nat) (r : List Char) : Option (Char × List Char) :=
    match r with
    | c :: r' =>
      if c = '\x7b' then
        match r'.dropWhile (· != '\x7d') with
        | _ :: behind => (hexChar? (r'.takeWhile (· != '\x7d'))).map (·, behind)
        | [] => none
      else if r.length < count then none
      else (hexChar? (r.take count)).map (·, r.drop count)
    | [] => none
  match s with
  | 'n' :: r => some ('\n', r)
  | 't' :: r => some ('\t', r)
  | 'r' :: r => some ('\r', r)
  | 'f' :: r => some ('\x0c', r)
  | 'v' :: r => some ('\x0b', r)
  | 'a' :: r => some ('\x07', r)
  | 'x' :: r => hex 2 r
  | 'u' :: r => hex 4 r
  | 'U' :: r => hex 8 r
  | c :: r => if c.toNat < 128 && !c.isAlphanum && c != '<' && c != '>' then some (c, r) else none
  | [] => none

/-- A character or set inside brackets. -/
def classAtom? (s : List Char) : Option ((Char ⊕ CharSet) × List Char) :=
  match s with
  | '\\' :: c :: r =>
    match classEscape? c with
    | some set => some (.inr set, r)
    | none => (charEscape? (c :: r)).map fun (c, r) => (.inl c, r)
  | '[' :: ':' :: r =>
    let negated := r.head? == some '^'
    let r := if negated then r.drop 1 else r
    let name := r.takeWhile Char.isAlpha
    match r.dropWhile Char.isAlpha, CharSet.named? (String.ofList name) with
    | ':' :: ']' :: r, some set => some (.inr (if negated then .compl set else set), r)
    | _, _ => none
  | c :: r => if c = '[' || c = '\\' then none else some (.inl c, r)
  | [] => none

mutual
/-- A set behind its opening bracket. -/
def bracket? (steps : Nat) (s : List Char) : Option (CharSet × List Char) :=
  match steps with
  | 0 => none
  | n + 1 => do
    let (negated, s) :=
      match s with
      | '^' :: r => (true, r)
      | s => (false, s)
    let (set, r) ←
      match s with
      | ']' :: r => members? n (.single ']') r
      | s => members? n .none s
    some (if negated then .compl set else set, r)

/-- The members of a set up to its closing bracket. -/
def members? (steps : Nat) (found : CharSet) (s : List Char) : Option (CharSet × List Char) :=
  match steps with
  | 0 => none
  | n + 1 =>
    match s with
    | ']' :: r => some (found, r)
    | '&' :: '&' :: r => do
      let (other, r) ← members? n .none r
      some (.inter found other, r)
    | '[' :: c :: r =>
      if c = ':' then do
        let (atom, r) ← classAtom? ('[' :: c :: r)
        match atom with
        | .inr set => members? n (.union found set) r
        | .inl c => members? n (.union found (.single c)) r
      else do
        let (set, r) ← bracket? n (c :: r)
        members? n (.union found set) r
    | s => do
      let (atom, r) ← classAtom? s
      match atom, r with
      | .inr set, r => members? n (.union found set) r
      | .inl first, '-' :: d :: r =>
        if d = ']' then members? n (.union found (.union (.single first) (.single '-'))) (d :: r)
        else do
          let (last, r) ← classAtom? (d :: r)
          match last with
          | .inl last =>
            if last < first then none else members? n (.union found (.range first last)) r
          | .inr _ => none
      | .inl c, r => members? n (.union found (.single c)) r
end

/-- The expression of a set. -/
def ofSet (f : Flags) (s : CharSet) : Regex := .char (if f.anyCase then .anyCase s else s)

/-- An expression so many times. -/
def times (e : Regex) : Nat → Regex
  | 0 => .empty
  | n + 1 => .seq e (times e n)

/-- An expression at most so many times. -/
def atMost (greedy : Bool) (e : Regex) : Nat → Regex
  | 0 => .empty
  | n + 1 =>
    let more := .seq e (atMost greedy e n)
    if greedy then .either more .empty else .either .empty more

/-- How often an expression may be repeated is bounded, so that it stays small. -/
def repetitionBound : Nat := 1000

/-- The bounds of a repetition behind the opening brace: the least number, the greatest one if there
    is any, and the text behind the closing brace. -/
def repetition? (s : List Char) : Option (Nat × Option Nat × List Char) :=
  let digits := s.takeWhile Char.isDigit
  let least := Decimal.ofDigits 10 digits
  if digits = [] ∨ repetitionBound < least then none
  else
    match s.dropWhile Char.isDigit with
    | '\x7d' :: r => some (least, some least, r)
    | ',' :: '\x7d' :: r => some (least, none, r)
    | ',' :: r =>
      let more := r.takeWhile Char.isDigit
      let greatest := Decimal.ofDigits 10 more
      match r.dropWhile Char.isDigit with
      | '\x7d' :: r =>
        if more = [] ∨ greatest < least ∨ repetitionBound < greatest then none
        else some (least, some greatest, r)
      | _ => none
    | _ => none

/-- The flags that letters set or, behind a minus sign, take back. -/
def setFlags? (on : Bool) (f : Flags) : List Char → Option Flags
  | [] => some f
  | '-' :: r => if on ∧ r ≠ [] then setFlags? false f r else none
  | 'i' :: r => setFlags? on { f with anyCase := on } r
  | 'x' :: r => setFlags? on { f with spaced := on } r
  | 's' :: r => setFlags? on { f with dotAll := on } r
  | 'm' :: r => setFlags? on { f with multiline := on } r
  | 'U' :: r => setFlags? on { f with lazy := on } r
  | 'u' :: r => if on then setFlags? on f r else none
  | _ => none

/-- What does not count in front of a text. -/
def skipSpace (f : Flags) (s : List Char) : List Char :=
  if f.spaced then go s.length s else s
where
  /-- Skips blanks, and comments up to the end of their line. -/
  go : Nat → List Char → List Char
    | 0, s => s
    | n + 1, s =>
      match s.dropWhile isBlank with
      | '#' :: r => go n (r.dropWhile (· != '\n'))
      | r => r

mutual
/-- Branches up to a closing parenthesis or the end. -/
def branches? (steps : Nat) (f : Flags) (s : Source) : Option (Regex × Source) :=
  match steps with
  | 0 => none
  | n + 1 => do
    let (a, s) ← row? n f .empty s
    match s.rest with
    | '|' :: r =>
      let (b, s) ← branches? n f { s with rest := r }
      some (.either a b, s)
    | _ => some (a, s)

/-- Repeated atoms one behind the other. -/
def row? (steps : Nat) (f : Flags) (found : Regex) (s : Source) : Option (Regex × Source) :=
  match steps with
  | 0 => none
  | n + 1 =>
    match skipSpace f s.rest with
    | [] => some (found, { s with rest := [] })
    | '|' :: r => some (found, { s with rest := '|' :: r })
    | ')' :: r => some (found, { s with rest := ')' :: r })
    | '(' :: '?' :: r =>
      let letters := r.takeWhile fun c => c.isAlpha || c == '-'
      match r.drop letters.length, setFlags? true f letters with
      | ')' :: r, some g => if letters = [] then none else row? n g found { s with rest := r }
      | _, _ => do
        let (e, s) ← atom? n f { s with rest := '(' :: '?' :: r }
        let (e, s) ← repeated? n f e s
        row? n f (.seq found e) s
    | rest => do
      let (e, s) ← atom? n f { s with rest := rest }
      let (e, s) ← repeated? n f e s
      row? n f (.seq found e) s

/-- The repetitions behind an atom. -/
def repeated? (steps : Nat) (f : Flags) (e : Regex) (s : Source) : Option (Regex × Source) :=
  match steps with
  | 0 => none
  | n + 1 =>
    let again (least : Nat) (greatest : Option Nat) (r : List Char) : Option (Regex × Source) :=
      let (greedy, r) :=
        match r with
        | '?' :: r => (f.lazy, r)
        | r => (!f.lazy, r)
      let more :=
        match greatest with
        | none => .star greedy e
        | some m => atMost greedy e (m - least)
      repeated? n f (.seq (times e least) more) { s with rest := r }
    match skipSpace f s.rest with
    | '*' :: r => again 0 none r
    | '+' :: r => again 1 none r
    | '?' :: r => again 0 (some 1) r
    | c :: r =>
      if c = '\x7b' then do
        let (least, greatest, r) ← repetition? r
        again least greatest r
      else some (e, { s with rest := c :: r })
    | [] => some (e, { s with rest := [] })

/-- An expression that is not put together, or one in parentheses. -/
def atom? (steps : Nat) (f : Flags) (s : Source) : Option (Regex × Source) :=
  match steps with
  | 0 => none
  | n + 1 =>
    let behind (e : Regex) (r : List Char) : Option (Regex × Source) := some (e, { s with rest := r })
    let closed (e : Regex) (s : Source) : Option (Regex × Source) :=
      match s.rest with
      | ')' :: r => some (e, { s with rest := r })
      | _ => none
    let named (r : List Char) : Option (Regex × Source) := do
      let name := r.takeWhile fun c => c.isAlphanum || c == '_'
      match r.drop name.length with
      | '>' :: r =>
        if name = [] ∨ s.names.any (·.2 == String.ofList name) then none
        else
          let index := s.groups + 1
          let (e, s) ← branches? n f ⟨r, index, (index, String.ofList name) :: s.names⟩
          closed (.group index e) s
      | _ => none
    match s.rest with
    | '(' :: '?' :: 'P' :: '<' :: r => named r
    | '(' :: '?' :: '<' :: r => named r
    | '(' :: '?' :: r => do
      let letters := r.takeWhile fun c => c.isAlpha || c == '-'
      match r.drop letters.length with
      | ':' :: r =>
        let g ← setFlags? true f letters
        let (e, s) ← branches? n g { s with rest := r }
        closed e s
      | _ => none
    | '(' :: r => do
      let index := s.groups + 1
      let (e, s) ← branches? n f ⟨r, index, s.names⟩
      closed (.group index e) s
    | '[' :: r => do
      let (set, r) ← bracket? (2 * r.length + 2) r
      behind (ofSet f set) r
    | '.' :: r => behind (.char (if f.dotAll then .all else .compl (.single '\n'))) r
    | '^' :: r => behind (.anchor (if f.multiline then .lineStart else .textStart)) r
    | '$' :: r => behind (.anchor (if f.multiline then .lineEnd else .textEnd)) r
    | '\\' :: 'A' :: r => behind (.anchor .textStart) r
    | '\\' :: 'z' :: r => behind (.anchor .textEnd) r
    | '\\' :: 'b' :: r => behind (.anchor .wordEdge) r
    | '\\' :: 'B' :: r => behind (.anchor .noWordEdge) r
    | '\\' :: c :: r =>
      match classEscape? c with
      | some set => behind (.char set) r
      | none => do
        let (c, r) ← charEscape? (c :: r)
        behind (ofSet f (.single c)) r
    | c :: r =>
      if "*+?\\".toList.contains c || c = '\x7b' then none else behind (ofSet f (.single c)) r
    | [] => none
end

/-- The expression of a text, and the names of its groups.  No more than five calls lie between two
    characters. -/
def ofText? (f : Flags) (text : List Char) : Option (Regex × Source) :=
  match branches? (5 * text.length + 5) f ⟨text, 0, []⟩ with
  | some (e, s) => if s.rest.isEmpty then some (e, s) else none
  | none => none

end Regex

end SchemaForest.Text
