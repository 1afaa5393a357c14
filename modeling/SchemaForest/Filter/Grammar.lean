import SchemaForest.Filter.Term
import SchemaForest.Filter.Token

/-!
# The grammar of filters

A filter is a row of operands with operators between them.  From the weakest to the strongest the
operators are `|` and `as`, `,`, assignments, `//`, `or`, `and`, equality, inequality, sums, products
and quotients, remainders; `|`, `as` and assignments group to the right.  An operand may be followed
by question marks, then by steps of a path with question marks of their own.  No word is reserved: a
word that cannot go on with what stands before it names a filter.

Each function takes the first tokens that it can use and gives the others back.  The number of steps
bounds how deep the functions call each other.
-/

namespace SchemaForest.Filter

/-- A part of a grammar: what it reads and the tokens behind that. -/
abbrev Reading (α : Type) := List Token → Option (α × List Token)

namespace Grammar

/-- Takes one symbol. -/
def symbol (s : String) (ts : List Token) : Option (List Token) :=
  match ts with
  | .symbol t :: rest => if s = t then some rest else none
  | _ => none

/-- Takes one word. -/
def word (w : String) (ts : List Token) : Option (List Token) :=
  match ts with
  | .word v :: rest => if w = v then some rest else none
  | _ => none

/-- The filter of a text. -/
def literal (s : String) : Term := .constant (.string s)

/-- The filter that makes texts of values by a format. -/
def format (name : String) : Term := .call ("@" ++ name) []

/-- A filter with the steps behind it. -/
def withSteps (base : Term) (steps : List (Step Term)) : Term :=
  if steps.isEmpty then base else .path base steps

/-- A fold over the outputs of a filter, by its word. -/
def fold (w : String) (source : Term) (p : Pattern) (arguments : List Term) : Term :=
  match w, arguments with
  | "reduce", [initial, update] => .reduce source p initial update
  | "foreach", [initial, update] => .each source p initial update .identity
  | "foreach", [initial, update, extract] => .each source p initial update extract
  | _, _ => .call w (source :: arguments)

/-- The operators that stand between two operands. -/
inductive Operator where
  | pipe
  | bind (pattern : Pattern)
  | comma
  | assign (assignment : Assignment)
  | alternative
  | disjunction
  | conjunction
  | compare (relation : Relation)
  | calculate (op : Operation)

namespace Operator

/-- How strongly an operator binds. -/
def strength : Operator → Nat
  | pipe => 0
  | bind _ => 0
  | comma => 1
  | assign _ => 2
  | alternative => 3
  | disjunction => 4
  | conjunction => 5
  | compare .eq => 6
  | compare .ne => 6
  | compare _ => 7
  | calculate .add => 8
  | calculate .sub => 8
  | calculate .mul => 9
  | calculate .div => 9
  | calculate .rem => 10

/-- The strength that operators in the right operand need. -/
def rightStrength : Operator → Nat
  | pipe => 0
  | bind _ => 0
  | assign _ => 2
  | op => op.strength + 1

/-- The filter of an operator and its operands. -/
def apply (op : Operator) (a b : Term) : Term :=
  match op with
  | pipe => .pipe a b
  | bind p => .bind a p b
  | comma => .both a b
  | assign s => .assign s a b
  | alternative => .alternative a b
  | disjunction => .disjunction a b
  | conjunction => .conjunction a b
  | compare r => .compare r a b
  | calculate o => .calculate o a b

/-- The operator of a symbol or a word. -/
def ofToken? (withComma : Bool) : Token → Option Operator
  | .symbol "|" => some pipe
  | .symbol "," => if withComma then some comma else none
  | .symbol "=" => some (assign .replace)
  | .symbol "|=" => some (assign .update)
  | .symbol "+=" => some (assign (.calculate .add))
  | .symbol "-=" => some (assign (.calculate .sub))
  | .symbol "*=" => some (assign (.calculate .mul))
  | .symbol "/=" => some (assign (.calculate .div))
  | .symbol "%=" => some (assign (.calculate .rem))
  | .symbol "//=" => some (assign .complete)
  | .symbol "//" => some alternative
  | .word "or" => some disjunction
  | .word "and" => some conjunction
  | .symbol "==" => some (compare .eq)
  | .symbol "!=" => some (compare .ne)
  | .symbol "<" => some (compare .lt)
  | .symbol "<=" => some (compare .le)
  | .symbol ">" => some (compare .gt)
  | .symbol ">=" => some (compare .ge)
  | .symbol "+" => some (calculate .add)
  | .symbol "-" => some (calculate .sub)
  | .symbol "*" => some (calculate .mul)
  | .symbol "/" => some (calculate .div)
  | .symbol "%" => some (calculate .rem)
  | _ => none

end Operator

/-- Whether question marks stand in front, and what stands behind them. -/
def takeGuards (guarded : Bool) : List Token → Bool × List Token
  | .symbol "?" :: rest => takeGuards true rest
  | ts => (guarded, ts)

/-- A step that has been read up to the question marks behind it. -/
def step (p : Part Term) (ts : List Token) : Step Term × List Token :=
  let (guarded, ts) := takeGuards false ts
  (⟨p, guarded⟩, ts)

mutual
/-- Operands with operators of at least some strength between them. -/
def expression (steps : Nat) (strength : Nat) (withComma : Bool) : Reading Term := fun ts =>
  match steps with
  | 0 => none
  | n + 1 => do
    let (a, ts) ← operand n withComma ts
    operators n strength withComma a ts

/-- The operators behind an operand that was read. -/
def operators (steps : Nat) (strength : Nat) (withComma : Bool) (a : Term) : Reading Term :=
  fun ts =>
  match steps with
  | 0 => none
  | n + 1 =>
    match ts with
    | .word "as" :: rest =>
      if strength = 0 then do
        let (p, rest) ← pattern n rest
        let rest ← symbol "|" rest
        let (b, rest) ← expression n 0 withComma rest
        operators n strength withComma (Operator.apply (.bind p) a b) rest
      else some (a, ts)
    | t :: rest =>
      match Operator.ofToken? withComma t with
      | some op =>
        if strength ≤ op.strength then do
          let (b, rest) ← expression n op.rightStrength withComma rest
          operators n strength withComma (op.apply a b) rest
        else some (a, ts)
      | none => some (a, ts)
    | [] => some (a, ts)

/-- An operand with its question marks and steps. -/
def operand (steps : Nat) (withComma : Bool) : Reading Term := fun ts =>
  match steps with
  | 0 => none
  | n + 1 =>
    match ts with
    | .field name :: rest => do
      let (s, rest) := step (.index (literal name)) rest
      suffixes n .identity [s] rest
    | .symbol "." :: rest =>
      match rest with
      | .quote :: _ | .format _ :: .quote :: _ => suffixes n .identity [] ts
      | rest => guards n .identity rest
    | ts => do
      let (a, ts) ← head n withComma ts
      guards n a ts

/-- The question marks behind an operand, then its steps. -/
def guards (steps : Nat) (a : Term) : Reading Term := fun ts =>
  match steps with
  | 0 => none
  | n + 1 =>
    match ts with
    | .symbol "?" :: rest => guards n (.attempt a .nothing) rest
    | ts => suffixes n a [] ts

/-- An operand without anything behind it. -/
def head (steps : Nat) (withComma : Bool) : Reading Term := fun ts =>
  match steps with
  | 0 => none
  | n + 1 =>
    match ts with
    | .symbol "-" :: rest => do
      let (a, rest) ← operand n withComma rest
      some (.negate a, rest)
    | .symbol ".." :: rest => some (.recurse, rest)
    | .number digits :: rest => some (.constant (.ofDigits digits), rest)
    | .variable name :: rest => some (.variable name, rest)
    | .quote :: _ | .format _ :: .quote :: _ => string n ts
    | .format f :: rest => some (format f, rest)
    | .symbol "(" :: rest => do
      let (a, rest) ← expression n 0 true rest
      let rest ← symbol ")" rest
      some (a, rest)
    | .symbol "[" :: .symbol "]" :: rest => some (.array .nothing, rest)
    | .symbol "[" :: rest => do
      let (a, rest) ← expression n 0 true rest
      let rest ← symbol "]" rest
      some (.array a, rest)
    | .symbol "\x7b" :: rest => do
      let (fields, rest) ← fieldList n rest
      some (.object fields, rest)
    | .word "if" :: rest => branches n rest
    | .word "try" :: rest => do
      let (a, rest) ← operand n withComma rest
      match word "catch" rest with
      | some rest =>
        let (b, rest) ← operand n withComma rest
        some (.attempt a b, rest)
      | none => some (.attempt a .nothing, rest)
    | .word "label" :: rest =>
      match rest with
      | .variable name :: rest => do
        let rest ← symbol "|" rest
        let (a, rest) ← expression n 0 withComma rest
        some (.label name a, rest)
      | _ => none
    | .word "break" :: rest =>
      match rest with
      | .variable name :: rest => some (.leave name, rest)
      | _ => none
    | .word "def" :: rest => do
      let (d, rest) ← definition n rest
      let (a, rest) ← expression n 0 withComma rest
      some (.define d.name d.parameters d.body a, rest)
    | .word w :: rest =>
      if w = "reduce" ∨ w = "foreach" then do
        let (source, rest) ← operand n withComma rest
        let rest ← word "as" rest
        let (p, rest) ← pattern n rest
        let (arguments, rest) ← argumentsAt n rest
        some (fold w source p arguments, rest)
      else do
        let (arguments, rest) ← argumentsAt n rest
        some (.call w arguments, rest)
    | _ => none

/-- The steps behind an operand. -/
def suffixes (steps : Nat) (base : Term) (found : List (Step Term)) : Reading Term := fun ts =>
  match steps with
  | 0 => none
  | n + 1 =>
    let key (ts : List Token) : Option (Term × List Token) := do
      let (k, rest) ← string n ts
      let (s, rest) := step (.index k) rest
      suffixes n base (found ++ [s]) rest
    match ts with
    | .symbol "[" :: rest | .symbol "." :: .symbol "[" :: rest => do
      let (p, rest) ← bracket n rest
      let (s, rest) := step p rest
      suffixes n base (found ++ [s]) rest
    | .field name :: rest =>
      let (s, rest) := step (.index (literal name)) rest
      suffixes n base (found ++ [s]) rest
    | .symbol "." :: .quote :: rest => key (.quote :: rest)
    | .symbol "." :: .format f :: .quote :: rest => key (.format f :: .quote :: rest)
    | ts => some (withSteps base found, ts)

/-- A part behind an opening bracket. -/
def bracket (steps : Nat) : Reading (Part Term) := fun ts =>
  match steps with
  | 0 => none
  | n + 1 =>
    match ts with
    | .symbol "]" :: rest => some (.all, rest)
    | .symbol ":" :: rest => do
      let (stop, rest) ← expression n 0 true rest
      let rest ← symbol "]" rest
      some (.stretch none (some stop), rest)
    | ts => do
      let (key, rest) ← expression n 0 true ts
      match rest with
      | .symbol "]" :: rest => some (.index key, rest)
      | .symbol ":" :: .symbol "]" :: rest => some (.stretch (some key) none, rest)
      | .symbol ":" :: rest => do
        let (stop, rest) ← expression n 0 true rest
        let rest ← symbol "]" rest
        some (.stretch (some key) (some stop), rest)
      | _ => none

/-- A text, maybe with a format in front. -/
def string (steps : Nat) : Reading Term := fun ts =>
  match steps with
  | 0 => none
  | n + 1 =>
    match ts with
    | .quote :: rest => do
      let (ps, rest) ← pieces n rest
      some (.text .asText ps, rest)
    | .format f :: .quote :: rest => do
      let (ps, rest) ← pieces n rest
      some (.text (format f) ps, rest)
    | _ => none

/-- The pieces of a text behind its opening quote. -/
def pieces (steps : Nat) : Reading (List Piece) := fun ts =>
  match steps with
  | 0 => none
  | n + 1 =>
    match ts with
    | .unquote :: rest => some ([], rest)
    | .piece s :: rest => do
      let (ps, rest) ← pieces n rest
      some (.literal s :: ps, rest)
    | .openHole :: rest => do
      let (a, rest) ← expression n 0 true rest
      match rest with
      | .closeHole :: rest => do
        let (ps, rest) ← pieces n rest
        some (.hole a :: ps, rest)
      | _ => none
    | _ => none

/-- The arguments of a filter, if a parenthesis opens here. -/
def argumentsAt (steps : Nat) : Reading (List Term) := fun ts =>
  match steps with
  | 0 => none
  | n + 1 =>
    match ts with
    | .symbol "(" :: rest => argumentList n rest
    | ts => some ([], ts)

/-- Arguments behind an opening parenthesis. -/
def argumentList (steps : Nat) : Reading (List Term) := fun ts =>
  match steps with
  | 0 => none
  | n + 1 => do
    let (a, rest) ← expression n 0 true ts
    match rest with
    | .symbol ")" :: rest => some ([a], rest)
    | .symbol ";" :: rest => do
      let (as, rest) ← argumentList n rest
      some (a :: as, rest)
    | _ => none

/-- The fields of an object behind its opening brace; a comma may stand behind the last. -/
def fieldList (steps : Nat) : Reading (List Field) := fun ts =>
  match steps with
  | 0 => none
  | n + 1 =>
    match ts with
    | .symbol "\x7d" :: rest => some ([], rest)
    | ts => do
      let (f, rest) ← objectField n ts
      match rest with
      | .symbol "\x7d" :: rest => some ([f], rest)
      | .symbol "," :: rest => do
        let (fs, rest) ← fieldList n rest
        some (f :: fs, rest)
      | _ => none

/-- A field of an object.  A key without a value takes the part of the input under it, a variable
    without one its own value. -/
def objectField (steps : Nat) : Reading Field := fun ts =>
  match steps with
  | 0 => none
  | n + 1 =>
    let value (key alone : Term) (ts : List Token) : Option (Field × List Token) :=
      match ts with
      | .symbol ":" :: rest => do
        let (v, rest) ← expression n 0 false rest
        some (.mk key v, rest)
      | ts => some (.mk key alone, ts)
    let partUnder (key : Term) : Term := .path .identity [⟨.index key, false⟩]
    match ts with
    | .variable name :: .symbol ":" :: rest =>
      value (.variable name) (.variable name) (.symbol ":" :: rest)
    | .variable name :: rest => some (.mk (literal name) (.variable name), rest)
    | .word w :: rest => value (literal w) (partUnder (literal w)) rest
    | .quote :: _ | .format _ :: .quote :: _ => do
      let (key, rest) ← string n ts
      value key (partUnder key) rest
    | .symbol "(" :: rest => do
      let (key, rest) ← expression n 0 true rest
      let rest ← symbol ")" rest
      let rest ← symbol ":" rest
      let (v, rest) ← expression n 0 false rest
      some (.mk key v, rest)
    | _ => none

/-- The branches behind `if` or `elif`. -/
def branches (steps : Nat) : Reading Term := fun ts =>
  match steps with
  | 0 => none
  | n + 1 => do
    let (condition, rest) ← expression n 0 true ts
    let rest ← word "then" rest
    let (yes, rest) ← expression n 0 true rest
    match rest with
    | .word "end" :: rest => some (.choose condition yes .identity, rest)
    | .word "elif" :: rest => do
      let (no, rest) ← branches n rest
      some (.choose condition yes no, rest)
    | .word "else" :: rest => do
      let (no, rest) ← expression n 0 true rest
      let rest ← word "end" rest
      some (.choose condition yes no, rest)
    | _ => none

/-- A definition behind `def`. -/
def definition (steps : Nat) : Reading Definition := fun ts =>
  match steps with
  | 0 => none
  | n + 1 => do
    let (name, rest) ←
      match ts with
      | .word name :: rest => some (name, rest)
      | .format name :: rest => some ("@" ++ name, rest)
      | _ => none
    let (parameters, rest) ←
      match rest with
      | .symbol "(" :: rest => parameterList n rest
      | rest => some ([], rest)
    let rest ← symbol ":" rest
    let (body, rest) ← expression n 0 true rest
    let rest ← symbol ";" rest
    some (⟨name, parameters, body⟩, rest)

/-- Parameters behind an opening parenthesis. -/
def parameterList (steps : Nat) : Reading (List String) := fun ts =>
  match steps with
  | 0 => none
  | n + 1 => do
    let (p, rest) ←
      match ts with
      | .word name :: rest => some (name, rest)
      | .variable name :: rest => some ("$" ++ name, rest)
      | _ => none
    match rest with
    | .symbol ")" :: rest => some ([p], rest)
    | .symbol ";" :: rest => do
      let (ps, rest) ← parameterList n rest
      some (p :: ps, rest)
    | _ => none

/-- A pattern. -/
def pattern (steps : Nat) : Reading Pattern := fun ts =>
  match steps with
  | 0 => none
  | n + 1 =>
    match ts with
    | .variable name :: rest => some (.variable name, rest)
    | .symbol "[" :: rest => do
      let (es, rest) ← itemPatterns n 0 rest
      some (.parts es, rest)
    | .symbol "\x7b" :: rest => do
      let (es, rest) ← fieldPatterns n rest
      some (.parts es, rest)
    | _ => none

/-- Patterns for the items of an array from some place on; a comma may stand behind the last. -/
def itemPatterns (steps : Nat) (place : Nat) : Reading (List PatternEntry) := fun ts =>
  match steps with
  | 0 => none
  | n + 1 => do
    let (p, rest) ← pattern n ts
    let entry : PatternEntry := .mk (.constant (.ofNat place)) p
    match rest with
    | .symbol "]" :: rest | .symbol "," :: .symbol "]" :: rest => some ([entry], rest)
    | .symbol "," :: rest => do
      let (es, rest) ← itemPatterns n (place + 1) rest
      some (entry :: es, rest)
    | _ => none

/-- Patterns for the fields of an object; a comma may stand behind the last. -/
def fieldPatterns (steps : Nat) : Reading (List PatternEntry) := fun ts =>
  match steps with
  | 0 => none
  | n + 1 => do
    let behind (key : Term) (ts : List Token) : Option (List PatternEntry × List Token) := do
      let rest ← symbol ":" ts
      let (p, rest) ← pattern n rest
      some ([.mk key p], rest)
    let (found, rest) ←
      match ts with
      | .variable name :: .symbol ":" :: rest => do
        let (p, rest) ← pattern n rest
        some ([.mk (literal name) (.variable name), .mk (literal name) p], rest)
      | .variable name :: rest => some ([.mk (literal name) (.variable name)], rest)
      | .word w :: rest => behind (literal w) rest
      | .quote :: _ | .format _ :: .quote :: _ => do
        let (key, rest) ← string n ts
        behind key rest
      | .symbol "(" :: rest => do
        let (key, rest) ← expression n 0 true rest
        let rest ← symbol ")" rest
        behind key rest
      | _ => none
    match rest with
    | .symbol "\x7d" :: rest | .symbol "," :: .symbol "\x7d" :: rest => some (found, rest)
    | .symbol "," :: rest => do
      let (es, rest) ← fieldPatterns n rest
      some (found ++ es, rest)
    | _ => none
end

/-- Definitions up to the end of a text. -/
def definitions (steps : Nat) : List Token → Option (List Definition)
  | [] => some []
  | .word "def" :: rest =>
    match steps with
    | 0 => none
    | n + 1 => do
      let (d, rest) ← definition n rest
      let ds ← definitions n rest
      some (d :: ds)
  | _ => none

/-- Enough steps for some tokens: between two of them lie no more than eight calls. -/
def stepBound (ts : List Token) : Nat := 8 * (ts.length + 2)

/-- The tokens behind a description of a module, if there is one.  There are no other modules to be
    had, so nothing can be taken from them. -/
def withoutModule (ts : List Token) : Option (List Token) := do
  let ts ←
    match ts with
    | .word "module" :: rest => do
      let (_, rest) ← expression (stepBound rest) 0 true rest
      symbol ";" rest
    | ts => some ts
  match ts with
  | .word "import" :: _ | .word "include" :: _ => none
  | ts => some ts

end Grammar

/-- The filter of a text, if the text is one. -/
def Term.ofText? (s : String) : Option Term := do
  let ts ← Token.ofText s
  let ts ← Grammar.withoutModule ts
  match Grammar.expression (Grammar.stepBound ts) 0 true ts with
  | some (t, []) => some t
  | _ => none

/-- The definitions of a text, if it holds nothing else. -/
def Definition.listOfText? (s : String) : Option (List Definition) :=
  (Token.ofText s).bind fun ts => Grammar.definitions (Grammar.stepBound ts) ts

end SchemaForest.Filter
