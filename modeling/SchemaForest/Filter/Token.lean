import SchemaForest.Text.Blank
import SchemaForest.Number.Decimal

/-!
# Tokens of filters

The written language is ASCII outside strings and comments.  A string may hold filters in
parentheses behind a backslash; its pieces and the tokens of those filters stand between `quote` and
`unquote`, so the tokens of a text are one flat list.  The scanner keeps, for each hole that it is
in, how many parentheses are open there.
-/

namespace SchemaForest.Filter

/-- A token. -/
inductive Token where
  | word (name : String)
  /-- A name behind a dollar sign. -/
  | variable (name : String)
  /-- A name behind an at sign. -/
  | format (name : String)
  /-- A name directly behind a point. -/
  | field (name : String)
  | number (digits : List Char)
  | symbol (text : String)
  | quote
  | piece (text : String)
  | openHole
  | closeHole
  | unquote
deriving DecidableEq

namespace Token

def isNameStart (c : Char) : Bool := c.isAlpha || c == '_'

def isNameChar (c : Char) : Bool := c.isAlphanum || c == '_'

/-- The characters that begin operators. -/
def isOperatorChar (c : Char) : Bool := "|=!<>+-*/%".toList.contains c

/-- The characters that go on with an operator. -/
def isOperatorTail (c : Char) : Bool := c == '=' || c == '/'

/-- The characters that are a token alone. -/
def isPunctuation (c : Char) : Bool := ":;,?".toList.contains c

/-- The text behind a comment.  A backslash at the end of a line carries the comment on, unless it
    is itself behind a backslash. -/
def skipComment (escaped : Bool) : List Char → List Char
  | [] => []
  | '\n' :: r => if escaped then skipComment false r else '\n' :: r
  | '\r' :: '\n' :: r => if escaped then skipComment false r else '\n' :: r
  | c :: r => skipComment (c == '\\' && !escaped) r

theorem length_skipComment_le (escaped : Bool) (s : List Char) :
    (skipComment escaped s).length ≤ s.length := by
  fun_induction skipComment escaped s <;> simp_all <;> omega

/-- The text behind blanks and comments. -/
def skipGaps (s : List Char) : List Char :=
  match s with
  | [] => []
  | c :: r =>
    if Text.isBlank c then skipGaps r
    else if c = '#' then skipGaps (skipComment false r)
    else c :: r
termination_by s.length
decreasing_by
  · simp
  · have := length_skipComment_le false r; simp only [List.length_cons]; omega

/-- Some characters in front and the digits behind them, of which there has to be one. -/
def digitsBehind (front s : List Char) : Option (List Char × List Char) :=
  let digits := s.takeWhile Char.isDigit
  if digits = [] then none else some (front ++ digits, s.dropWhile Char.isDigit)

/-- The exponent of a number, if there is one. -/
def exponentAt (s : List Char) : Option (List Char × List Char) :=
  match s with
  | c :: r =>
    if c = 'e' || c = 'E' then
      match r with
      | '+' :: r => digitsBehind [c, '+'] r
      | '-' :: r => digitsBehind [c, '-'] r
      | r => digitsBehind [c] r
    else some ([], s)
  | [] => some ([], [])

/-- The characters of a number: whole part, fraction, exponent.  None if a point or an exponent has
    no digits. -/
def numberAt (s : List Char) : Option (List Char × List Char) := do
  let (fraction, r) ←
    match s.dropWhile Char.isDigit with
    | '.' :: r => digitsBehind ['.'] r
    | r => some ([], r)
  let (exponent, r) ← exponentAt r
  some (s.takeWhile Char.isDigit ++ fraction ++ exponent, r)

/-- The value of four hexadecimal digits. -/
def hexValue? (s : List Char) : Option (Nat × List Char) :=
  let digits := s.take 4
  if digits.length = 4 && digits.all (Decimal.isDigitOf 16) then
    some (Decimal.ofDigits 16 digits, s.drop 4)
  else none

/-- The character of an escape and the text behind it. -/
def escape? : List Char → Option (Char × List Char)
  | '\\' :: r => some ('\\', r)
  | '/' :: r => some ('/', r)
  | '"' :: r => some ('"', r)
  | 'b' :: r => some ('\x08', r)
  | 'f' :: r => some ('\x0c', r)
  | 'n' :: r => some ('\n', r)
  | 'r' :: r => some ('\r', r)
  | 't' :: r => some ('\t', r)
  | 'u' :: r =>
    match hexValue? r with
    | some (n, r) => if n.isValidChar then some (Char.ofNat n, r) else none
    | none => none
  | _ => none

/-- A name that begins here and what is behind it. -/
def simpleNameAt (s : List Char) : Option (List Char × List Char) :=
  match s with
  | c :: r =>
    if isNameStart c then some (c :: r.takeWhile isNameChar, r.dropWhile isNameChar) else none
  | [] => none

/-- A name that begins here and what is behind it.  A pair of colons may join two names to one. -/
def nameAt (s : List Char) : Option (String × List Char) := do
  let (name, r) ← simpleNameAt s
  match r with
  | ':' :: ':' :: r =>
    let (last, r) ← simpleNameAt r
    some (String.ofList (name ++ ':' :: ':' :: last), r)
  | r => some (String.ofList name, r)

mutual
/-- The tokens of a text outside strings, in at most so many steps. -/
def scanCode (steps : Nat) (holes : List Nat) (s : List Char) : Option (List Token) :=
  match steps with
  | 0 => none
  | n + 1 =>
    match skipGaps s with
    | [] => if holes = [] then some [] else none
    | c :: r =>
      let single (holes : List Nat) : Option (List Token) :=
        (scanCode n holes r).map (.symbol c.toString :: ·)
      let named (token : String → Token) (s : List Char) : Option (List Token) :=
        match nameAt s with
        | some (name, r) => (scanCode n holes r).map (token name :: ·)
        | none => none
      if isNameStart c then named .word (c :: r)
      else if c.isDigit then
        match numberAt (c :: r) with
        | some (digits, r) => (scanCode n holes r).map (.number digits :: ·)
        | none => none
      else if isOperatorChar c then
        let sign := String.ofList (c :: r.takeWhile isOperatorTail)
        (scanCode n holes (r.dropWhile isOperatorTail)).map (.symbol sign :: ·)
      else if isPunctuation c then single holes
      else
        match c, r with
        | '"', r => (scanQuoted n holes [] r).map (.quote :: ·)
        | '$', r => named .variable r
        | '@', r => named .format r
        | '.', '.' :: r => (scanCode n holes r).map (.symbol ".." :: ·)
        | '.', r =>
          match simpleNameAt r with
          | some (name, r) => (scanCode n holes r).map (.field (String.ofList name) :: ·)
          | none => single holes
        | '(', _ =>
          match holes with
          | h :: hs => single ((h + 1) :: hs)
          | [] => single []
        | ')', r =>
          match holes with
          | 0 :: hs => (scanQuoted n hs [] r).map (.closeHole :: ·)
          | (h + 1) :: hs => single (h :: hs)
          | [] => single []
        | '[', _ | ']', _ => single holes
        | '\x7b', _ | '\x7d', _ => single holes
        | _, _ => none

/-- The tokens of a text inside a string; `held` is the piece so far, last character first. -/
def scanQuoted (steps : Nat) (holes : List Nat) (held : List Char) (s : List Char) :
    Option (List Token) :=
  match steps with
  | 0 => none
  | n + 1 =>
    let finish (rest : Option (List Token)) : Option (List Token) :=
      rest.map fun ts =>
        if held = [] then ts else .piece (String.ofList held.reverse) :: ts
    match s with
    | [] => none
    | '"' :: r => finish ((scanCode n holes r).map (.unquote :: ·))
    | '\\' :: '(' :: r => finish ((scanCode n (0 :: holes) r).map (.openHole :: ·))
    | '\\' :: r =>
      match escape? r with
      | some (c, r) => scanQuoted n holes (c :: held) r
      | none => none
    | c :: r => scanQuoted n holes (c :: held) r
end

/-- The tokens of a text, if it has only such.  Every step takes a character. -/
def ofText (text : String) : Option (List Token) :=
  scanCode (text.length + 1) [] text.toList

end Token

end SchemaForest.Filter
