import SchemaForest.CommandLine.FileSystem

/-!
# Patterns for paths

In a pattern `?` stands for any character, `*` for any text, `[…]` for a character of a set and
`[!…]` for one outside it; `**` as a whole component stands for any directories.  A pattern is
matched component by component, so nothing but `**` crosses a slash.  Names match whatever they start
with, and matches come in order of their names, a directory before what it holds.  A directory that
cannot be listed comes among the matches as a fault.
-/

namespace SchemaForest.CommandLine.Glob

/-- Why a text is no pattern. -/
inductive Fault where
  | wildcards
  | recursive
  | range
deriving DecidableEq

/-- A fault with the place where it was noticed. -/
structure PatternError where
  position : Nat
  fault : Fault
deriving DecidableEq

/-- The error in words. -/
def PatternError.message (e : PatternError) : String :=
  "Pattern syntax error near position " ++ toString e.position ++ ": " ++
    match e.fault with
    | .wildcards => "wildcards are either regular `*` or recursive `**`"
    | .recursive => "recursive wildcards must form a single path component"
    | .range => "invalid range pattern"

/-- A directory that cannot be listed. -/
structure ListingError where
  path : String
  cause : SystemError
deriving DecidableEq

/-- The error in words. -/
def ListingError.message (e : ListingError) : String :=
  "attempting to read `" ++ e.path ++ "` resulted in an error: " ++ e.cause.message

/-- Something that was found, or a directory in which nothing can be found. -/
abbrev Found (α : Type) := Except ListingError α

/-- A part of a set of characters. -/
structure Range where
  first : Char
  last : Char
deriving DecidableEq

/-- A piece of a pattern. -/
inductive Piece where
  | char (c : Char)
  | anyChar
  | anyText
  | within (set : List Range)
  | outside (set : List Range)
  | anyDirectories
deriving DecidableEq

/-- The parts of a set as written. -/
def ranges : List Char → List Range
  | a :: '-' :: b :: rest => ⟨a, b⟩ :: ranges rest
  | a :: rest => ⟨a, a⟩ :: ranges rest
  | [] => []

/-- The place of the closing bracket in a text. -/
def closing? (s : List Char) : Option Nat := s.findIdx? (· == ']')

/-- The set behind an opening bracket and the length of what it takes.  The first character of a set
    is never its end. -/
def setAt? (s : List Char) : Option (Piece × Nat) :=
  match s with
  | '!' :: rest =>
    if 2 ≤ rest.length then
      (closing? (rest.drop 1)).map fun j => (.outside (ranges (rest.take (j + 1))), j + 3)
    else none
  | rest =>
    if 2 ≤ rest.length then
      (closing? (rest.drop 1)).map fun j => (.within (ranges (rest.take (j + 1))), j + 2)
    else none

/-- The pieces of a text from a position on, given the character in front of it; `skip` characters
    belong to the piece before. -/
def piecesFrom (position skip : Nat) (before : Option Char) :
    List Char → Except PatternError (List Piece)
  | [] => .ok []
  | c :: rest =>
    match skip with
    | n + 1 => piecesFrom (position + 1) n (some c) rest
    | 0 =>
      let following (p : Piece) (skip : Nat) : Except PatternError (List Piece) :=
        (piecesFrom (position + 1) skip (some c) rest).map (p :: ·)
      if c = '?' then following .anyChar 0
      else if c = '*' then
        let more := (rest.takeWhile (· == '*')).length
        if more = 0 then following .anyText 0
        else if more = 1 then
          if before.isNone || before == some '/' then
            match rest.drop 1 with
            | [] => following .anyDirectories 1
            | '/' :: _ => following .anyDirectories 2
            | _ => .error ⟨position + 2, .recursive⟩
          else .error ⟨position - 1, .recursive⟩
        else .error ⟨position + 2, .wildcards⟩
      else if c = '[' then
        match setAt? rest with
        | some (p, n) => following p n
        | none => .error ⟨position, .range⟩
      else following (.char c) 0

/-- The pieces of a text. -/
def pieces (s : List Char) : Except PatternError (List Piece) := piecesFrom 0 0 none s

/-- Whether a set holds a character. -/
def inSet (set : List Range) (c : Char) : Bool := set.any fun r => r.first ≤ c && c ≤ r.last

/-- Whether a text or an end of it passes a test. -/
def anyEnd (test : List Char → Bool) : List Char → Bool
  | [] => test []
  | c :: s => test (c :: s) || anyEnd test s

/-- Whether a name has the form of some pieces. -/
def isMatch : List Piece → List Char → Bool
  | [], s => s.isEmpty
  | .anyText :: ps, s => anyEnd (isMatch ps) s
  | .anyDirectories :: ps, s => anyEnd (isMatch ps) s
  | p :: ps, s =>
    match s with
    | [] => false
    | c :: rest =>
      (match p with
        | .char d => c == d
        | .within set => inSet set c
        | .outside set => !inSet set c
        | _ => true) && isMatch ps rest

/-- A component of a pattern. -/
inductive Component where
  /-- A name without anything special. -/
  | name (s : String)
  | form (pieces : List Piece)
  | directories
deriving DecidableEq

namespace Component

/-- The name that some pieces spell. -/
def name? : List Piece → Option (List Char)
  | [] => some []
  | .char c :: ps => (name? ps).map (c :: ·)
  | _ => none

/-- The component of some pieces. -/
def ofPieces (ps : List Piece) : Component :=
  if ps = [.anyDirectories] then .directories
  else match name? ps with
    | some cs => .name (String.ofList cs)
    | none => .form ps

/-- Whether a component matches a name of a directory. -/
def accepts (c : Component) (s : String) : Bool :=
  match c with
  | .name t => s == t
  | .form ps => isMatch ps s.toList
  | .directories => true

/-- Whether a component spells a leading point. -/
def startsWithPoint : Component → Bool
  | .form (.char '.' :: _) => true
  | _ => false

end Component

/-- A pattern. -/
structure Pattern where
  components : List Component
  /-- Whether only directories match: a slash stands at the end. -/
  onlyDirectories : Bool
  isAbsolute : Bool

/-- The pattern of a text.  The whole text is checked before its components. -/
def Pattern.ofText (text : String) : Except PatternError Pattern := do
  let _ ← pieces text.toList
  let parts := Path.pieces text.toList
  let endsWithSlash := Path.endsInSlash text
  let parts := if endsWithSlash then parts.dropLast else parts
  let parts := if Path.isAbsolute text then parts.tail else parts
  let components ← parts.mapM fun p => (pieces p).map Component.ofPieces
  .ok ⟨components, endsWithSlash, Path.isAbsolute text⟩

/-- A place in the files: its path, and the entries around it from the inside out. -/
structure Place where
  path : String
  trail : List Entry

namespace Place

def entry (p : Place) : Entry := p.trail.headD (.directory [])

/-- The entries around the directory that holds a place; the root is around itself. -/
def above (p : Place) : List Entry := if p.trail.length ≤ 1 then p.trail else p.trail.tail

/-- Whether a path leads nowhere but to where it began: it has no steps but points. -/
def isStart (p : Place) : Bool :=
  !Path.isAbsolute p.path && (Path.steps p.path).all (· == ".")

/-- The path of a name at a place; the start is left out of paths. -/
def pathTo (p : Place) (name : String) : String :=
  if p.isStart then name else Path.join p.path name

/-- The place of a name that has nothing special, if it is there.  The points of a locked directory
    are taken as they are, and lead nowhere. -/
def step? (p : Place) (name : String) : Option Place :=
  match p.entry with
  | .file _ | .locked false => none
  | .locked true =>
    if name = "." ∨ name = ".." then some ⟨p.pathTo name, [.locked false]⟩
    else if name = "" ∧ !p.isStart then some ⟨p.pathTo "", p.trail⟩
    else none
  | .directory es =>
    if name = "." then some ⟨p.pathTo ".", p.trail⟩
    else if name = ".." then some ⟨p.pathTo "..", p.above⟩
    else if name = "" then
      if p.isStart then none else some ⟨p.pathTo "", p.trail⟩
    else (Entries.get? es name).map fun e => ⟨p.pathTo name, e :: p.trail⟩

/-- What a directory holds, in order. -/
def children (p : Place) : List (Found (String × Place)) :=
  match p.entry with
  | .directory es => es.map fun (n, e) => .ok (n, ⟨p.pathTo n, e :: p.trail⟩)
  | .file _ | .locked false => []
  | .locked true => [.error ⟨p.path, .denied⟩]

end Place

mutual
/-- All that a directory holds, a directory before its contents. -/
def below (start : Bool) (path : String) (trail : List Entry) :
    Entry → List (Found (String × Place))
  | .directory es => belowAll start path (.directory es :: trail) es
  | .file _ | .locked false => []
  | .locked true => [.error ⟨path, .denied⟩]

def belowAll (start : Bool) (path : String) (trail : List Entry) :
    List (String × Entry) → List (Found (String × Place))
  | [] => []
  | (n, e) :: rest =>
    let here := if start then n else Path.join path n
    .ok (n, ⟨here, e :: trail⟩) :: below false here trail e ++ belowAll start path trail rest
end

/-- What comes of each thing that was found, with the faults in between. -/
def onFound {α β : Type} (found : List (Found α)) (f : α → List (Found β)) : List (Found β) :=
  found.flatMap fun
    | .ok a => f a
    | .error e => [.error e]

/-- Whether a place may be the end of a match. -/
def mayEnd (onlyDirectories : Bool) (p : Place) : Bool :=
  !onlyDirectories || p.entry.isDirectory

/-- The paths under a place that match some components. -/
def expand (onlyDirectories : Bool) : List Component → Place → List (Found String)
  | [], p => if mayEnd onlyDirectories p then [.ok p.path] else []
  | .name s :: rest, p =>
    match p.step? s with
    | some q => expand onlyDirectories rest q
    | none => []
  | .directories :: .directories :: rest, p => expand onlyDirectories (.directories :: rest) p
  | [.directories], p =>
    onFound (below p.isStart p.path p.trail.tail p.entry) fun (_, q) =>
      if q.entry.isDirectory then [.ok q.path] else []
  | .directories :: c :: rest, p =>
    onFound (below p.isStart p.path p.trail.tail p.entry) fun (n, q) =>
      if c.accepts n then expand onlyDirectories rest q else []
  | .form ps :: rest, p =>
    let c := Component.form ps
    let special (name : String) : List (Found String) :=
      match p.entry with
      | .directory _ =>
        if c.startsWithPoint && c.accepts name then
          match p.step? name with
          | some q => expand onlyDirectories rest ⟨Path.join p.path name, q.trail⟩
          | none => []
        else []
      | .file _ | .locked _ => []
    special ".." ++ special "." ++
      onFound p.children fun (n, q) =>
        if c.accepts n then expand onlyDirectories rest q else []

/-- The paths of the files that match a pattern, and the directories that cannot be listed, in the
    order in which they are met. -/
def Pattern.paths (pattern : Pattern) (fs : FileSystem) : List (Found String) :=
  expand pattern.onlyDirectories pattern.components
    (if pattern.isAbsolute then ⟨"/", [.directory fs.root]⟩ else ⟨".", fs.trail⟩)

end SchemaForest.CommandLine.Glob
