import SchemaForest.Filter.Part
import SchemaForest.Text.Regex

/-!
# Regular expressions under filters

A search takes a text apart into what lies between matches and the matches themselves.  A match is an
array of objects: the whole of it and then the groups that took part.
-/

namespace SchemaForest.Filter.Search

open SchemaForest.Text (Regex)

/-- How a search is done. -/
structure Manner where
  reading : Regex.Flags
  /-- All matches, not only the first. -/
  everywhere : Bool
  /-- Only matches that are not empty. -/
  skipsEmpty : Bool

/-- The manner that letters ask for. -/
def Manner.ofLetters? (m : Manner) : List Char → Option Manner
  | [] => some m
  | 'g' :: r => ofLetters? { m with everywhere := true } r
  | 'n' :: r => ofLetters? { m with skipsEmpty := true } r
  | 'i' :: r => ofLetters? { m with reading := { m.reading with anyCase := true } } r
  | 'x' :: r => ofLetters? { m with reading := { m.reading with spaced := true } } r
  | 's' :: r => ofLetters? { m with reading := { m.reading with dotAll := true } } r
  | 'l' :: r => ofLetters? { m with reading := { m.reading with lazy := true } } r
  | _ => none

/-- The manner without any letters. -/
def Manner.plain : Manner := ⟨⟨false, false, false, false, false⟩, false, false⟩

/-- A stretch of a text as an object. -/
def stretch (text : List Char) (name : Option String) (start stop : Nat) : Value :=
  .object ([("offset", .ofNat start), ("length", .ofNat (stop - start)),
    ("string", .string (String.ofList ((text.drop start).take (stop - start))))] ++
    name.toList.map fun n => ("name", .string n))

/-- A match as an array. -/
def ofMatch (text : List Char) (source : Regex.Source) (start : Nat) (spot : Regex.Spot) : Value :=
  .array (stretch text none start spot.place ::
    (List.range source.groups).filterMap fun i =>
      (spot.groups.find? (·.1 == i + 1)).map fun g =>
        stretch text (source.names.lookup (i + 1)) g.2.1 g.2.2)

/-- The parts of a text: from a place on, what lies in front of each match and the match. -/
def partsFrom (text : List Char) (source : Regex.Source) (between whole : Bool) (place : Nat) :
    List (Nat × Regex.Spot) → List Value
  | [] => if between then [.string (String.ofList (text.drop place))] else []
  | (start, spot) :: rest =>
    (if between then [.string (String.ofList ((text.drop place).take (start - place)))] else []) ++
      (if whole then [ofMatch text source start spot] else []) ++
      partsFrom text source between whole spot.place rest

/-- Takes a text apart by an expression.  A match at the very end of the text does not count. -/
def run (between whole : Bool) (v expression letters : Value) : Except Failure Value :=
  match letters, expression, v with
  | .string l, .string e, .string s =>
    match Manner.plain.ofLetters? l.toList with
    | none => .error (.ofText ("invalid regex flag: " ++ l))
    | some m =>
      match Regex.ofText? m.reading e.toList with
      | none => .error (.ofText ("invalid regex: " ++ e))
      | some (regex, source) =>
        let text := s.toList
        let found := (regex.findAll text).filter fun (start, spot) =>
          start < text.length && !(m.skipsEmpty && start == spot.place)
        .ok (.array (partsFrom text source between whole 0
          (if m.everywhere then found else found.take 1)))
  | .string _, .string _, v => .error (.misuse v "string")
  | .string _, e, _ => .error (.misuse e "string")
  | l, _, _ => .error (.misuse l "string")

end SchemaForest.Filter.Search
