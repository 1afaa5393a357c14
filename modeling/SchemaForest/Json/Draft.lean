import SchemaForest.Json.Basic

/-!
# Drafts

A draft is a JSON text read as far as it goes: values and containers up to the first syntax error,
and that error in its place.  Whoever looks at a draft meets the error only if it gets there, so a
fault of shape that stands further to the front wins.

1. `SyntaxError` lists what can be wrong with a text.
2. `Draft` is the text read so far.  A field of an object remembers besides its value what a reader
   meets that steps over the value without looking at it.
3. `Draft.ofJson` shows a finished value as a draft, `Draft.content` turns a draft without errors
   back into a value, and tells where the first error stands otherwise.
-/

namespace SchemaForest

/-- What can be wrong with a JSON text. -/
inductive SyntaxError where
  | endInValue
  | endInObject
  | endInList
  | endInString
  | noValue
  | unknownWord
  | noColon
  | noListComma
  | noObjectComma
  | trailingComma
  | trailingText
  | keyNotString
  | badNumber
  | numberOutOfRange
  | badEscape
  | halfSurrogate
  | loneSurrogate
  | rawControl
  | tooDeep
deriving DecidableEq

/-- The message of a syntax error. -/
def SyntaxError.message : SyntaxError → String
  | .endInValue => "EOF while parsing a value"
  | .endInObject => "EOF while parsing an object"
  | .endInList => "EOF while parsing a list"
  | .endInString => "EOF while parsing a string"
  | .noValue => "expected value"
  | .unknownWord => "expected ident"
  | .noColon => "expected `:`"
  | .noListComma => "expected `,` or `]`"
  | .noObjectComma => "expected `,` or `\x7d`"
  | .trailingComma => "trailing comma"
  | .trailingText => "trailing characters"
  | .keyNotString => "key must be a string"
  | .badNumber => "invalid number"
  | .numberOutOfRange => "number out of range"
  | .badEscape => "invalid escape"
  | .halfSurrogate => "unexpected end of hex escape"
  | .loneSurrogate => "lone leading surrogate in hex escape"
  | .rawControl => "control character (\\u0000-\\u001F) found while parsing a string"
  | .tooDeep => "recursion limit exceeded"

/-! ## Places -/

/-- One step from a value to a part of it. -/
inductive Step where
  | key (name : String)
  | index (i : Nat)
  /-- A field whose name was not read. -/
  | unread
deriving DecidableEq

/-- The way from the root of a document to a part of it. -/
abbrev Path := List Step

namespace Path

/-- The steps as text: names behind points, indices in brackets, and a question mark for a name
    that was not read. -/
def steps (first : Bool) : Path → String
  | [] => ""
  | .key name :: rest => (if first then "" else ".") ++ name ++ steps false rest
  | .index i :: rest => "[" ++ toString i ++ "]" ++ steps false rest
  | .unread :: rest => (if first then "" else ".") ++ "?" ++ steps false rest

/-- The text of a path; a point stands for the root. -/
def text (p : Path) : String := if p = [] then "." else steps true p

end Path

/-- A cause and the place where it was found. -/
structure Located (ε : Type) where
  path : Path
  cause : ε
deriving DecidableEq

namespace Located

variable {α ε : Type}

/-- A cause at the root. -/
def here (e : ε) : Except (Located ε) α := .error ⟨[], e⟩

/-- Puts a step in front of the place of an error. -/
def within (step : Step) : Except (Located ε) α → Except (Located ε) α
  | .ok a => .ok a
  | .error e => .error ⟨step :: e.path, e.cause⟩

end Located

/-! ## Drafts -/

mutual
/-- A value read as far as it goes. -/
inductive Draft where
  | null
  | bool (b : Bool)
  | integer (i : Int)
  | float (x : Double)
  | string (s : String)
  | array (items : DraftItems)
  | object (fields : DraftFields)
  /-- No value could be read here. -/
  | broken (error : SyntaxError)

/-- The items of an array, up to its end or to an error between two items. -/
inductive DraftItems where
  | done
  | failed (error : SyntaxError)
  | item (value : Draft) (rest : DraftItems)

/-- The fields of an object, up to its end or to an error. -/
inductive DraftFields where
  | done
  /-- The error stands before the value of a field and before the end of its name. -/
  | failed (error : SyntaxError)
  /-- The name was read, but no colon behind it. -/
  | unvalued (name : String) (error : SyntaxError)
  /-- A field: `stepped` is the error of a reader that steps over the value. -/
  | field (name : String) (value : Draft) (stepped : Option SyntaxError) (rest : DraftFields)
end

namespace Draft

mutual
/-- A finished value as a draft. -/
def ofJson : Json → Draft
  | .null => .null
  | .bool b => .bool b
  | .integer i => .integer i
  | .float x => .float x
  | .string s => .string s
  | .array items => .array (ofItems items)
  | .object fields => .object (ofFields fields)

def ofItems : List Json → DraftItems
  | [] => .done
  | v :: rest => .item (ofJson v) (ofItems rest)

def ofFields : List (String × Json) → DraftFields
  | [] => .done
  | (name, v) :: rest => .field name (ofJson v) none (ofFields rest)
end

mutual
/-- The value of a draft with all its fields, repeated names included, or the first error and where
    it stands. -/
def content : Draft → Except (Located SyntaxError) Json
  | .null => .ok .null
  | .bool b => .ok (.bool b)
  | .integer i => .ok (.integer i)
  | .float x => .ok (.float x)
  | .string s => .ok (.string s)
  | .array items => (contentItems 0 items).map .array
  | .object fields => (contentFields fields).map .object
  | .broken e => Located.here e

/-- The items from the `i`-th on. -/
def contentItems (i : Nat) : DraftItems → Except (Located SyntaxError) (List Json)
  | .done => .ok []
  | .failed e => Located.here e
  | .item value rest => do
    let v ← Located.within (.index i) (content value)
    let vs ← contentItems (i + 1) rest
    return v :: vs

def contentFields : DraftFields → Except (Located SyntaxError) (List (String × Json))
  | .done => .ok []
  | .failed e => .error ⟨[.unread], e⟩
  | .unvalued _ e => Located.here e
  | .field name value _ rest => do
    let v ← Located.within (.key name) (content value)
    let vs ← contentFields rest
    return (name, v) :: vs
end

mutual
/-- A finished value has no syntax error, and nothing is lost. -/
theorem content_ofJson (v : Json) : content (ofJson v) = .ok v := by
  cases v with
  | array items => simp [ofJson, content, contentItems_ofItems, Except.map]
  | object fields => simp [ofJson, content, contentFields_ofFields, Except.map]
  | _ => rfl

theorem contentItems_ofItems (i : Nat) (vs : List Json) :
    contentItems i (ofItems vs) = .ok vs := by
  cases vs with
  | nil => rfl
  | cons v rest =>
    simp only [ofItems, contentItems, content_ofJson v, contentItems_ofItems (i + 1) rest, Located.within]
    rfl

theorem contentFields_ofFields (fs : List (String × Json)) :
    contentFields (ofFields fs) = .ok fs := by
  cases fs with
  | nil => rfl
  | cons f rest =>
    obtain ⟨name, v⟩ := f
    simp only [ofFields, contentFields, content_ofJson v, contentFields_ofFields rest, Located.within]
    rfl
end

end Draft

end SchemaForest
