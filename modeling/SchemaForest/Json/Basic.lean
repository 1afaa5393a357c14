import SchemaForest.Entries
import SchemaForest.Number.Double

/-!
# JSON values

A value keeps what its text shows: integers and floating point numbers are told apart, and the
fields of an object stand in order.  A value that was put together from a text may hold a name
twice; `collapse` leaves the last value of each name in the first place.
-/

namespace SchemaForest

/-- A JSON value. -/
inductive Json where
  | null
  | bool (b : Bool)
  | integer (i : Int)
  | float (x : Double)
  | string (s : String)
  | array (items : List Json)
  | object (fields : List (String × Json))
deriving Inhabited

namespace Json

/-- The value under a name of an object. -/
def field? : Json → String → Option Json
  | .object fields, name => Entries.get? fields name
  | _, _ => none

mutual
/-- The value with every object reduced to one field for each name. -/
def collapse : Json → Json
  | .array items => .array (collapseItems items)
  | .object fields => .object (Entries.ofPairs (collapseFields fields))
  | .null => .null
  | .bool b => .bool b
  | .integer i => .integer i
  | .float x => .float x
  | .string s => .string s

def collapseItems : List Json → List Json
  | [] => []
  | v :: rest => collapse v :: collapseItems rest

def collapseFields : List (String × Json) → List (String × Json)
  | [] => []
  | (k, v) :: rest => (k, collapse v) :: collapseFields rest
end

end Json

end SchemaForest
