import SchemaForest.Filter.Part

/-!
# Filters

A filter turns a value into a stream of values.  Short forms of the written language are gone here:
an `if` without `else` leaves its input, a key without a value takes the part of the input under it.
`Term.isClosed` says whether every filter, variable and label that a term names is known.
-/

namespace SchemaForest.Filter

/-- What becomes of the places that an assignment names. -/
inductive Assignment where
  /-- A filter is run on each of them. -/
  | update
  /-- They take a value. -/
  | replace
  /-- They are calculated with a value. -/
  | calculate (op : Operation)
  /-- Those that count as false take a value. -/
  | complete
deriving DecidableEq

mutual
/-- A filter. -/
inductive Term where
  | identity
  /-- The value, its parts, their parts and so on. -/
  | recurse
  /-- No output. -/
  | nothing
  /-- The text that a value stands for inside a text. -/
  | asText
  | constant (value : Value)
  | variable (name : String)
  /-- A filter by name, with filters as arguments. -/
  | call (name : String) (arguments : List Term)
  | pipe (first second : Term)
  /-- The outputs of one filter and then those of another. -/
  | both (first second : Term)
  /-- All outputs in one array. -/
  | array (content : Term)
  | object (fields : List Field)
  /-- A text put together from pieces; the filter makes texts of the values in its holes. -/
  | text (format : Term) (pieces : List Piece)
  | negate (operand : Term)
  | calculate (op : Operation) (left right : Term)
  | compare (relation : Relation) (left right : Term)
  | conjunction (left right : Term)
  | disjunction (left right : Term)
  /-- The outputs of the first that count as true, or those of the second if there are none. -/
  | alternative (first second : Term)
  | choose (condition yes no : Term)
  /-- The outputs of a filter up to its first error, and those of a handler for that. -/
  | attempt (body handler : Term)
  /-- Parts of the outputs of a filter. -/
  | path (base : Term) (steps : List (Step Term))
  | assign (assignment : Assignment) (target source : Term)
  | bind (source : Term) (pattern : Pattern) (body : Term)
  | label (name : String) (body : Term)
  | leave (name : String)
  | reduce (source : Term) (pattern : Pattern) (initial update : Term)
  | each (source : Term) (pattern : Pattern) (initial update extract : Term)
  | define (name : String) (parameters : List String) (body rest : Term)

/-- A field of an object under construction. -/
inductive Field where
  | mk (key value : Term)

/-- A piece of a text. -/
inductive Piece where
  | literal (s : String)
  | hole (content : Term)

/-- What takes a value apart: a variable for all of it, or patterns for the parts under some
    indices. -/
inductive Pattern where
  | variable (name : String)
  | parts (entries : List PatternEntry)

/-- A pattern for the part under an index. -/
inductive PatternEntry where
  | mk (key : Term) (pattern : Pattern)
end

instance : Inhabited Term := ⟨.identity⟩

/-- A definition that the language provides or the text of a filter makes.  A parameter with a
    dollar sign is a variable, any other a filter. -/
structure Definition where
  name : String
  parameters : List String
  body : Term

mutual
/-- The variables of a pattern. -/
def Pattern.names : Pattern → List String
  | .variable name => [name]
  | .parts entries => Pattern.namesOf entries

def Pattern.namesOf : List PatternEntry → List String
  | [] => []
  | .mk _ p :: rest => p.names ++ Pattern.namesOf rest
end

/-- What is known at a place: filters by name and number of arguments, variables, labels. -/
structure Known where
  filters : List (String × Nat)
  values : List String
  labels : List String

namespace Known

/-- What is known behind a parameter of a definition. -/
def withParameter (k : Known) (p : String) : Known :=
  match p.toList with
  | '$' :: cs => { k with values := String.ofList cs :: k.values }
  | _ => { k with filters := (p, 0) :: k.filters }

/-- What is known behind a pattern. -/
def withPattern (k : Known) (p : Pattern) : Known := { k with values := p.names ++ k.values }

end Known

mutual
/-- Whether everything that a term names is known. -/
def Term.isClosed (k : Known) : Term → Bool
  | .identity | .recurse | .nothing | .asText | .constant _ => true
  | .variable name => k.values.contains name
  | .call name arguments =>
    k.filters.contains (name, arguments.length) && Term.areClosed k arguments
  | .pipe a b | .both a b | .calculate _ a b | .compare _ a b | .conjunction a b
  | .disjunction a b | .alternative a b | .attempt a b | .assign _ a b =>
    a.isClosed k && b.isClosed k
  | .array a | .negate a => a.isClosed k
  | .object fields => Field.areClosed k fields
  | .text format pieces => format.isClosed k && Piece.areClosed k pieces
  | .choose a b c => a.isClosed k && b.isClosed k && c.isClosed k
  | .path base steps => base.isClosed k && Term.stepsAreClosed k steps
  | .bind source p body => source.isClosed k && p.isClosed k && body.isClosed (k.withPattern p)
  | .label name body => body.isClosed { k with labels := name :: k.labels }
  | .leave name => k.labels.contains name
  | .reduce source p initial update =>
    source.isClosed k && p.isClosed k && initial.isClosed k && update.isClosed (k.withPattern p)
  | .each source p initial update extract =>
    source.isClosed k && p.isClosed k && initial.isClosed k && update.isClosed (k.withPattern p) &&
      extract.isClosed (k.withPattern p)
  | .define name parameters body rest =>
    let outer := { k with filters := (name, parameters.length) :: k.filters }
    body.isClosed (parameters.foldl Known.withParameter outer) && rest.isClosed outer

def Term.areClosed (k : Known) : List Term → Bool
  | [] => true
  | t :: rest => t.isClosed k && Term.areClosed k rest

def Term.stepsAreClosed (k : Known) : List (Step Term) → Bool
  | [] => true
  | ⟨.index key, _⟩ :: rest => key.isClosed k && Term.stepsAreClosed k rest
  | ⟨.stretch start stop, _⟩ :: rest =>
    Term.boundIsClosed k start && Term.boundIsClosed k stop && Term.stepsAreClosed k rest
  | ⟨.all, _⟩ :: rest => Term.stepsAreClosed k rest

def Term.boundIsClosed (k : Known) : Option Term → Bool
  | none => true
  | some t => t.isClosed k

def Field.areClosed (k : Known) : List Field → Bool
  | [] => true
  | .mk key value :: rest => key.isClosed k && value.isClosed k && Field.areClosed k rest

def Piece.areClosed (k : Known) : List Piece → Bool
  | [] => true
  | .literal _ :: rest => Piece.areClosed k rest
  | .hole t :: rest => t.isClosed k && Piece.areClosed k rest

def Pattern.isClosed (k : Known) : Pattern → Bool
  | .variable _ => true
  | .parts entries => Pattern.areClosed k entries

def Pattern.areClosed (k : Known) : List PatternEntry → Bool
  | [] => true
  | .mk key p :: rest => key.isClosed k && p.isClosed k && Pattern.areClosed k rest
end

end SchemaForest.Filter
