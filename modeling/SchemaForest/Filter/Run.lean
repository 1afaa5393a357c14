import SchemaForest.Filter.Library

/-!
# Running filters

`eval` gives the outputs of a filter for a value; where a filter has several operands, the outputs of
the first vary slowest.  `update` gives the value with something else in the places that a filter
names.  Fuel bounds how deep a filter may call; it also tells labels apart, since it is less at every
place further inside.
-/

namespace SchemaForest.Filter

/-- A name with its meaning at a place. -/
inductive Binding where
  | value (name : String) (v : Value)
  /-- A defined filter with what was known where it was defined; it also knows itself. -/
  | filter (name : String) (parameters : List String) (body : Term) (scope : List Binding)
  /-- A filter that was given as an argument, with what is known where it was given. -/
  | argument (name : String) (body : Term) (scope : List Binding)
  | label (name : String) (fuel : Nat)

/-- What names mean at a place, the nearest first. -/
abbrev Scope := List Binding

namespace Scope

/-- The value of a variable. -/
def value? (s : Scope) (name : String) : Option Value :=
  s.findSome? fun b =>
    match b with
    | .value n v => if n = name then some v else none
    | _ => none

/-- The label of a name. -/
def label? (s : Scope) (name : String) : Option Nat :=
  s.findSome? fun b =>
    match b with
    | .label n fuel => if n = name then some fuel else none
    | _ => none

/-- The filter of a name and a number of arguments. -/
def filter? (s : Scope) (name : String) (arity : Nat) : Option Binding :=
  s.find? fun b =>
    match b with
    | .filter n parameters _ _ => n == name && parameters.length == arity
    | .argument n _ _ => n == name && arity == 0
    | _ => false

end Scope

/-- How terms are evaluated further inside. -/
abbrev Evaluation := Scope → Term → Value → Stream Value

/-! ## Binding -/

mutual
/-- Binds the variables of a pattern to the parts of a value; indices are looked for in the value. -/
def bindPattern (index : Term → Value → Stream Value) (v : Value) :
    Pattern → Scope → Stream Scope
  | .variable name, scope => .one (.value name v :: scope)
  | .parts entries, scope => bindEntries index v entries scope

def bindEntries (index : Term → Value → Stream Value) (v : Value) :
    List PatternEntry → Scope → Stream Scope
  | [], scope => .one scope
  | .mk key p :: rest, scope =>
    (((index key v).tryMap v.at?).andThen fun w => bindPattern index w p scope).andThen fun scope =>
      bindEntries index v rest scope
end

/-- Binds the outputs of a filter by a pattern, one scope for each. -/
def bindOutputs (eval : Evaluation) (scope : Scope) (source : Term) (p : Pattern) (v : Value) :
    Stream Scope :=
  (eval scope source v).andThen fun x => bindPattern (eval scope) x p scope

/-- Binds parameters to arguments, one scope for each choice of the outputs of those that are
    variables. -/
def bindArguments (eval : Evaluation) (caller : Scope) (v : Value) :
    List String → List Term → Scope → Stream Scope
  | p :: ps, t :: ts, scope =>
    match p.toList with
    | '$' :: cs =>
      (eval caller t v).andThen fun x =>
        bindArguments eval caller v ps ts (.value (String.ofList cs) x :: scope)
    | _ => bindArguments eval caller v ps ts (.argument p t caller :: scope)
  | _, _, scope => .one scope

/-- The bodies that a call runs, each with what is known there.  Primitives have none. -/
def bodies? (eval : Evaluation) (scope : Scope) (name : String) (arguments : List Term)
    (v : Value) : Option (Stream (Scope × Term)) :=
  match scope.filter? name arguments.length with
  | some (.filter f parameters body inner) =>
    let scopes := bindArguments eval scope v parameters arguments
      (.filter f parameters body inner :: inner)
    some (scopes.andThen fun s => .one (s, body))
  | some (.argument _ body inner) => some (.one (inner, body))
  | _ =>
    if primitives.any fun p => p.name == name && p.arity == arguments.length then none
    else
      match library.find? fun d => d.name == name && d.parameters.length == arguments.length with
      | some d =>
        let scopes := bindArguments eval scope v d.parameters arguments []
        some (scopes.andThen fun s => .one (s, d.body))
      | none => none

/-- The outputs of some filters, one row for each choice. -/
def rows (eval : Term → Value → Stream Value) (v : Value) : List Term → Stream (List Value)
  | [] => .one []
  | t :: rest => (eval t v).andThen fun x => (rows eval v rest).andThen fun xs => .one (x :: xs)

/-- The outputs of a primitive. -/
def callPrimitive (eval : Term → Value → Stream Value) (name : String) (arguments : List Term)
    (v : Value) : Stream Value :=
  match primitives.find? fun p => p.name == name && p.arity == arguments.length with
  | some p =>
    (rows eval v (arguments.take p.valueCount)).andThen fun row =>
      p.run v row (eval ((arguments.drop p.valueCount).headD .nothing))
  | none => .none

/-! ## Paths -/

/-- The choices for a bound. -/
def bounds (eval : Term → Value → Stream Value) (v : Value) : Option Term → Stream (Option Value)
  | none => .one none
  | some t => (eval t v).tryMap fun x => .ok (some x)

/-- The choices for a step. -/
def stepChoices (eval : Term → Value → Stream Value) (v : Value) (s : Step Term) :
    Stream (Step Value) :=
  match s.part with
  | .index key => (eval key v).tryMap fun k => .ok ⟨.index k, s.guarded⟩
  | .stretch start stop =>
    Stream.product (fun i j => .ok ⟨.stretch i j, s.guarded⟩) (bounds eval v start) fun _ =>
      bounds eval v stop
  | .all => .one ⟨.all, s.guarded⟩

/-- The choices for all steps of a path, those of the first varying slowest. -/
def pathChoices (eval : Term → Value → Stream Value) (v : Value) :
    List (Step Term) → Stream (List (Step Value))
  | [] => .one []
  | s :: rest =>
    Stream.product (fun a as => .ok (a :: as)) (stepChoices eval v s) fun _ =>
      pathChoices eval v rest

/-! ## Construction -/

/-- The sum of some streams: one value for each choice, put together by addition. -/
def sumFrom (sum : Stream Value) : List (Unit → Stream Value) → Stream Value
  | [] => sum
  | s :: rest => sumFrom (sum.product (calculate .add) s) rest

/-- The sum of some streams, or a value that stands for none. -/
def sumOf (empty : Value) : List (Unit → Stream Value) → Stream Value
  | [] => .one empty
  | s :: rest => sumFrom (s ()) rest

/-- Objects with one field. -/
def field (eval : Term → Value → Stream Value) (v : Value) : Field → Stream Value
  | .mk key value =>
    (eval key v).product (fun k x =>
      match k with
      | .string name => .ok (.object [(name, x)])
      | k => .error (.misuse k "string")) fun _ => eval value v

/-- Pieces of a text. -/
def piece (eval : Term → Value → Stream Value) (format : Term) (v : Value) : Piece → Stream Value
  | .literal s => .one (.string s)
  | .hole t => (eval t v).andThen (eval format)

/-! ## Evaluation -/

/-- The error of a filter that names no places. -/
def noPlaces (v : Value) : Stream Value :=
  .fail (.ofText ("invalid path expression with input " ++ v.text))

mutual
/-- The outputs of a term for a value. -/
def eval (fuel : Nat) (scope : Scope) (t : Term) (v : Value) : Stream Value :=
  match fuel with
  | 0 => .cut
  | n + 1 =>
    match t with
    | .identity => .one v
    | .recurse =>
      (Stream.one v).append fun _ => (v.get .all).attempt (fun _ => .none) |>.andThen fun w =>
        eval n scope .recurse w
    | .nothing => .none
    | .asText => .one (.string v.plainText)
    | .constant x => .one x
    | .variable name => .one ((scope.value? name).getD .null)
    | .call name arguments =>
      match bodies? (eval n) scope name arguments v with
      | some bs => bs.andThen fun (inner, body) => eval n inner body v
      | none => callPrimitive (eval n scope) name arguments v
    | .pipe a b => (eval n scope a v).andThen (eval n scope b)
    | .both a b => (eval n scope a v).append fun _ => eval n scope b v
    | .array content => (eval n scope content v).collect .array
    | .object fields =>
      sumOf (.object []) (fields.map fun f _ => field (eval n scope) v f)
    | .text format pieces =>
      sumOf (.string "") (pieces.map fun p _ => piece (eval n scope) format v p)
    | .negate a => (eval n scope a v).tryMap negate
    | .calculate op a b =>
      (eval n scope a v).product (calculate op) fun _ => eval n scope b v
    | .compare r a b =>
      (eval n scope a v).product (fun x y => .ok (.bool (r.holds x y))) fun _ => eval n scope b v
    | .conjunction a b =>
      (eval n scope a v).andThen fun x =>
        if x.isTrue then (eval n scope b v).tryMap fun y => .ok (.bool y.isTrue)
        else .one (.bool false)
    | .disjunction a b =>
      (eval n scope a v).andThen fun x =>
        if x.isTrue then .one (.bool true)
        else (eval n scope b v).tryMap fun y => .ok (.bool y.isTrue)
    | .alternative a b => (eval n scope a v).orElse fun _ => eval n scope b v
    | .choose c a b =>
      (eval n scope c v).andThen fun x =>
        if x.isTrue then eval n scope a v else eval n scope b v
    | .attempt a b => (eval n scope a v).attempt (eval n scope b)
    | .path base steps =>
      (eval n scope base v).andThen fun x =>
        (pathChoices (eval n scope) v steps).andThen fun path => x.follow path
    | .assign a target source =>
      match a with
      | .update => update n scope target (eval n scope source) v
      | .replace =>
        (eval n scope source v).andThen fun y => update n scope target (fun _ => .one y) v
      | .calculate op =>
        (eval n scope source v).andThen fun y =>
          update n scope target (fun x => .ofResult (calculate op x y)) v
      | .complete =>
        (eval n scope source v).andThen fun y =>
          update n scope target (fun x => .one (if x.isTrue then x else y)) v
    | .bind source p body =>
      (bindOutputs (eval n) scope source p v).andThen fun inner => eval n inner body v
    | .label name body => (eval n (.label name n :: scope) body v).upTo n
    | .leave name =>
      match scope.label? name with
      | some l => .fail (.broken l)
      | none => .none
    | .reduce source p initial step =>
      (bindOutputs (eval n) scope source p v).fold (fun inner => eval n inner step)
        (eval n scope initial v)
    | .each source p initial step extract =>
      let source := bindOutputs (eval n) scope source p v
      (eval n scope initial v).andThen fun state =>
        source.foldEach (fun inner => eval n inner step) (fun inner => eval n inner extract) state
    | .define name parameters body rest =>
      eval n (.filter name parameters body scope :: scope) rest v

/-- The value with the outputs of a function in the places that a term names. -/
def update (fuel : Nat) (scope : Scope) (t : Term) (f : Value → Stream Value) (v : Value) :
    Stream Value :=
  match fuel with
  | 0 => .cut
  | n + 1 =>
    match t with
    | .identity => f v
    | .recurse => (v.changeAll true (update n scope .recurse f)).andThen f
    | .nothing => .one v
    | .call name arguments =>
      match bodies? (eval n) scope name arguments v with
      | some bs => bs.fold (fun (inner, body) => update n inner body f) (.one v)
      | none => noPlaces v
    | .pipe a b => update n scope a (update n scope b f) v
    | .both a b => (update n scope a f v).andThen (update n scope b f)
    | .alternative a b =>
      if ((eval n scope a v).orElse fun _ => .none).results.isEmpty then update n scope b f v
      else update n scope a f v
    | .choose c a b =>
      (eval n scope c v).fold (fun x =>
        if x.isTrue then update n scope a f else update n scope b f) (.one v)
    | .path base steps =>
      let paths := pathChoices (eval n scope) v steps
      update n scope base (fun x => paths.fold (fun path x => x.change f path) (.one x)) v
    | .bind source p body =>
      (bindOutputs (eval n) scope source p v).fold (fun inner => update n inner body f) (.one v)
    | .leave name =>
      match scope.label? name with
      | some l => .fail (.broken l)
      | none => .none
    | .define name parameters body rest =>
      update n (.filter name parameters body scope :: scope) rest f v
    | _ => noPlaces v
end

/-- How deep filters may call each other, besides what their text nests. -/
def fuelBound : Nat := 200000

end SchemaForest.Filter
