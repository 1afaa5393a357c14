import SchemaForest.Filter.Reader
import SchemaForest.Filter.Stream
import SchemaForest.Number.Elementary
import SchemaForest.Text.Blank
import SchemaForest.Text.Escape

/-!
# Primitive filters

Filters that cannot be written in the language of filters.  A primitive is a function of its input,
of the values of its first arguments and, for some, of one more argument that is itself a filter.
-/

namespace SchemaForest.Filter

/-- A primitive filter. -/
structure Primitive where
  name : String
  /-- How many arguments come as values. -/
  valueCount : Nat
  /-- Whether one more argument comes as a filter. -/
  takesFilter : Bool
  run : Value → List Value → (Value → Stream Value) → Stream Value

namespace Primitive

/-- The number of arguments. -/
def arity (p : Primitive) : Nat := p.valueCount + if p.takesFilter then 1 else 0

/-- The error of a value that is not of a type. -/
def expected {α : Type} (what : String) (v : Value) : Except Failure α := .error (.misuse v what)

/-! ## Size, names and places -/

/-- The size of a value: characters, items, fields, or the distance from zero. -/
def size (v : Value) : Except Failure Value :=
  match v with
  | .null => .ok (.ofNat 0)
  | .bool _ => .error (.ofText (v.text ++ " has no length"))
  | .string s => .ok (.ofNat s.length)
  | .array items => .ok (.ofNat items.length)
  | .object fields => .ok (.ofNat fields.length)
  | v =>
    match v.number? with
    | some (.word i) => .ok (.word (if i < 0 then -i else i))
    | some (.double x) => .ok (.double x.abs)
    | none => expected "number" v

/-- The name of a value's type. -/
def typeName : Value → String
  | .null => "null"
  | .bool _ => "boolean"
  | .word _ => "number"
  | .double _ => "number"
  | .numeral _ => "number"
  | .string _ => "string"
  | .array _ => "array"
  | .object _ => "object"

/-- The places of an array or the names of an object. -/
def keys : Value → Except Failure Value
  | .array items => .ok (.array ((List.range items.length).map .ofNat))
  | .object fields => .ok (.array (fields.map fun f => .string f.1))
  | v => expected "iterable (array or object)" v

/-- Whether a value has a part under an index. -/
def hasPart (v index : Value) : Except Failure Value :=
  match v, index with
  | .array items, .word i =>
    if 0 ≤ i then .ok (.bool (i.toInt < items.length)) else .error (.misfit v index)
  | .object fields, .string k => .ok (.bool (Entries.get? fields k).isSome)
  | v, index => .error (.misfit v index)

mutual
/-- Whether a value holds another: a text as a part of it, items each in some item, fields each
    under its name. -/
def holds (v : Value) : Value → Bool
  | .string t =>
    match v with
    | .string s => t == "" || (s.splitOn t).length > 1
    | _ => false
  | .array ys =>
    match v with
    | .array xs => holdsItems xs ys
    | _ => false
  | .object fs =>
    match v with
    | .object gs => holdsFields gs fs
    | _ => false
  | w => v.same w

def holdsItems (xs : List Value) : List Value → Bool
  | [] => true
  | y :: rest => xs.any (fun x => holds x y) && holdsItems xs rest

def holdsFields (gs : List (String × Value)) : List (String × Value) → Bool
  | [] => true
  | (k, w) :: rest =>
    (match Entries.get? gs k with
      | some v => holds v w
      | none => false) && holdsFields gs rest
end

/-- The places at which one list stands in another. -/
def placesIn {α : Type} (same : α → α → Bool) (part whole : List α) : List Nat :=
  (List.range (whole.length + 1 - part.length)).filter fun i =>
    ((whole.drop i).take part.length).zip part |>.all fun (a, b) => same a b

/-- The places of a text in a text, of items in an array, or of one item in an array. -/
def places (v w : Value) : Except Failure Value :=
  let answer (is : List Nat) : Except Failure Value := .ok (.array (is.map .ofNat))
  match v, w with
  | .string s, .string t => answer (if t = "" then [] else placesIn (· == ·) t.toList s.toList)
  | .array xs, .array ys => answer (if ys.isEmpty then [] else placesIn Value.same ys xs)
  | .array xs, y => answer (placesIn Value.same [y] xs)
  | v, w => .error (.misfit v w)

mutual
/-- All that hangs below a value with the indices that lead there, from the outside in. -/
def below : Value → List (List Value × Value)
  | .array items => belowItems 0 items
  | .object fields => belowFields fields
  | _ => []

def belowItems (place : Nat) : List Value → List (List Value × Value)
  | [] => []
  | v :: rest =>
    ([.ofNat place], v) :: (below v).map (fun (p, w) => (.ofNat place :: p, w)) ++
      belowItems (place + 1) rest

def belowFields : List (String × Value) → List (List Value × Value)
  | [] => []
  | (k, v) :: rest =>
    ([.string k], v) :: (below v).map (fun (p, w) => (.string k :: p, w)) ++ belowFields rest
end

/-! ## Texts -/

/-- A function on texts. -/
def onText (f : String → Value) (v : Value) : Except Failure Value :=
  match v with
  | .string s => .ok (f s)
  | v => expected "string" v

/-- A function on two texts. -/
def onTexts (f : String → String → Value) (v w : Value) : Except Failure Value :=
  match v, w with
  | .string s, .string t => .ok (f s t)
  | .string _, w => expected "string" w
  | v, _ => expected "string" v

/-- The value of a text. -/
def readText (v : Value) : Except Failure Value :=
  match v with
  | .string s =>
    match Value.ofText? s with
    | some w => .ok w
    | none => .error (.ofText ("cannot parse " ++ s ++ " as JSON"))
  | v => expected "string" v

/-- The text without another text at its front. -/
def withoutFront (s t : String) : Value :=
  .string (if t.toList.isPrefixOf s.toList then String.ofList (s.toList.drop t.length) else s)

/-- The text without another text at its end. -/
def withoutBack (s t : String) : Value :=
  .string (if t.toList.isSuffixOf s.toList then
    String.ofList (s.toList.take (s.length - t.length)) else s)

/-- The text of some characters' numbers. -/
def fromCharacters (v : Value) : Except Failure Value :=
  match v with
  | .array items => do
    let cs ← items.mapM fun i =>
      match i with
      | .word n =>
        if 0 ≤ n && n.toInt.toNat.isValidChar then .ok (Char.ofNat n.toInt.toNat)
        else .error (.misuse i "character")
      | i => expected "integer" i
    .ok (.string (String.ofList cs))
  | v => expected "array" v

/-- The text behind an escape that may be broken. -/
def decode (f : String → Option String) (v : Value) : Except Failure Value :=
  match v with
  | .string s =>
    match f s with
    | some t => .ok (.string t)
    | none => .error (.ofText ("cannot decode " ++ v.text))
  | v => expected "string" v

/-! ## Numbers -/

/-- The word nearest to what a rounding gives; what is no number gives zero. -/
def roundedWord (round : Double → Option Int) (x : Double) : Int64 :=
  match round x with
  | some i => .ofInt (max Int64.minValue.toInt (min i Int64.maxValue.toInt))
  | none => if x.isNan then 0 else if x.lt .zero then .minValue else .maxValue

/-- A rounding of numbers to words. -/
def rounded (round : Double → Option Int) (v : Value) : Except Failure Value :=
  match v.number? with
  | some (.word i) => .ok (.word i)
  | some (.double x) => .ok (.word (roundedWord round x))
  | none => expected "number" v

/-- The floating point number of a value. -/
def double (v : Value) : Except Failure Double :=
  match v.number? with
  | some x => .ok x.toDouble
  | none => expected "number" v

/-- The word of a value. -/
def word (v : Value) : Except Failure Int64 :=
  match v with
  | .word i => .ok i
  | v => expected "integer" v

/-- At most so many values are counted up. -/
def countBound : Nat := 1 <<< 20

/-- Counts up as long as a test holds; `behind` holds what came before, the last value first. -/
def countUp (holds : Value → Bool) (next : Value → Except Failure Value) :
    Nat → List (Except Failure Value) → Value → Stream Value
  | 0, behind, _ => ⟨behind.reverse, false⟩
  | n + 1, behind, v =>
    if holds v then
      match next v with
      | .ok w => countUp holds next n (.ok v :: behind) w
      | .error e => ⟨(.error e :: .ok v :: behind).reverse, true⟩
    else ⟨behind.reverse, true⟩

/-- The values from one to another in steps: below the end for steps upwards, above it for steps
    downwards, and as long as they differ from it without a step. -/
def range (start stop width : Value) : Stream Value :=
  let holds (v : Value) : Bool :=
    match width.order (.ofNat 0) with
    | .gt => v.isBefore stop
    | .lt => stop.isBefore v
    | .eq => !v.same stop
  countUp holds (calculate .add · width) countBound [] start

/-! ## Sorting -/

/-- A value with its key, all that a filter makes of it. -/
abbrev Keyed := Value × Value

/-- The values in the order of their keys; those with equal keys stay as they were. -/
def sorted (xs : List Keyed) : List Keyed := xs.mergeSort fun a b => !b.1.isBefore a.1

/-- Puts values with equal keys that stand side by side into one list. -/
def groups : List Keyed → List (Value × List Value)
  | [] => []
  | (k, v) :: rest =>
    match groups rest with
    | (l, vs) :: more => if k.same l then (k, v :: vs) :: more else (k, [v]) :: (l, vs) :: more
    | [] => [(k, [v])]

/-- What a function makes of the items of an array and their keys. -/
def byKeys (f : List Keyed → List Value) (v : Value) (key : Value → Stream Value) :
    Stream Value :=
  match v with
  | .array items =>
    let keyed := (Stream.ofList items).andThen fun x => (key x).collect fun ks => (.array ks, x)
    ((keyed.collect fun xs => f xs).andThen .ofList)
  | v => .ofResult (expected "array" v)

/-- One array of what a function makes of the items of an array and their keys. -/
def arrayByKeys (f : List Keyed → List Value) (v : Value) (key : Value → Stream Value) :
    Stream Value :=
  (byKeys f v key).collect .array

/-- The value with the best key. -/
def best (better : Value → Value → Bool) : List Keyed → List Value
  | [] => []
  | x :: rest =>
    [(rest.foldl (fun found y => if better y.1 found.1 then y else found) x).2]

/-! ## Kinds of primitives -/

/-- A function of the input. -/
def of0 (name : String) (f : Value → Except Failure Value) : Primitive :=
  ⟨name, 0, false, fun v _ _ => .ofResult (f v)⟩

/-- A function of the input and the value of one argument. -/
def of1 (name : String) (f : Value → Value → Except Failure Value) : Primitive :=
  ⟨name, 1, false, fun v args _ =>
    match args with
    | [a] => .ofResult (f v a)
    | _ => .none⟩

/-- A value whatever the input. -/
def const (name : String) (v : Value) : Primitive := of0 name fun _ => .ok v

/-- A function on floating point numbers. -/
def double1 (name : String) (f : Double → Double) : Primitive :=
  of0 name fun v => (double v).map fun x => .double (f x)

/-- A function of two arguments. -/
def args2 (name : String) (f : Value → Value → Except Failure Value) : Primitive :=
  ⟨name, 2, false, fun _ args _ =>
    match args with
    | [a, b] => .ofResult (f a b)
    | _ => .none⟩

/-- A function of two arguments that are floating point numbers. -/
def double2 (name : String) (f : Double → Double → Double) : Primitive :=
  args2 name fun a b => do .ok (.double (f (← double a) (← double b)))

/-- A function of the outputs of a filter. -/
def filter0 (name : String) (f : Value → (Value → Stream Value) → Stream Value) : Primitive :=
  ⟨name, 0, true, fun v _ g => f v g⟩

/-- A function of a number and the outputs of a filter. -/
def filter1 (name : String) (f : Int → Stream Value → Stream Value) : Primitive :=
  ⟨name, 1, true, fun v args g =>
    match args with
    | [a] =>
      match word a with
      | .ok i => f i.toInt (g v)
      | .error e => .fail e
    | _ => .none⟩

/-! ## The table -/

/-- Primitives on all values. -/
def general : List Primitive :=
  [ of0 "error_empty" fun v => .error (.raised v),
    const "null" .null,
    const "true" (.bool true),
    const "false" (.bool false),
    const "nan" (.double .nan),
    const "infinite" (.double .infinity),
    -- filters see neither a clock nor an environment
    const "now" (.double (.ofNat 1700000000)),
    const "env" (.object []),
    of0 "length" size,
    of0 "type" fun v => .ok (.string (typeName v)),
    of0 "keys_unsorted" keys,
    of1 "has" hasPart,
    of1 "contains" fun v w => .ok (.bool (holds v w)),
    of1 "indices" places,
    ⟨"path_values", 0, false, fun v _ _ =>
      .ofList ((below v).map fun (p, w) => .array [.array p, w])⟩,
    of0 "reverse" fun v =>
      match v with
      | .array items => .ok (.array items.reverse)
      | v => expected "array" v,
    ⟨"range", 3, false, fun _ args _ =>
      match args with
      | [a, b, c] => range a b c
      | _ => .none⟩,
    filter0 "first" fun v g => (g v).take 1,
    filter0 "last" fun v g => (g v).last,
    filter1 "limit" fun n s => if n ≤ 0 then .none else s.take n.toNat,
    filter1 "skip" fun n s => s.drop n.toNat,
    filter0 "sort_by" (arrayByKeys fun xs => (sorted xs).map Prod.snd),
    filter0 "group_by"
      (arrayByKeys fun xs => (groups (sorted xs)).map fun g => .array g.2),
    filter0 "min_by_or_empty" (byKeys (best fun a b => a.isBefore b)),
    filter0 "max_by_or_empty" (byKeys (best fun a b => !a.isBefore b)) ]

/-- Primitives on texts. -/
def textual : List Primitive :=
  [ of0 "tojson" fun v => .ok (.string v.text),
    of0 "tostring" fun v => .ok (.string v.plainText),
    of0 "fromjson" readText,
    of0 "utf8bytelength" (onText fun s => .ofNat s.utf8ByteSize),
    of0 "explode" (onText fun s => .array (s.toList.map fun c => .ofNat c.toNat)),
    of0 "implode" fromCharacters,
    of0 "ascii_downcase" (onText fun s => .string (s.map Char.toLower)),
    of0 "ascii_upcase" (onText fun s => .string (s.map Char.toUpper)),
    of0 "trim" (onText fun s => .string (String.ofList (Text.trim s.toList))),
    of0 "ltrim" (onText fun s => .string (String.ofList (Text.trimStart s.toList))),
    of0 "rtrim" (onText fun s => .string (String.ofList (Text.trimEnd s.toList))),
    of1 "startswith" (onTexts fun s t => .bool (t.toList.isPrefixOf s.toList)),
    of1 "endswith" (onTexts fun s t => .bool (t.toList.isSuffixOf s.toList)),
    of1 "ltrimstr" (onTexts withoutFront),
    of1 "rtrimstr" (onTexts withoutBack),
    of1 "split" (onTexts fun s t => .array ((splitText s t).map .string)),
    of0 "escape_csv" (onText fun s => .string (Text.escapeQuotes s)),
    of0 "escape_tsv" (onText fun s => .string (Text.escapeTabs s)),
    of0 "escape_html" (onText fun s => .string (Text.escapeMarkup s)),
    of0 "escape_sh" (onText fun s => .string (Text.escapeShell s)),
    of0 "encode_uri" (onText fun s => .string (Text.escapeAddress s)),
    of0 "encode_base64" (onText fun s => .string (Text.encodeBase64 s)),
    of0 "decode_base64" (decode Text.decodeBase64?) ]

/-- Primitives on numbers. -/
def numeric : List Primitive :=
  [ of0 "floor" (rounded Double.floor?),
    of0 "ceil" (rounded Double.ceil?),
    of0 "round" (rounded Double.round?),
    double1 "sqrt" .sqrt,
    double1 "cbrt" .cbrt,
    double1 "fabs" .abs,
    double1 "trunc" .trunc,
    double1 "rint" .rint,
    double1 "nearbyint" .rint,
    double1 "exp" .exp,
    double1 "exp2" .exp2,
    double1 "exp10" .exp10,
    double1 "pow10" .exp10,
    double1 "expm1" .expm1,
    double1 "log" .log,
    double1 "log2" .log2,
    double1 "log10" .log10,
    double1 "log1p" .log1p,
    double1 "sin" .sin,
    double1 "cos" .cos,
    double1 "tan" .tan,
    double1 "asin" .asin,
    double1 "acos" .acos,
    double1 "atan" .atan,
    double1 "sinh" .sinh,
    double1 "cosh" .cosh,
    double1 "tanh" .tanh,
    double1 "asinh" .asinh,
    double1 "acosh" .acosh,
    double1 "atanh" .atanh,
    double1 "logb" .logb,
    of0 "ilogb" fun v => do
      let x ← double v
      .ok (.word (if x.isFinite then roundedWord Double.trunc? x.logb else .ofInt 0x7fffffff)),
    double1 "significand" .significand,
    of0 "frexp" fun v => do
      let (x, e) := (← double v).frexp
      .ok (.array [.double x, .ofInt e]),
    of0 "modf" fun v => do
      let x ← double v
      let whole := x.trunc
      let broken := if x.isFinite then x.sub whole else if x.isNan then x else .zero
      .ok (.array [.double (broken.copySign x), .double whole]),
    double2 "pow" .pow,
    double2 "atan2" .atan2,
    double2 "hypot" .hypot,
    double2 "fmin" .least,
    double2 "fmax" .greatest,
    double2 "fmod" .rem,
    double2 "fdim" .excess,
    double2 "copysign" .copySign,
    double2 "drem" .nearRem,
    double2 "nextafter" .nextToward,
    double2 "nexttoward" .nextToward,
    ⟨"fma", 3, false, fun _ args _ =>
      match args with
      | [a, b, c] => .ofResult do .ok (.double (.mulAdd (← double a) (← double b) (← double c)))
      | _ => .none⟩,
    args2 "ldexp" fun a b => do .ok (.double ((← double a).ldexp (← word b).toInt)),
    args2 "scalb" fun a b => do .ok (.double ((← double a).mul (.exp2 (← double b)))),
    args2 "scalbln" fun a b => do .ok (.double ((← double a).ldexp (← word b).toInt)) ]

end Primitive

end SchemaForest.Filter
