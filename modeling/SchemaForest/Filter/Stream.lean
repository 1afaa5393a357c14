import SchemaForest.Filter.Calculation

/-!
# Streams

What a filter gives: results in order, each a value or a failure.  A failure is a result like any
other and does not end a stream.  Evaluation may be cut off for its depth; a stream remembers that
it is not finished, and nothing is ever put behind such an end.
-/

namespace SchemaForest.Filter

/-- Results in order, and whether these are all. -/
structure Stream (α : Type) where
  results : List (Except Failure α)
  finished : Bool

namespace Stream

variable {α β γ : Type}

/-- No results. -/
def none : Stream α := ⟨[], true⟩

/-- No results, and nobody knows whether there are more. -/
def cut : Stream α := ⟨[], false⟩

/-- One result. -/
def ofResult (r : Except Failure α) : Stream α := ⟨[r], true⟩

/-- One value. -/
def one (v : α) : Stream α := ofResult (.ok v)

/-- One failure. -/
def fail (e : Failure) : Stream α := ofResult (.error e)

/-- Some values. -/
def ofList (vs : List α) : Stream α := ⟨vs.map .ok, true⟩

/-- The results of one stream and then those of another, if the first has an end. -/
def append (s : Stream α) (t : Unit → Stream α) : Stream α :=
  if s.finished then
    let t := t ()
    ⟨s.results ++ t.results, t.finished⟩
  else s

/-- The streams of some results, one behind the other; `behind` holds what came before, the last
    result first. -/
def join (f : Except Failure α → Stream β) (finished : Bool) (behind : List (Except Failure β)) :
    List (Except Failure α) → Stream β
  | [] => ⟨behind.reverse, finished⟩
  | [r] =>
    let t := f r
    ⟨behind.reverseAux t.results, t.finished && finished⟩
  | r :: rest =>
    let t := f r
    if t.finished then join f finished (t.results.reverseAux behind) rest
    else ⟨behind.reverseAux t.results, false⟩

/-- Puts a stream in the place of every result. -/
def flatMap (s : Stream α) (f : Except Failure α → Stream β) : Stream β :=
  match s with
  | ⟨[r], true⟩ => f r
  | s => join f s.finished [] s.results

/-- Passes every value on; failures stay in their places. -/
def andThen (s : Stream α) (f : α → Stream β) : Stream β :=
  s.flatMap fun r =>
    match r with
    | .ok v => f v
    | .error e => fail e

/-- Changes every value by a function that may fail. -/
def tryMap (f : α → Except Failure β) (s : Stream α) : Stream β :=
  s.andThen fun v => ofResult (f v)

/-- All pairs of results of two streams, those of the first varying slowly.  A pair fails like its
    first part that fails. -/
def product (f : α → β → Except Failure γ) (s : Stream α) (t : Unit → Stream β) : Stream γ :=
  s.flatMap fun a => (t ()).flatMap fun b => ofResult do f (← a) (← b)

/-- The first results. -/
def take (n : Nat) (s : Stream α) : Stream α :=
  if n ≤ s.results.length then ⟨s.results.take n, true⟩ else s

/-- All but the first results. -/
def drop (n : Nat) (s : Stream α) : Stream α := ⟨s.results.drop n, s.finished⟩

/-- Whether a result leads out to a label. -/
def leavesTo (label : Nat) : Except Failure α → Bool
  | .error (.broken l) => l == label
  | _ => false

/-- The results up to a way out to a label. -/
def upTo (label : Nat) (s : Stream α) : Stream α :=
  if s.results.any (leavesTo label) then ⟨s.results.takeWhile fun r => !leavesTo label r, true⟩
  else s

/-- The value of an error. -/
def raised? : Except Failure α → Option Value
  | .error (.raised e) => some e
  | _ => .none

/-- The results up to the first error, and what a handler makes of that. -/
def attempt (s : Stream α) (handler : Value → Stream α) : Stream α :=
  match s.results.findSome? raised? with
  | some e => append ⟨s.results.takeWhile fun r => (raised? r).isNone, true⟩ fun _ => handler e
  | .none => s

/-- The values of a stream, the first failure, or nothing at a cut. -/
def values (s : Stream α) : Option (Except Failure (List α)) :=
  match s.results.mapM id with
  | .error e => some (.error e)
  | .ok vs => if s.finished then some (.ok vs) else .none

/-- One result made of all values. -/
def collect (f : List α → β) (s : Stream α) : Stream β :=
  match s.values with
  | some r => ofResult (r.map f)
  | .none => cut

/-- The last value, if there is any. -/
def last (s : Stream α) : Stream α :=
  match s.values with
  | some (.ok vs) => ofList vs.getLast?.toList
  | some (.error e) => fail e
  | .none => cut

/-- The values that count as true, and the failures; in place of none of them another stream. -/
def orElse (s : Stream Value) (t : Unit → Stream Value) : Stream Value :=
  match s.results.filter fun r =>
      match r with
      | .ok v => v.isTrue
      | .error _ => true with
  | [] => append ⟨[], s.finished⟩ t
  | found => ⟨found, s.finished⟩

/-- The last states of a fold over a stream. -/
def fold (update : α → β → Stream β) (s : Stream α) (states : Stream β) : Stream β :=
  let states := s.results.foldl (fun states r =>
    states.andThen fun state =>
      match r with
      | .ok x => update x state
      | .error e => fail e) states
  if s.finished then states else states.andThen fun _ => cut

/-- What a fold over results gives for every state on its way. -/
def eachFrom (update : α → β → Stream β) (extract : α → β → Stream γ) (finished : Bool) :
    List (Except Failure α) → β → Stream γ
  | [], _ => ⟨[], finished⟩
  | .error e :: _, _ => fail e
  | .ok x :: rest, state =>
    (update x state).andThen fun state =>
      (extract x state).append fun _ => eachFrom update extract finished rest state

/-- What a fold over a stream gives for every state on its way. -/
def foldEach (update : α → β → Stream β) (extract : α → β → Stream γ) (s : Stream α) (state : β) :
    Stream γ :=
  eachFrom update extract s.finished s.results state

end Stream

end SchemaForest.Filter
