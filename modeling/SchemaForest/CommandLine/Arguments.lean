/-!
# Arguments

The command line has two commands, `schema` and `tree`, with options of their own; `-v` may stand in
front of a command or behind it, and the last place where it stands counts.

An option takes its value from behind an equals sign, from the rest of its own argument if it is
short, or from the arguments that follow; inputs take all that follow up to the next option.  A value
is stored when the next option is met or the line ends, so two faults on one line are reported in
that order.
-/

namespace SchemaForest.CommandLine

/-- Why arguments are refused, or what is shown in place of a run. -/
inductive UsageError where
  | missingArgument
  | missingCommand
  | unknownArgument
  | unknownCommand
  | missingValue
  | repeatedArgument
  | unexpectedValue
  | help
  | version
  /-- The help that is shown where nothing is given. -/
  | helpForNothing
deriving DecidableEq

/-- Where the documents come from. -/
structure InputSettings where
  /-- The filter that picks the document out of a file. -/
  filter : Option String
  /-- Paths and patterns. -/
  inputs : List String
deriving DecidableEq

/-- What is done with the documents. -/
inductive Command where
  | schema (input : InputSettings) (out : Option String) (ranges noOp : Bool)
  | tree (input : InputSettings) (noColour : Bool)
deriving DecidableEq

/-- The arguments of a run. -/
structure Arguments where
  command : Command
  verbosity : Nat
deriving DecidableEq

/-- Where the documents of a command come from. -/
def Command.input : Command → InputSettings
  | schema input _ _ _ => input
  | tree input _ => input

namespace Arguments

/-- The names of the commands. -/
inductive CommandName where
  | schema | tree
deriving DecidableEq

/-- The options that take values. -/
inductive Setting where
  | filter | input | out
deriving DecidableEq

/-- The options that take none. -/
inductive Switch where
  | ranges | noOp | noColour | verbose | help | version
deriving DecidableEq

/-- An option. -/
inductive Flag where
  | setting (s : Setting)
  | switch (s : Switch)
deriving DecidableEq

def command? (s : String) : Option CommandName :=
  if s = "schema" then some .schema else if s = "tree" then some .tree else none

/-- The option of a long name; without a command only the common ones are known. -/
def longFlag? (command : Option CommandName) (name : String) : Option Flag :=
  match command, name with
  | _, "verbose" => some (.switch .verbose)
  | _, "help" => some (.switch .help)
  | none, "version" => some (.switch .version)
  | some _, "jq-expr" => some (.setting .filter)
  | some _, "input" => some (.setting .input)
  | some .schema, "out" => some (.setting .out)
  | some .schema, "with-ranges" => some (.switch .ranges)
  | some .schema, "no-op" => some (.switch .noOp)
  | some .tree, "no-color" => some (.switch .noColour)
  | _, _ => none

/-- The option of a letter. -/
def shortFlag? (command : Option CommandName) (letter : Char) : Option Flag :=
  match command, letter with
  | _, 'v' => some (.switch .verbose)
  | _, 'h' => some (.switch .help)
  | none, 'V' => some (.switch .version)
  | some _, 'i' => some (.setting .input)
  | some .schema, 'o' => some (.setting .out)
  | _, _ => none

/-- What was read so far. -/
structure Reading where
  filter : Option String := none
  inputs : List String := []
  out : Option String := none
  switches : List Switch := []
  verbosity : Nat := 0
  /-- The option whose values are not stored yet, with those values. -/
  pending : Option (Setting × List String) := none
  /-- Whether the pending option takes the next argument. -/
  isOpen : Bool := false

namespace Reading

/-- Stores the values of an option. -/
def store (r : Reading) (s : Setting) (values : List String) : Except UsageError Reading :=
  match s, values with
  | _, [] => .error .missingValue
  | .input, vs => .ok { r with inputs := r.inputs ++ vs }
  | .filter, v :: _ =>
    if r.filter.isSome then .error .repeatedArgument else .ok { r with filter := some v }
  | .out, v :: _ =>
    if r.out.isSome then .error .repeatedArgument
    else if v = "" then .error .missingValue
    else .ok { r with out := some v }

/-- Stores the values of the pending option. -/
def settle (r : Reading) : Except UsageError Reading :=
  match r.pending with
  | none => .ok { r with isOpen := false }
  | some (s, values) => store { r with pending := none, isOpen := false } s values

/-- Turns a switch on. -/
def turn (r : Reading) (s : Switch) : Except UsageError Reading := do
  let r ← r.settle
  match s with
  | .help => .error .help
  | .version => .error .version
  | .verbose => .ok { r with verbosity := min (r.verbosity + 1) 255 }
  | s =>
    if r.switches.contains s then .error .repeatedArgument
    else .ok { r with switches := s :: r.switches }

/-- Meets an option that takes values; one that is attached is all that it gets. -/
def meet (r : Reading) (s : Setting) (attached : Option String) : Except UsageError Reading := do
  let r ← r.settle
  match attached with
  | some v => r.store s [v]
  | none => .ok { r with pending := some (s, []), isOpen := true }

/-- Gives the open option one more value. -/
def take (r : Reading) (value : String) : Reading :=
  match r.pending with
  | some (s, values) =>
    { r with pending := some (s, values ++ [value]), isOpen := s == .input }
  | none => r

end Reading

/-- The text in front of the first equals sign, and the text behind it if there is one. -/
def splitValue (cs : List Char) : List Char × Option (List Char) :=
  match cs.span (· != '=') with
  | (name, _ :: value) => (name, some value)
  | (name, []) => (name, none)

/-- Reads an argument behind two hyphens. -/
def readLong (command : Option CommandName) (r : Reading) (cs : List Char) :
    Except UsageError Reading :=
  let (name, value) := splitValue cs
  match longFlag? command (String.ofList name) with
  | none => .error .unknownArgument
  | some (.setting s) => r.meet s (value.map String.ofList)
  | some (.switch s) => if value.isSome then .error .unexpectedValue else r.turn s

/-- Reads the letters behind one hyphen; a letter that takes a value takes the rest. -/
def readShort (command : Option CommandName) (r : Reading) :
    List Char → Except UsageError Reading
  | [] => .ok r
  | c :: cs =>
    match shortFlag? command c with
    | none => .error .unknownArgument
    | some (.switch s) => do
      let r ← r.turn s
      readShort command r cs
    | some (.setting s) =>
      match cs with
      | [] => r.meet s none
      | '=' :: value => r.meet s (some (String.ofList value))
      | value => r.meet s (some (String.ofList value))

/-- Reads the arguments of a command.  Nothing may follow two lone hyphens. -/
def readCommand (command : CommandName) (r : Reading) : List String → Except UsageError Reading
  | [] => r.settle
  | a :: rest =>
    match a.toList with
    | ['-', '-'] => if rest.isEmpty then r.settle else .error .unknownArgument
    | '-' :: '-' :: cs => do
      let r ← readLong (some command) r cs
      readCommand command r rest
    | '-' :: c :: cs => do
      let r ← readShort (some command) r (c :: cs)
      readCommand command r rest
    | _ =>
      if r.isOpen then readCommand command (r.take a) rest else .error .unknownArgument

/-- The arguments of a command that were read, with how often `-v` stood in front of it. -/
def finish (command : CommandName) (before : Nat) (r : Reading) : Except UsageError Arguments :=
  if r.inputs.isEmpty then .error .missingArgument
  else
    let input : InputSettings := ⟨r.filter, r.inputs⟩
    let verbosity := if r.verbosity = 0 then before else r.verbosity
    match command with
    | .schema =>
      .ok ⟨.schema input r.out (r.switches.contains .ranges) (r.switches.contains .noOp), verbosity⟩
    | .tree => .ok ⟨.tree input (r.switches.contains .noColour), verbosity⟩

/-- What help on some commands gives: help, if there is such a command. -/
def readHelp : List String → UsageError
  | [] => .help
  | [a] => if (command? a).isSome || a == "help" then .help else .unknownCommand
  | _ => .unknownCommand

/-- Reads the arguments up to the command. -/
def readAll (r : Reading) : List String → Except UsageError Arguments
  | [] => if r.verbosity = 0 then .error .helpForNothing else .error .missingCommand
  | a :: rest =>
    if a = "help" then .error (readHelp rest)
    else match command? a with
      | some command => do
        let read ← readCommand command {} rest
        finish command r.verbosity read
      | none =>
        match a.toList with
        | ['-', '-'] =>
          match rest with
          | [] => if r.verbosity = 0 then .error .helpForNothing else .error .missingCommand
          | b :: _ =>
            if (command? b).isSome || b == "help" then .error .unknownArgument
            else .error .unknownCommand
        | '-' :: '-' :: cs => do
          let r ← readLong none r cs
          readAll r rest
        | '-' :: c :: cs => do
          let r ← readShort none r (c :: cs)
          readAll r rest
        | _ => .error .unknownCommand

/-- The arguments of a command line without the name of the program. -/
def ofList (args : List String) : Except UsageError Arguments := readAll {} args

end Arguments

end SchemaForest.CommandLine
