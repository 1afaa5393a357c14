import SchemaForest.CommandLine.Described
import SchemaForest.CommandLine.Load
import SchemaForest.Schema.JsonView
import SchemaForest.Schema.TreeView

/-!
# Runs

A run makes the tables of its inputs and gives out what they show: a text to print, or a file to
write.  Several documents show side by side, the schemas in one object under their paths, the trees
each below a line with its path.

1. `System` is what a run asks of the system around it, and `System.perform` is the run, one step
   after the other on whatever system there is and with whatever interpreter for its filters.
2. `World` is a system that is a value: the texts printed so far and the files.  `runWith` performs a
   run on it and tells what is left, also of a run that fails on its way.  What a run logs on its way,
   beside the output, is left out.
-/

namespace SchemaForest.CommandLine

/-- The schemas of some documents as one value; a single one stands alone. -/
def schemaOf (options : ViewOptions) (tables : List (String × Table)) : Json :=
  match tables with
  | [(_, t)] => t.toJson options
  | many => .object (Entries.ofPairs (many.map fun (path, t) => (path, t.toJson options)))

/-- The line with its path above the tree of a document. -/
def heading (coloured : Bool) (path : String) : String :=
  Style.bold.paint coloured ("== " ++ path) ++ "\n"

/-! ## Steps -/

/-- What a run asks of the system around it. -/
structure System (m : Type → Type) where
  /-- The names of files and their contents, as far as some inputs need them. -/
  look : List String → m (FileSystem × Reader)
  print : String → m Unit
  /-- Prints beside the output proper. -/
  note : String → m Unit
  /-- Makes a directory with all directories around it. -/
  createAll : String → m (Except SystemError Unit)
  write : String → String → m (Except SystemError Unit)

namespace System

variable {m : Type → Type} [Monad m] [MonadExceptOf RunError m] (system : System m)
  (interpret : Filter.Interpreter)

/-- The tables of all inputs with the paths of their files. -/
def tables (input : InputSettings) : m (List (String × Table)) := do
  let (fs, read) ← system.look input.inputs
  ofExcept (tablesOf interpret fs read input)

/-- Writes a file and the directories around it. -/
def writeOut (path text : String) : m Unit := do
  let parent := Path.parent path
  if parent ≠ "" then
    match ← system.createAll parent with
    | .error e => throw (RunError.noDirectory parent e)
    | .ok () => pure ()
  match ← system.write path text with
  | .error e => throw (RunError.unwritten path e)
  | .ok () => pure ()

/-- Gives out a text: in a file, or as a line of its own. -/
def emit (out : Option String) (text : String) : m Unit :=
  match out with
  | none => system.print (text ++ "\n")
  | some path => system.writeOut path text

/-- Prints trees one after the other, each below its path if there are several. -/
def printTrees (coloured several : Bool) : List (String × Table) → m Unit
  | [] => pure ()
  | (path, t) :: rest => do
    if several then
      system.print (heading coloured path)
    system.print (t.toTreeText coloured)
    printTrees coloured several rest

/-- The steps of a run. -/
def perform (a : Arguments) (coloured : Bool) : m Unit :=
  match a.command with
  | .schema input out ranges noOp =>
    if noOp then system.note ((Described.ofArguments a).text 0 ++ "\n")
    else do
      let tables ← system.tables interpret input
      system.emit out (schemaOf ⟨ranges⟩ tables).pretty
  | .tree input noColour => do
    let tables ← system.tables interpret input
    system.printTrees (coloured && !noColour) (tables.length > 1) tables

end System

/-! ## Runs on a world -/

/-- What was printed so far, and the files.  Logs are left out, so `stderr` has what a run itself has
    to say beside its output. -/
structure World where
  stdout : String := ""
  stderr : String := ""
  files : FileSystem

/-- A world as a system. -/
def World.system : System (EStateM RunError World) where
  look _ := do
    let w ← get
    return (w.files, w.files.read)
  print text := modify fun w => { w with stdout := w.stdout ++ text }
  note text := modify fun w => { w with stderr := w.stderr ++ text }
  createAll path := do
    let w ← get
    match (FileSystem.createAll path).run w.files with
    | .ok _ files =>
      set { w with files := files }
      return .ok ()
    | .error e files =>
      set { w with files := files }
      return .error e
  write path text := do
    let w ← get
    match w.files.write path text.toUTF8 with
    | .ok files =>
      set { w with files := files }
      return .ok ()
    | .error e => return .error e

/-- What is left of a run: the world behind it, and the error if it failed. -/
structure Outcome extends World where
  failure : Option RunError

/-- What is left of some steps on a world. -/
def Outcome.ofResult : EStateM.Result RunError World Unit → Outcome
  | .ok _ w => ⟨w, none⟩
  | .error e w => ⟨w, some e⟩

/-- A run on some files with an interpreter for its filters. -/
def runWith (interpret : Filter.Interpreter) (a : Arguments) (coloured : Bool) (files : FileSystem) :
    Outcome :=
  .ofResult ((World.system.perform interpret a coloured).run { files := files })

/-- A run on some files. -/
def run (a : Arguments) (coloured : Bool) (files : FileSystem) : Outcome :=
  runWith Filter.evaluate a coloured files

end SchemaForest.CommandLine
