import SchemaForest.CommandLine.Run

/-!
# The program

Reads the arguments and performs the run on the machine.  The steps of the run were decided before:
only names of files, contents of files and texts pass through here.
-/

namespace SchemaForest.CommandLine.Program

/-- The system's error by its kind. -/
def systemError : IO.Error → SystemError
  | .noFileOrDirectory .. => .notFound
  | .alreadyExists .. => .alreadyExists
  | .inappropriateType .. => .isDirectory
  | .permissionDenied .. => .denied
  | e => .other (toString e)

/-- An entry of a directory with the names below it; the contents of files are left out. -/
partial def namesBelow (e : IO.FS.DirEntry) : IO Entry := do
  if ← e.path.isDir then
    try
      let mut names : Directory := []
      for f in ← e.path.readDir do
        names := names.put f.fileName (← namesBelow f)
      return .directory names
    catch _ =>
      return .locked true
  else
    return .file ByteArray.empty

/-- The names below the working directory, as the working directory of a system. -/
def names : IO FileSystem := do
  let mut found : Directory := []
  for e in ← (← IO.currentDir).readDir do
    found := found.put e.fileName (← namesBelow e)
  return .ofFiles found

/-- The content of a file. -/
def read (path : String) : IO (Except SystemError ByteArray) := do
  try
    return .ok (← IO.FS.readBinFile path)
  catch e =>
    return .error (systemError e)

/-- What the system answers for some paths, as a function of the path. -/
def reader (paths : List String) : IO Reader := do
  let contents ← paths.mapM fun p => do return (p, ← read p)
  return fun p => (Entries.get? contents p).getD (.error .notFound)

/-- What the system answers to an action. -/
def attempt (action : IO Unit) : IO (Except SystemError Unit) := do
  try
    action
    return .ok ()
  catch e =>
    return .error (systemError e)

/-- The machine as a system. -/
def machine : System (ExceptT RunError IO) where
  look inputs := do
    let fs ← if inputs.any isPattern then names else pure (.ofFiles [])
    let paths := match resolve fs inputs with
      | .ok paths => paths
      | .error _ => []
    return (fs, ← reader paths)
  print text := (IO.print text : IO Unit)
  note text := (IO.eprint text : IO Unit)
  createAll path := attempt (IO.FS.createDirAll path)
  write path text := attempt (IO.FS.writeFile path text)

/-- Tells why a run failed. -/
def report (e : RunError) : IO UInt32 := do
  match e.chain with
  | [] => return 1
  | first :: causes =>
    IO.eprintln ("Error: " ++ first)
    unless causes.isEmpty do
      IO.eprintln "\nCaused by:"
      for c in causes do IO.eprintln ("    " ++ c)
    return 1

/-- How the program is used. -/
def usage : String :=
  "Usage: schema-forest [-v] <COMMAND>

Commands:
  schema  extract and print the schema set as JSON
  tree    extract and print an indented tree with decoded annotations

Options of both commands:
  -i, --input <INPUT>...   paths or quoted glob patterns
      --jq-expr <JQ_EXPR>  filter that picks the document out of a file
Options of schema:
  -o, --out <OUT>          output file in place of the standard output
      --with-ranges        include `sourceRange` on every node
      --no-op              show the arguments and do nothing
Options of tree:
      --no-color           never colorize"

/-- Tells how the program is used, on the standard output if that was asked for. -/
def explain (e : UsageError) : IO UInt32 := do
  match e with
  | .help => IO.println usage; return 0
  | .version => IO.println "schema-forest 0.1.0"; return 0
  | _ => IO.eprintln usage; return 2

/-- A run on the machine. -/
def run (a : Arguments) : IO UInt32 := do
  let coloured := (← IO.getEnv "NO_COLOR").isNone && (← (← IO.getStdout).isTty)
  match ← (machine.perform Filter.evaluate a coloured).run with
  | .error e => report e
  | .ok () => return 0

end SchemaForest.CommandLine.Program

open SchemaForest.CommandLine in
def main (args : List String) : IO UInt32 :=
  match Arguments.ofList args with
  | .error e => Program.explain e
  | .ok a => Program.run a
