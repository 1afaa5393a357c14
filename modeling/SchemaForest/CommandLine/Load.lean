import SchemaForest.Ast.Document
import SchemaForest.CommandLine.Arguments
import SchemaForest.CommandLine.Glob
import SchemaForest.Filter.Select
import SchemaForest.Schema.Extract

/-!
# Loading documents

Inputs are paths or patterns; a pattern stands for its matches and has to have some.  All inputs are
found before the first is read, all are read before the first is extracted, and the first fault ends
the run.
-/

namespace SchemaForest.CommandLine

/-- Why inputs are not found. -/
inductive InputError where
  | pattern (fault : Glob.PatternError)
  | unlisted (fault : Glob.ListingError)
  | unmatched (pattern : String)
deriving DecidableEq

def InputError.message : InputError → String
  | pattern fault => fault.message
  | unlisted fault => fault.message
  | unmatched p => "glob pattern matched no files: " ++ p

/-- Why the text of a file is not read. -/
inductive ReadError where
  | system (cause : SystemError)
  | notText
deriving DecidableEq

def ReadError.message : ReadError → String
  | system cause => cause.message
  | notText => "stream did not contain valid UTF-8"

/-- Why a run fails. -/
inductive RunError where
  | inputs (cause : InputError)
  | unreadable (path : String) (cause : ReadError)
  | notJson (path : String) (cause : SyntaxError)
  | filter (path : String) (cause : FilterError)
  | invalid (path : String) (cause : DecodeError)
  | extraction (path : String) (cause : ExtractError)
  | noDirectory (path : String) (cause : SystemError)
  | unwritten (path : String) (cause : SystemError)

/-- What went wrong and why, the cause last. -/
def RunError.chain : RunError → List String
  | inputs cause => ["failed to resolve input file paths", cause.message]
  | unreadable path cause => ["failed to read source file " ++ path, cause.message]
  | notJson path cause => ["failed to parse JSON source file " ++ path, cause.message]
  | filter path cause =>
    ("failed to apply jq expression to source file " ++ path) :: cause.message?.toList
  | invalid path cause => ["invalid AST document " ++ path, cause.text]
  | extraction path cause => ["schema extraction failed for " ++ path, cause.message]
  | noDirectory path cause => ["failed to create " ++ path, cause.message]
  | unwritten path cause => ["failed to write " ++ path, cause.message]

/-! ## Inputs -/

/-- Whether an input is a pattern. -/
def isPattern (input : String) : Bool :=
  input.toList.any fun c => c == '*' || c == '?' || c == '[' || c == Json.openBrace

/-- The paths that an input stands for. -/
def pathsOf (fs : FileSystem) (input : String) : Except InputError (List String) :=
  if isPattern input then
    match Glob.Pattern.ofText input with
    | .error e => .error (.pattern e)
    | .ok p =>
      match (p.paths fs).mapM id with
      | .error e => .error (.unlisted e)
      | .ok paths => if paths.isEmpty then .error (.unmatched input) else .ok paths
  else .ok [input]

/-- The paths that some inputs stand for, in order. -/
def resolve (fs : FileSystem) : List String → Except InputError (List String)
  | [] => .ok []
  | input :: rest => do
    let ps ← pathsOf fs input
    let qs ← resolve fs rest
    .ok (ps ++ qs)

/-! ## Documents -/

/-- How a run gets at the contents of files. -/
abbrev Reader := String → Except SystemError ByteArray

/-- The text of a file. -/
def readText (read : Reader) (path : String) : Except ReadError String :=
  match read path with
  | .error e => .error (.system e)
  | .ok bytes =>
    match String.fromUTF8? bytes with
    | some text => .ok text
    | none => .error .notText

section Sources

variable (interpret : Filter.Interpreter)

/-- The source that a text describes, itself or in the part that a filter picks. -/
def sourceOf (filter : Option String) (path text : String) : Except RunError SourceFile :=
  match filter with
  | none =>
    match SourceFile.ofText text with
    | .ok f => .ok f
    | .error e => .error (.invalid path e)
  | some filter =>
    match Json.ofText text with
    | .error e => .error (.notJson path e)
    | .ok v =>
      match interpret.select filter v with
      | .error e => .error (.filter path e)
      | .ok w =>
        match SourceFile.ofJson w with
        | .ok f => .ok f
        | .error e => .error (.invalid path e)

/-- The source in a file. -/
def load (read : Reader) (filter : Option String) (path : String) : Except RunError SourceFile :=
  match readText read path with
  | .error e => .error (.unreadable path e)
  | .ok text => sourceOf interpret filter path text

/-- The sources in some files with their paths. -/
def loadAll (read : Reader) (filter : Option String) :
    List String → Except RunError (List (String × SourceFile))
  | [] => .ok []
  | path :: rest => do
    let f ← load interpret read filter path
    let fs ← loadAll read filter rest
    .ok ((path, f) :: fs)

end Sources

/-- The tables of some sources. -/
def extractAll : List (String × SourceFile) → Except RunError (List (String × Table))
  | [] => .ok []
  | (path, f) :: rest =>
    match f.extract with
    | .error e => .error (.extraction path e)
    | .ok t => (extractAll rest).map ((path, t) :: ·)

/-- The tables of all inputs with the paths of their files. -/
def tablesOf (interpret : Filter.Interpreter) (fs : FileSystem) (read : Reader)
    (input : InputSettings) : Except RunError (List (String × Table)) :=
  match resolve fs input.inputs with
  | .error e => .error (.inputs e)
  | .ok paths => do
    let sources ← loadAll interpret read input.filter paths
    extractAll sources

end SchemaForest.CommandLine
