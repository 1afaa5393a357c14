import SchemaForest.Entries

/-!
# Files

The files that a run sees: a tree of directories and the place in it where the run works.

1. A place is a list of names, the innermost first; `walk` follows the steps of a path from a place.
   A single point stays, two points go up, and above the root is the root again.  Nothing is found
   inside a directory that is locked.
2. `read`, `makeDirectory` and `write` are the operations of the system, each with the first reason
   for which it is refused.
3. `createAll` makes a directory with all directories around it, in place: what was made stays when a
   later one is refused.
-/

namespace SchemaForest.CommandLine

/-- Why the system refuses an operation. -/
inductive SystemError where
  | notFound
  | alreadyExists
  | notDirectory
  | isDirectory
  | denied
  | nameTooLong
  | nulByte
  | other (text : String)
deriving DecidableEq

/-- The error in words. -/
def SystemError.message : SystemError → String
  | notFound => "No such file or directory (os error 2)"
  | alreadyExists => "File exists (os error 17)"
  | notDirectory => "Not a directory (os error 20)"
  | isDirectory => "Is a directory (os error 21)"
  | denied => "Permission denied (os error 13)"
  | nameTooLong => "File name too long (os error 36)"
  | nulByte => "file name contained an unexpected NUL byte"
  | other text => text

/-- A file or a directory. -/
inductive Entry where
  | file (content : ByteArray)
  | directory (entries : List (String × Entry))
  /-- A file that may neither be read nor written, or a directory that may neither be listed nor
      entered. -/
  | locked (isDirectory : Bool)
deriving Inhabited

/-- The contents of a directory in order of their names. -/
abbrev Directory := List (String × Entry)

namespace Entry

def isDirectory : Entry → Bool
  | directory _ => true
  | file _ => false
  | locked d => d

/-- What can be seen in a directory. -/
def entries : Entry → Directory
  | directory es => es
  | _ => []

end Entry

namespace Directory

/-- Puts an entry under a name, keeping the order of names. -/
def put (name : String) (e : Entry) : Directory → Directory
  | [] => [(name, e)]
  | (n, f) :: rest =>
    match compare name n with
    | .lt => (name, e) :: (n, f) :: rest
    | .eq => (name, e) :: rest
    | .gt => (n, f) :: put name e rest

mutual
/-- The files of an entry with their paths. -/
def filesOf (path : String) : Entry → List (String × ByteArray)
  | .file content => [(path, content)]
  | .directory es => filesIn path es
  | .locked _ => []

def filesIn (path : String) : List (String × Entry) → List (String × ByteArray)
  | [] => []
  | (n, e) :: rest => filesOf (if path = "" then n else path ++ "/" ++ n) e ++ filesIn path rest
end

end Directory

/-! ## Paths -/

namespace Path

/-- The pieces of a text between slashes. -/
def pieces (s : List Char) : List (List Char) :=
  match s with
  | [] => [[]]
  | c :: r =>
    if c = '/' then [] :: pieces r
    else match pieces r with
      | [] => [[c]]
      | p :: ps => (c :: p) :: ps

/-- Whether a path starts at the root. -/
def isAbsolute (path : String) : Bool := path.toList.head? == some '/'

/-- Whether a path ends in a slash, which asks for a directory. -/
def endsInSlash (path : String) : Bool := path.toList.getLast? == some '/'

/-- The names and points of a path. -/
def steps (path : String) : List String :=
  ((pieces path.toList).map String.ofList).filter (· != "")

/-- Without the slashes and points at the end of a path, in reverse. -/
def trimReversed : List Char → List Char
  | '/' :: r => trimReversed r
  | '.' :: '/' :: r => trimReversed r
  | r => r

/-- The path of the directory that a path stands in; empty for a single name. -/
def parent (path : String) : String :=
  String.ofList
    (trimReversed ((trimReversed path.toList.reverse).dropWhile (· != '/'))).reverse

/-- The path of a name in a directory. -/
def join (path name : String) : String := if endsInSlash path then path ++ name else path ++ "/" ++ name

/-- The most bytes that a path may have. -/
def sizeBound : Nat := 4095

/-- The most bytes that a name may have. -/
def nameBound : Nat := 255

/-- What is wrong with a path before any look at the files. -/
def fault? (path : String) : Option SystemError :=
  if path.toList.contains '\x00' then some .nulByte
  else if path = "" then some .notFound
  else if sizeBound < path.utf8ByteSize then some .nameTooLong
  else none

/-- A path and the directories that it stands in, from the inside out, in at most so many steps. -/
def outward : Nat → String → List String
  | 0, _ => []
  | n + 1, path => if path = "" then [] else path :: outward n (parent path)

end Path

/-! ## Places -/

/-- A tree of files, and the names from its root down to the directory where a run works. -/
structure FileSystem where
  root : Directory
  working : List String

namespace FileSystem

/-- What a directory holds at the end of some names. -/
def entryAt (es : Directory) : List String → Option Entry
  | [] => some (.directory es)
  | s :: rest =>
    match Entries.get? es s with
    | none => none
    | some (.directory ds) => entryAt ds rest
    | some e => if rest.isEmpty then some e else none

/-- What is at a place. -/
def at? (fs : FileSystem) (place : List String) : Option Entry := entryAt fs.root place.reverse

/-- Follows steps from a place. -/
def walk (fs : FileSystem) : List String → List String → Except SystemError (List String)
  | place, [] => .ok place
  | place, s :: rest =>
    match fs.at? place with
    | some (.directory es) =>
      if s = "." then walk fs place rest
      else if s = ".." then walk fs place.tail rest
      else if Path.nameBound < s.utf8ByteSize then .error .nameTooLong
      else if (Entries.get? es s).isSome then walk fs (s :: place) rest
      else .error .notFound
    | some (.locked true) => .error .denied
    | some _ => .error .notDirectory
    | none => .error .notFound

/-- The place where a path begins. -/
def origin (fs : FileSystem) (path : String) : List String :=
  if Path.isAbsolute path then [] else fs.working.reverse

/-- The place of a path. -/
def locate (fs : FileSystem) (path : String) : Except SystemError (List String) :=
  match Path.fault? path with
  | some e => .error e
  | none =>
    match fs.walk (fs.origin path) (Path.steps path) with
    | .error e => .error e
    | .ok place =>
      if Path.endsInSlash path && !(fs.at? place).any Entry.isDirectory then .error .notDirectory
      else .ok place

/-- Whether a path leads to a directory. -/
def isDirectory (fs : FileSystem) (path : String) : Bool :=
  match fs.locate path with
  | .ok place => (fs.at? place).any Entry.isDirectory
  | .error _ => false

/-- Where the last step of a path is to be made: the place of the directory around it, the step
    itself, and what is there.  The step is none if the path has no steps. -/
structure Target where
  around : List String
  step : Option String
  found : Option Entry

/-- The target of a path. -/
def target (fs : FileSystem) (path : String) : Except SystemError Target :=
  match Path.fault? path with
  | some e => .error e
  | none =>
    let steps := Path.steps path
    match fs.walk (fs.origin path) steps.dropLast with
    | .error e => .error e
    | .ok around =>
      match fs.at? around with
      | some (.directory es) =>
        match steps.getLast? with
        | none => .ok ⟨around, none, none⟩
        | some s =>
          if Path.nameBound < s.utf8ByteSize then .error .nameTooLong
          else .ok ⟨around, some s, Entries.get? es s⟩
      | some (.locked true) => .error .denied
      | some _ => .error .notDirectory
      | none => .error .notFound

/-! ## Operations -/

/-- Puts an entry at the end of some names; nothing changes where a directory on the way is not
    there. -/
def putAt (e : Entry) : List String → Directory → Directory
  | [], es => es
  | [s], es => es.put s e
  | s :: rest, es =>
    match Entries.get? es s with
    | some (.directory ds) => es.put s (.directory (putAt e rest ds))
    | _ => es

/-- The tree with an entry at a place. -/
def put (fs : FileSystem) (place : List String) (e : Entry) : FileSystem :=
  { fs with root := putAt e place.reverse fs.root }

/-- The content of the file at a path. -/
def read (fs : FileSystem) (path : String) : Except SystemError ByteArray :=
  match fs.locate path with
  | .error e => .error e
  | .ok place =>
    match fs.at? place with
    | some (.file content) => .ok content
    | some (.directory _) => .error .isDirectory
    | some (.locked _) => .error .denied
    | none => .error .notFound

/-- Makes one directory in a directory that is there. -/
def makeDirectory (fs : FileSystem) (path : String) : Except SystemError FileSystem :=
  match fs.target path with
  | .error e => .error e
  | .ok t =>
    match t.step, t.found with
    | none, _ | _, some _ => .error .alreadyExists
    | some s, none =>
      if s = "." ∨ s = ".." then .error .alreadyExists
      else .ok (fs.put (s :: t.around) (.directory []))

/-- Writes the file at a path.  What is written to a directory, or to a path that asks for one, is
    refused. -/
def write (fs : FileSystem) (path : String) (content : ByteArray) :
    Except SystemError FileSystem :=
  match fs.target path with
  | .error e => .error e
  | .ok t =>
    match t.step with
    | none => .error .isDirectory
    | some s =>
      if Path.endsInSlash path ∨ s = "." ∨ s = ".." then .error .isDirectory
      else match t.found with
        | some (.directory _) | some (.locked true) => .error .isDirectory
        | some (.locked false) => .error .denied
        | _ => .ok (fs.put (s :: t.around) (.file content))

/-- Makes the directories of some paths, each around the next, where they are not there. -/
def makeAll : List String → EStateM SystemError FileSystem Unit
  | [] => return ()
  | path :: rest => do
    let fs ← get
    match fs.makeDirectory path with
    | .ok made =>
      set made
      makeAll rest
    | .error e => if fs.isDirectory path then makeAll rest else throw e

/-- The paths whose directories have to be made, from the inside out; it ends at the first that is
    there. -/
def missing (fs : FileSystem) : List String → Except SystemError (List String)
  | [] => .ok []
  | path :: rest =>
    match fs.makeDirectory path with
    | .ok _ => .ok [path]
    | .error .notFound => (fs.missing rest).map (path :: ·)
    | .error e => if fs.isDirectory path then .ok [] else .error e

/-- Makes a directory with all directories around it. -/
def createAll (path : String) : EStateM SystemError FileSystem Unit := do
  let fs ← get
  let paths ← ofExcept (fs.missing (Path.outward (path.length + 1) path))
  makeAll paths.reverse

/-- The files with one more directory and all directories around it. -/
def create (fs : FileSystem) (path : String) : Except SystemError FileSystem :=
  match (createAll path).run fs with
  | .ok _ made => .ok made
  | .error e _ => .error e

/-! ## The working directory -/

/-- What the working directory holds. -/
def files (fs : FileSystem) : Directory :=
  match entryAt fs.root fs.working with
  | some e => e.entries
  | none => []

/-- The entries from the working directory up to the root. -/
def trail (fs : FileSystem) : List Entry :=
  (List.range (fs.working.length + 1)).reverse.filterMap fun n => entryAt fs.root (fs.working.take n)

/-- A system with some files in its working directory, and beside them only the directories that
    every system has. -/
def ofFiles (files : Directory) : FileSystem where
  root :=
    [("bin", .directory []), ("dev", .directory [("null", .file ByteArray.empty)]),
      ("etc", .directory []), ("home", .directory []), ("proc", .directory []),
      ("root", .directory []), ("tmp", .directory [("work", .directory files)]),
      ("usr", .directory []), ("var", .directory [])]
  working := ["tmp", "work"]

end FileSystem

end SchemaForest.CommandLine
