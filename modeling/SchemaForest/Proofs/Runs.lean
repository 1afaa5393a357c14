import SchemaForest.CommandLine.Run
import SchemaForest.Proofs.DistinctNames
import SchemaForest.Proofs.Inputs
import SchemaForest.Proofs.Rereading

/-!
# Runs

A run goes in two steps.  First it makes the tables of all its inputs, and in this step it only looks
at files; then it gives out what they show.  So what can go wrong with inputs goes wrong before
anything has been given out, and what is given out is put together from files that were read alone.

1. **Steps on a world.**  One equation for each step: what it prints, what it writes and how it fails
   (`run_printTrees`, `run_emit_none`, `run_writeOut`).  Giving out fails with an error of its own
   kind (`RunError.IsOutput`), so one can tell from the error in which step a run failed.
2. **The two steps of a run** (`run_schema`, `run_tree`).
3. **A run that fails on its inputs** leaves the world as it was (`run_fails_on_bad_input`).
4. **A run that does not** shows its files one by one, trees in their order and schemas under their
   paths (`run_shows_each_file`).
-/

namespace SchemaForest.CommandLine

open Fallible

variable {interpret : Filter.Interpreter}

/-! ## Steps on a world -/

/-- The failures of giving out. -/
def RunError.IsOutput : RunError → Prop
  | .noDirectory .. | .unwritten .. => True
  | _ => False

section Tables

variable {read : Reader} {filter : Option String} {e : RunError}

theorem not_isOutput_of_load {path : String} (h : load interpret read filter path = .error e) :
    ¬ e.IsOutput := by
  rw [load] at h
  cases htext : readText read path with
  | error cause =>
    rw [htext] at h
    cases h
    exact id
  | ok text =>
    rw [htext] at h
    dsimp only at h
    rw [sourceOf.eq_def] at h
    split at h
    · split at h
      · cases h
      · cases h
        exact id
    · split at h
      · cases h
        exact id
      · split at h
        · cases h
          exact id
        · split at h
          · cases h
          · cases h
            exact id

theorem not_isOutput_of_loadAll {paths : List String} (h : loadAll interpret read filter paths = .error e) :
    ¬ e.IsOutput := by
  induction paths with
  | nil => cases h
  | cons path rest ih =>
    rcases bind_eq_error_iff.1 h with hload | ⟨f, -, h⟩
    · exact not_isOutput_of_load hload
    · rcases bind_eq_error_iff.1 h with hrest | ⟨fs, -, h⟩
      · exact ih hrest
      · cases h

theorem not_isOutput_of_extractAll {sources : List (String × SourceFile)}
    (h : extractAll sources = .error e) : ¬ e.IsOutput := by
  induction sources with
  | nil => cases h
  | cons p rest ih =>
    obtain ⟨path, f⟩ := p
    rw [extractAll] at h
    split at h
    · cases h
      exact id
    · cases hrest : extractAll rest with
      | ok ts => rw [hrest] at h; cases h
      | error e' =>
        rw [hrest] at h
        cases h
        exact ih hrest

/-- What is wrong with inputs is no failure of giving out. -/
theorem not_isOutput_of_tablesOf {fs : FileSystem} {input : InputSettings}
    (h : tablesOf interpret fs read input = .error e) : ¬ e.IsOutput := by
  rw [tablesOf] at h
  split at h
  · cases h
    exact id
  · rcases bind_eq_error_iff.1 h with hload | ⟨sources, -, hextract⟩
    · exact not_isOutput_of_loadAll hload
    · exact not_isOutput_of_extractAll hextract

end Tables

/-- The text of a tree, below its path if it is one of several. -/
def treeText (coloured several : Bool) (path : String) (t : Table) : String :=
  (if several then heading coloured path else "") ++ t.toTreeText coloured

namespace World

theorem run_tables (input : InputSettings) (w : World) :
    (World.system.tables interpret input).run w =
      match tablesOf interpret w.files w.files.read input with
      | .ok tables => .ok tables w
      | .error e => .error e w := by
  show EStateM.run (ofExcept (tablesOf interpret w.files w.files.read input)) w = _
  cases tablesOf interpret w.files w.files.read input <;> rfl

/-- Trees are printed one behind the other. -/
theorem run_printTrees (coloured several : Bool) (tables : List (String × Table)) (w : World) :
    (World.system.printTrees coloured several tables).run w =
      .ok () { w with
        stdout := w.stdout ++ String.join (tables.map fun p => treeText coloured several p.1 p.2) } := by
  induction tables generalizing w with
  | nil =>
    show EStateM.Result.ok () w = .ok () { w with stdout := w.stdout ++ "" }
    rw [String.append_empty]
  | cons p rest ih =>
    obtain ⟨path, t⟩ := p
    have hfirst : (World.system.printTrees coloured several ((path, t) :: rest)).run w =
        (World.system.printTrees coloured several rest).run
          { w with stdout := w.stdout ++ treeText coloured several path t } := by
      rw [treeText, ← String.append_assoc]
      cases several with
      | false =>
        rw [if_neg Bool.false_ne_true, String.append_empty]
        rfl
      | true => rfl
    rw [hfirst, ih, List.map_cons, String.join_cons, ← String.append_assoc]

theorem run_emit_none (text : String) (w : World) :
    (World.system.emit none text).run w =
      .ok () { w with stdout := w.stdout ++ (text ++ "\n") } := rfl

theorem run_write (path text : String) (w : World) :
    (World.system.write path text).run w =
      match w.files.write path text.toUTF8 with
      | .ok files => .ok (.ok ()) { w with files := files }
      | .error e => .ok (.error e) w := by
  show EStateM.run (match w.files.write path text.toUTF8 with | .ok files => _ | .error e => _) w = _
  cases w.files.write path text.toUTF8 <;> rfl

theorem run_createAll (path : String) (w : World) :
    (World.system.createAll path).run w =
      match (FileSystem.createAll path).run w.files with
      | .ok _ files => .ok (.ok ()) { w with files := files }
      | .error e files => .ok (.error e) { w with files := files } := by
  show EStateM.run (match (FileSystem.createAll path).run w.files with
    | .ok _ files => _ | .error e files => _) w = _
  cases (FileSystem.createAll path).run w.files <;> rfl

/-- A file is written behind its directories.  What was made of these stays if the file is refused. -/
theorem run_writeOut (path text : String) (w : World) :
    (World.system.writeOut path text).run w =
      match (if Path.parent path = "" then .ok () w.files
        else (FileSystem.createAll (Path.parent path)).run w.files) with
      | .error e files => .error (.noDirectory (Path.parent path) e) { w with files := files }
      | .ok _ files =>
        match files.write path text.toUTF8 with
        | .error e => .error (.unwritten path e) { w with files := files }
        | .ok files => .ok () { w with files := files } := by
  rw [System.writeOut]
  by_cases hparent : Path.parent path = ""
  · rw [if_pos hparent]
    simp only [hparent, ne_eq, not_true, if_false]
    rw [EStateM.run_bind, run_write]
    cases w.files.write path text.toUTF8 <;> rfl
  · rw [if_neg hparent]
    simp only [ne_eq, hparent, not_false_iff, if_true]
    rw [EStateM.run_bind, run_createAll]
    cases (FileSystem.createAll (Path.parent path)).run w.files with
    | error e files => rfl
    | ok _ files =>
      dsimp only
      rw [EStateM.run_bind, run_write]
      dsimp only
      cases files.write path text.toUTF8 <;> rfl

/-- Giving out fails with an error of giving out. -/
theorem isOutput_of_emit {out : Option String} {text : String} {w w' : World} {e : RunError}
    (h : (World.system.emit out text).run w = .error e w') : e.IsOutput := by
  cases out with
  | none => cases h
  | some path =>
    have h : (World.system.writeOut path text).run w = .error e w' := h
    rw [run_writeOut] at h
    split at h
    · cases h
      trivial
    · split at h
      · cases h
        trivial
      · cases h

end World

/-! ## The two steps of a run -/

theorem run_schema (interpret : Filter.Interpreter) (input : InputSettings) (out : Option String)
    (ranges coloured : Bool) (verbosity : Nat) (files : FileSystem) :
    runWith interpret ⟨.schema input out ranges false, verbosity⟩ coloured files =
      match tablesOf interpret files files.read input with
      | .error e => ⟨{ files := files }, some e⟩
      | .ok tables => .ofResult
        ((World.system.emit out (schemaOf ⟨ranges⟩ tables).pretty).run { files := files }) := by
  show Outcome.ofResult (EStateM.run (World.system.tables interpret input >>= fun tables => _) _) = _
  rw [EStateM.run_bind, World.run_tables]
  cases tablesOf interpret files files.read input <;> rfl

theorem run_tree (interpret : Filter.Interpreter) (input : InputSettings) (noColour coloured : Bool)
    (verbosity : Nat) (files : FileSystem) :
    runWith interpret ⟨.tree input noColour, verbosity⟩ coloured files =
      match tablesOf interpret files files.read input with
      | .error e => ⟨{ files := files }, some e⟩
      | .ok tables => ⟨{ files := files, stdout := String.join (tables.map fun p =>
          treeText (coloured && !noColour) (tables.length > 1) p.1 p.2) }, none⟩ := by
  show Outcome.ofResult (EStateM.run (World.system.tables interpret input >>= fun tables => _) _) = _
  rw [EStateM.run_bind, World.run_tables]
  cases tablesOf interpret files files.read input with
  | error e => rfl
  | ok tables =>
    dsimp only
    rw [World.run_printTrees]
    dsimp only
    rw [String.empty_append]
    rfl

/-! ## Runs that fail on their inputs -/

/-- Whether a command only shows its arguments. -/
def Command.isNoOp : Command → Bool
  | .schema _ _ _ noOp => noOp
  | .tree .. => false

section Failures

variable {a : Arguments} {files : FileSystem} {e : RunError}

/-- Without tables a run ends with what is wrong, and leaves everything as it was. -/
theorem run_of_error (hop : a.command.isNoOp = false)
    (he : tablesOf interpret files files.read a.command.input = .error e) (coloured : Bool) :
    runWith interpret a coloured files = ⟨{ files := files }, some e⟩ := by
  obtain ⟨command, verbosity⟩ := a
  cases command with
  | schema input out ranges noOp =>
    obtain rfl : noOp = false := hop
    have he : tablesOf interpret files files.read input = .error e := he
    rw [run_schema, he]
  | tree input noColour =>
    have he : tablesOf interpret files files.read input = .error e := he
    rw [run_tree, he]

/-- Once it has tables it can only fail to give out what they show. -/
theorem isOutput_of_run (hop : a.command.isNoOp = false) {tables : List (String × Table)}
    (htables : tablesOf interpret files files.read a.command.input = .ok tables) {coloured : Bool}
    (he : (runWith interpret a coloured files).failure = some e) : e.IsOutput := by
  obtain ⟨command, verbosity⟩ := a
  cases command with
  | schema input out ranges noOp =>
    obtain rfl : noOp = false := hop
    have htables : tablesOf interpret files files.read input = .ok tables := htables
    rw [run_schema, htables] at he
    dsimp only at he
    cases hemit : (World.system.emit out (schemaOf ⟨ranges⟩ tables).pretty).run
        { files := files } with
    | ok _ w => rw [hemit] at he; cases he
    | error e' w =>
      rw [hemit] at he
      cases he
      exact World.isOutput_of_emit hemit
  | tree input noColour =>
    have htables : tablesOf interpret files files.read input = .ok tables := htables
    rw [run_tree, htables] at he
    cases he

end Failures

/-- A run fails before anything is given out exactly if something is wrong with its inputs: one of
    them stands for no paths, or one of the files that they stand for cannot be read, parsed, picked
    from, decoded or extracted.  Then nothing was printed, and the files are as they were, however
    many of the others are fine.  Any other failure is one of giving out.  How filters are evaluated
    does not matter; logs are left out. -/
theorem run_fails_on_bad_input {a : Arguments} (hop : a.command.isNoOp = false) (coloured : Bool)
    (files : FileSystem) :
    (a.command.input.Bad interpret files files.read →
      ∃ e, runWith interpret a coloured files = ⟨{ stdout := "", stderr := "", files := files }, some e⟩ ∧
        ¬ e.IsOutput) ∧
    ∀ e, (runWith interpret a coloured files).failure = some e →
      ¬ e.IsOutput → a.command.input.Bad interpret files files.read := by
  cases htables : tablesOf interpret files files.read a.command.input with
  | error fault =>
    exact ⟨fun _ => ⟨fault, run_of_error hop htables coloured, not_isOutput_of_tablesOf htables⟩,
      fun _ _ _ => exists_error_tablesOf_iff.1 ⟨fault, htables⟩⟩
  | ok tables =>
    exact ⟨fun hbad => absurd htables (hbad.tablesOf_ne_ok tables),
      fun _ he hinput => absurd (isOutput_of_run hop htables he) hinput⟩

/-- A document that declares a name for strings. -/
def aliasDocument : Json :=
  .object [("declarations", .array [.object [("type", .string "TsTypeAliasDeclaration"),
    ("span", .array [.integer 0, .integer 9]), ("id", .string "A"), ("typeAnnotation", .object
      [("type", .string "TsKeywordType"), ("span", .array [.integer 5, .integer 9]),
        ("kind", .string "string")])]])]

/-- A document that declares an interface without properties. -/
def interfaceDocument : Json :=
  .object [("declarations", .array [.object [("type", .string "TsInterfaceDeclaration"),
    ("span", .array [.integer 0, .integer 9]), ("id", .string "B"), ("body", .array [])]])]

/-- What these documents declare. -/
def aliasTable : Table := ⟨[Node.of "A" .declaration ⟨0, 9⟩ [Node.of "A" .string ⟨0, 9⟩ []]]⟩
def interfaceTable : Table := ⟨[Node.of "B" .declaration ⟨0, 9⟩ []]⟩

/-- The file in which a document is printed. -/
def printed (v : Json) : ByteArray := (Filter.Value.ofJson v).text.toUTF8

/-- Two files. -/
def desk : FileSystem :=
  .ofFiles [("a", .file (printed aliasDocument)), ("b", .file (printed interfaceDocument))]

theorem tableOf_printed {read : Reader} {path : String} {v : Json} {f : SourceFile} {t : Table}
    (hread : read path = .ok (printed v)) (hfits : Json.Fits Json.depthBound v)
    (hreread : v.rereadFloats = .ok v) (hf : readSource .text (.ofJson v) = .ok f)
    (ht : f.extract = .ok t) : tableOf interpret read none path = .ok t := by
  have htext : (Filter.Value.ofJson v).text.toList = (Filter.Value.ofJson v).chars ++ [] := by
    rw [List.append_nil, Filter.Value.text, String.toList_ofList]
  refine tableOf_eq_ok_iff.2 ⟨f, (load_direct_eq_ok_iff (readText_of_toUTF8 hread)).2 ?_, ht⟩
  rwa [SourceFile.ofText_of_chars htext (by rintro _ ⟨⟩) hfits hreread]

theorem tableOf_desk_a : tableOf interpret desk.read none "a" = .ok aliasTable := by
  refine tableOf_printed (v := aliasDocument) rfl ?_ rfl rfl rfl
  simp [aliasDocument, Json.Fits, Json.FitFields, Json.FitItems, Json.depthBound,
    Json.significandBound]

theorem tableOf_desk_b : tableOf interpret desk.read none "b" = .ok interfaceTable := by
  refine tableOf_printed (v := interfaceDocument) rfl ?_ rfl rfl rfl
  simp [interfaceDocument, Json.Fits, Json.FitFields, Json.FitItems, Json.depthBound,
    Json.significandBound]

/-- The first file is fine, and the second is not there; so nothing is printed for the first. -/
theorem run_fails_on_bad_input_desk :
    tableOf Filter.evaluate desk.read none "a" = .ok aliasTable ∧
      ∃ e, run ⟨.tree ⟨none, ["a", "c"]⟩ false, 0⟩ false desk = ⟨{ files := desk }, some e⟩ := by
  have hmissing : desk.read "c" = .error .notFound := rfl
  have hbad : InputSettings.Bad Filter.evaluate desk desk.read ⟨none, ["a", "c"]⟩ :=
    .file (i := "c") (List.mem_cons_of_mem _ (List.mem_singleton_self _)) (.literal rfl)
      (List.mem_singleton_self _) (.unreadable hmissing)
  obtain ⟨e, he, -⟩ := (run_fails_on_bad_input (a := ⟨.tree ⟨none, ["a", "c"]⟩ false, 0⟩) rfl false
    desk).1 hbad
  exact ⟨tableOf_desk_a, e, he⟩

/-! ## Runs that show their files -/

/-- The value in which the schemas of some files show: a single one stands alone, and several stand
    under their paths, in the order in which the paths first come. -/
inductive ShowsSchemas (options : ViewOptions) : List String → List Table → Json → Prop
  | single (path : String) (t : Table) : ShowsSchemas options [path] [t] (t.toJson options)
  | several {paths : List String} {ts : List Table} {entries : Entries Json}
    (h : paths.length ≠ 1) (hkeys : Entries.keys entries = paths.eraseDups)
    (hvalues : ∀ path t, (path, t) ∈ paths.zip ts →
      entries.get? path = some (t.toJson options)) : ShowsSchemas options paths ts (.object entries)

theorem schemaOf_eq {options : ViewOptions} {tables : List (String × Table)}
    (h : tables.length ≠ 1) :
    schemaOf options tables =
      .object (Entries.ofPairs (tables.map fun p => (p.1, p.2.toJson options))) := by
  rw [schemaOf.eq_def]
  split
  · exact absurd rfl h
  · rfl

/-- Where a path always comes with the same table, the schemas show under their paths. -/
theorem showsSchemas_schemaOf {options : ViewOptions} {paths : List String} {ts : List Table}
    (hlength : paths.length = ts.length)
    (hsame : ∀ path t t', (path, t) ∈ paths.zip ts → (path, t') ∈ paths.zip ts → t' = t) :
    ShowsSchemas options paths ts (schemaOf options (paths.zip ts)) := by
  by_cases hone : paths.length = 1
  · obtain ⟨path, rfl⟩ := List.length_eq_one_iff.1 hone
    obtain ⟨t, rfl⟩ := List.length_eq_one_iff.1 (hlength.symm.trans hone)
    exact .single path t
  · have hzip : (paths.zip ts).length ≠ 1 := by
      rwa [List.length_zip, ← hlength, Nat.min_self]
    rw [schemaOf_eq hzip]
    refine .several hone ?_ fun path t hmem => ?_
    · rw [Entries.keys_ofPairs, Entries.keys, List.map_map]
      exact congrArg List.eraseDups (List.map_fst_zip (Nat.le_of_eq hlength))
    · rw [Entries.get?_ofPairs, ← List.map_reverse]
      -- Any value that is found under the path is that of a table which came with it.
      cases hfound : Entries.get? ((paths.zip ts).reverse.map fun p => (p.1, p.2.toJson options))
          path with
      | none =>
        refine absurd (Entries.get?_eq_none_iff.1 hfound) (not_not_intro ?_)
        rw [Entries.keys, List.map_map]
        exact List.mem_map.2 ⟨(path, t), List.mem_reverse.2 hmem, rfl⟩
      | some value =>
        obtain ⟨p, hp, heq⟩ := List.mem_map.1 (Entries.mem_of_get? hfound)
        obtain ⟨rfl, rfl⟩ := Prod.mk.inj heq
        rw [hsame p.1 t p.2 hmem (List.mem_reverse.1 hp)]

/-! ### Command lines -/

namespace Arguments

theorem inputs_finish {command : CommandName} {before : Nat} {r : Reading} {a : Arguments}
    (h : finish command before r = .ok a) : a.command.input.inputs ≠ [] := by
  rw [finish] at h
  split at h
  · cases h
  · rename_i hsome
    have hne : r.inputs ≠ [] := fun hnil => hsome (List.isEmpty_iff.2 hnil)
    cases command <;> cases h <;> exact hne

theorem inputs_readAll {r : Reading} {args : List String} {a : Arguments}
    (h : readAll r args = .ok a) : a.command.input.inputs ≠ [] := by
  induction args generalizing r with
  | nil =>
    rw [readAll.eq_def] at h
    dsimp only at h
    split at h <;> cases h
  | cons first rest ih =>
    rw [readAll.eq_def] at h
    dsimp only at h
    split at h
    · cases h
    split at h
    · obtain ⟨read, -, h⟩ := bind_eq_ok_iff.1 h
      exact inputs_finish h
    split at h
    · split at h
      · split at h <;> cases h
      · split at h <;> cases h
    · obtain ⟨r', -, h⟩ := bind_eq_ok_iff.1 h
      exact ih h
    · obtain ⟨r', -, h⟩ := bind_eq_ok_iff.1 h
      exact ih h
    · cases h

end Arguments

/-- Inputs that stand for paths stand for some. -/
theorem flatten_ne_nil {fs : FileSystem} {inputs : List String} {pss : List (List String)}
    (h : List.Forall₂ (Expands fs) inputs pss) (hinputs : inputs ≠ []) : pss.flatten ≠ [] := by
  cases h with
  | nil => exact absurd rfl hinputs
  | cons hfirst _ =>
    rw [List.flatten_cons]
    exact List.append_ne_nil_of_left_ne_nil hfirst.ne_nil _

/-- A run is put together from its files, each loaded and extracted alone.  Of these there is at
    least one.  The command for schemas gives out one value with the schemas of all files; the command
    for trees prints the trees in the order of the paths, those of a repeated path included, each below
    its path if there are several, and leaves the files as they were.  How filters are evaluated does
    not matter; logs are left out. -/
theorem run_shows_each_file {args : List String} {a : Arguments}
    (hargs : Arguments.ofList args = .ok a) (coloured : Bool) {files : FileSystem}
    {pss : List (List String)} (hinputs : List.Forall₂ (Expands files) a.command.input.inputs pss)
    {ts : List Table} (htables : List.Forall₂
      (fun path t => tableOf interpret files.read a.command.input.filter path = .ok t) pss.flatten ts) :
    pss.flatten ≠ [] ∧
    (∀ input out ranges, a.command = .schema input out ranges false →
      ∃ v, ShowsSchemas ⟨ranges⟩ pss.flatten ts v ∧
        runWith interpret a coloured files = .ofResult ((World.system.emit out v.pretty).run { files := files }) ∧
        (out = none → runWith interpret a coloured files =
          ⟨{ stdout := v.pretty ++ "\n", stderr := "", files := files }, none⟩)) ∧
    ∀ input noColour, a.command = .tree input noColour →
      runWith interpret a coloured files = ⟨{ files := files, stderr := "", stdout := String.join (List.zipWith
        (treeText (coloured && !noColour) (pss.flatten.length > 1)) pss.flatten ts) }, none⟩ := by
  have hlength := htables.length_eq
  have hpairs : tablesOf interpret files files.read a.command.input = .ok (pss.flatten.zip ts) := by
    refine tablesOf_eq_ok_iff.2 ⟨pss, hinputs, ?_⟩
    exact forall₂_zip htables
  refine ⟨flatten_ne_nil hinputs (Arguments.inputs_readAll hargs), ?_, ?_⟩
  · rintro input out ranges hcommand
    obtain ⟨_, verbosity⟩ := a
    obtain rfl : _ = Command.schema input out ranges false := hcommand
    have hrun := run_schema interpret input out ranges coloured verbosity files
    rw [show tablesOf interpret files files.read input = _ from hpairs] at hrun
    refine ⟨_, showsSchemas_schemaOf hlength fun path t t' hmem hmem' => ?_, hrun, ?_⟩
    · exact Except.ok.inj
        ((List.forall₂_zip htables hmem').symm.trans (List.forall₂_zip htables hmem))
    · rintro rfl
      rw [hrun]
      dsimp only
      rw [World.run_emit_none]
      rfl
  · rintro input noColour hcommand
    obtain ⟨_, verbosity⟩ := a
    obtain rfl : _ = Command.tree input noColour := hcommand
    have hrun := run_tree interpret input noColour coloured verbosity files
    rw [show tablesOf interpret files files.read input = _ from hpairs] at hrun
    rw [hrun]
    dsimp only
    rw [List.map_zip_eq_zipWith, List.length_zip, ← hlength, Nat.min_self]
    rfl

/-- Two files of which the first is given twice, for schemas and for trees. -/
theorem run_shows_each_file_desk :
    (∃ v, ShowsSchemas {} ["a", "b", "a"] [aliasTable, interfaceTable, aliasTable] v ∧
      run ⟨.schema ⟨none, ["a", "b", "a"]⟩ none false false, 0⟩ false desk =
        ⟨{ stdout := v.pretty ++ "\n", stderr := "", files := desk }, none⟩) ∧
      run ⟨.tree ⟨none, ["a", "b", "a"]⟩ false, 0⟩ false desk =
        ⟨{ stdout := "== a\nA: declaration\n    A: string\n\n== b\nB: declaration\n\n" ++
            "== a\nA: declaration\n    A: string\n\n", stderr := "", files := desk }, none⟩ := by
  have hinputs : List.Forall₂ (Expands desk) ["a", "b", "a"] [["a"], ["b"], ["a"]] :=
    .cons (.literal rfl) (.cons (.literal rfl) (.cons (.literal rfl) .nil))
  have htables : List.Forall₂ (fun path t => tableOf Filter.evaluate desk.read none path = .ok t)
      ["a", "b", "a"] [aliasTable, interfaceTable, aliasTable] :=
    .cons tableOf_desk_a (.cons tableOf_desk_b (.cons tableOf_desk_a .nil))
  constructor
  · have hargs : Arguments.ofList ["schema", "-i", "a", "b", "a"] =
        .ok ⟨.schema ⟨none, ["a", "b", "a"]⟩ none false false, 0⟩ := rfl
    obtain ⟨-, hschema, -⟩ := run_shows_each_file hargs false hinputs htables
    obtain ⟨v, hv, -, hrun⟩ := hschema _ none false rfl
    exact ⟨v, hv, hrun rfl⟩
  · have hargs : Arguments.ofList ["tree", "-i", "a", "b", "a"] =
        .ok ⟨.tree ⟨none, ["a", "b", "a"]⟩ false, 0⟩ := rfl
    obtain ⟨-, -, htree⟩ := run_shows_each_file hargs false hinputs htables
    refine (htree _ false rfl).trans ?_
    have htext : String.join (List.zipWith (treeText (false && !false) (3 > 1)) ["a", "b", "a"]
        [aliasTable, interfaceTable, aliasTable]) =
        "== a\nA: declaration\n    A: string\n\n== b\nB: declaration\n\n" ++
          "== a\nA: declaration\n    A: string\n\n" := rfl
    exact congrArg
      (fun text => (⟨{ stdout := text, stderr := "", files := desk }, none⟩ : Outcome)) htext

end SchemaForest.CommandLine
