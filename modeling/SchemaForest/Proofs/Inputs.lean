import SchemaForest.CommandLine.Load
import SchemaForest.Proofs.Fallible

/-!
# Inputs

What the inputs of a run come to can be told from the inputs and the files alone, without following
the phases in which a run goes through them.

1. **Inputs** stand for paths (`Expands`), or there is something wrong with them (`BadInput`).
2. **Files** have a table (`tableOf`), or there is something wrong with them (`BadFile`): one case for
   each way from the bytes of a file to a table to break off.
3. **All together.**  The crux: a run reads all files before it extracts from the first, so which fault
   it reports depends on the phases; but whether there is any does not.  It has the tables of the files
   one by one, in the order of their paths (`tablesOf_eq_ok_iff`), unless one of the inputs or one of
   the files is bad (`exists_error_tablesOf_iff`).
-/

namespace SchemaForest.CommandLine

open Fallible

variable {interpret : Filter.Interpreter}

/-! ## What an input stands for -/

/-- The paths that an input stands for: itself, or the matches of the pattern that it is, of which
    there have to be some. -/
inductive Expands (fs : FileSystem) (input : String) : List String → Prop
  | literal (h : isPattern input = false) : Expands fs input [input]
  | pattern (h : isPattern input = true) {p : Glob.Pattern}
    (hp : Glob.Pattern.ofText input = .ok p) {paths : List String}
    (hpaths : p.paths fs = paths.map .ok) (hsome : paths ≠ []) : Expands fs input paths

/-- Why an input stands for no paths. -/
inductive BadInput (fs : FileSystem) (input : String) : Prop
  | invalid (h : isPattern input = true) {e : Glob.PatternError}
    (he : Glob.Pattern.ofText input = .error e)
  /-- A directory in which matches could be cannot be listed. -/
  | unlisted (h : isPattern input = true) {p : Glob.Pattern}
    (hp : Glob.Pattern.ofText input = .ok p) {fault : Glob.ListingError}
    (hfault : .error fault ∈ p.paths fs)
  | unmatched (h : isPattern input = true) {p : Glob.Pattern}
    (hp : Glob.Pattern.ofText input = .ok p) (hnone : p.paths fs = [])

section Inputs

variable {fs : FileSystem} {input : String}

theorem Expands.ne_nil {paths : List String} (h : Expands fs input paths) : paths ≠ [] := by
  cases h with
  | literal _ => exact List.cons_ne_nil _ _
  | pattern _ _ _ hsome => exact hsome

/-- What was found is a list of paths if there is no fault among it. -/
theorem mapM_id_eq_ok_iff {found : List (Glob.Found String)} {paths : List String} :
    found.mapM id = .ok paths ↔ found = paths.map .ok := by
  rw [mapM_eq_ok_iff, ← List.forall₂_eq_eq_eq, List.forall₂_map_right_iff]
  rfl

theorem pathsOf_eq_ok_iff {paths : List String} :
    pathsOf fs input = .ok paths ↔ Expands fs input paths := by
  rw [pathsOf]
  cases hpattern : isPattern input with
  | false =>
    rw [if_neg Bool.false_ne_true]
    constructor
    · intro h
      cases h
      exact .literal hpattern
    · intro h
      cases h with
      | literal _ => rfl
      | pattern h _ _ _ => exact absurd (hpattern.symm.trans h) Bool.false_ne_true
  | true =>
    rw [if_pos rfl]
    constructor
    · intro h
      cases hp : Glob.Pattern.ofText input with
      | error e => rw [hp] at h; cases h
      | ok p =>
        rw [hp] at h
        dsimp only at h
        cases hfound : (p.paths fs).mapM id with
        | error e => rw [hfound] at h; cases h
        | ok found =>
          rw [hfound] at h
          cases found with
          | nil => cases h
          | cons first rest =>
            cases h
            exact .pattern hpattern hp (mapM_id_eq_ok_iff.1 hfound) (List.cons_ne_nil _ _)
    · intro h
      cases h with
      | literal h => exact absurd (hpattern.symm.trans h) (Ne.symm Bool.false_ne_true)
      | pattern _ hp hpaths hsome =>
        rw [hp]
        dsimp only
        rw [mapM_id_eq_ok_iff.2 hpaths]
        dsimp only
        rw [if_neg]
        rwa [List.isEmpty_iff]

theorem Expands.unique {paths paths' : List String} (h : Expands fs input paths)
    (h' : Expands fs input paths') : paths = paths' :=
  Except.ok.inj ((pathsOf_eq_ok_iff.2 h).symm.trans (pathsOf_eq_ok_iff.2 h'))

theorem badInput_of_error {e : InputError} (he : pathsOf fs input = .error e) :
    BadInput fs input := by
  rw [pathsOf] at he
  cases hpattern : isPattern input with
  | false => rw [hpattern] at he; cases he
  | true =>
    cases hp : Glob.Pattern.ofText input with
    | error fault => exact .invalid hpattern hp
    | ok p =>
      rw [hpattern, hp] at he
      dsimp only at he
      cases hfound : (p.paths fs).mapM id with
      | error fault =>
        obtain ⟨found, hmem, rfl⟩ := exists_of_mapM_eq_error hfound
        exact .unlisted hpattern hp hmem
      | ok found =>
        rw [hfound] at he
        cases found with
        | nil => exact .unmatched hpattern hp (mapM_id_eq_ok_iff.1 hfound)
        | cons first rest => cases he

theorem Expands.not_badInput {paths : List String} (h : Expands fs input paths) :
    ¬ BadInput fs input := by
  intro hbad
  cases h with
  | literal hliteral =>
    have hpattern : isPattern input = true := by cases hbad <;> assumption
    exact Bool.false_ne_true (hliteral.symm.trans hpattern)
  | pattern _ hp hpaths hsome =>
    cases hbad with
    | invalid _ he => exact nomatch he.symm.trans hp
    | unlisted _ hp' hfault =>
      obtain rfl := Except.ok.inj (hp.symm.trans hp')
      rw [hpaths] at hfault
      obtain ⟨_, -, heq⟩ := List.mem_map.1 hfault
      cases heq
    | unmatched _ hp' hnone =>
      obtain rfl := Except.ok.inj (hp.symm.trans hp')
      exact hsome (List.map_eq_nil_iff.1 (hpaths.symm.trans hnone))

/-- An input that stands for no paths is bad, in one way or another. -/
theorem exists_error_pathsOf_iff :
    (∃ e, pathsOf fs input = .error e) ↔ BadInput fs input := by
  refine ⟨fun ⟨_, he⟩ => badInput_of_error he, fun hbad => exists_error_iff.2 fun paths hpaths => ?_⟩
  exact (pathsOf_eq_ok_iff.1 hpaths).not_badInput hbad

end Inputs

/-- Inputs are resolved one by one. -/
theorem resolve_eq (fs : FileSystem) (inputs : List String) :
    resolve fs inputs = (inputs.mapM (pathsOf fs)).map List.flatten := by
  induction inputs with
  | nil => rfl
  | cons input rest ih =>
    rw [resolve, ih, mapM_cons]
    cases pathsOf fs input with
    | error e => rfl
    | ok paths => cases rest.mapM (pathsOf fs) <;> rfl

theorem resolve_eq_ok_iff {fs : FileSystem} {inputs paths : List String} :
    resolve fs inputs = .ok paths ↔
      ∃ pss, List.Forall₂ (Expands fs) inputs pss ∧ pss.flatten = paths := by
  rw [resolve_eq, map_eq_ok_iff]
  refine exists_congr fun pss => and_congr_left fun _ => ?_
  rw [mapM_eq_ok_iff]
  simp only [pathsOf_eq_ok_iff]

/-! ## What is in a file -/

/-- The table of one file. -/
def tableOf (interpret : Filter.Interpreter) (read : Reader) (filter : Option String)
    (path : String) : Except RunError Table :=
  match load interpret read filter path with
  | .error e => .error e
  | .ok f =>
    match f.extract with
    | .error e => .error (.extraction path e)
    | .ok t => .ok t

/-- Why a text describes no source, by itself or in the part that a filter asks for. -/
inductive BadText (interpret : Filter.Interpreter) (text : String) : Option String → Prop
  | undecoded {e : DecodeError} (he : SourceFile.ofText text = .error e) : BadText interpret text none
  | notJson {filter : String} {e : SyntaxError} (he : Json.ofText text = .error e) :
    BadText interpret text (some filter)
  /-- The filter fails, or it gives no document or several. -/
  | notOne {filter : String} {v : Json} (hv : Json.ofText text = .ok v)
    (hone : ∀ w, interpret.run filter v ≠ .ok [w]) : BadText interpret text (some filter)
  | undecodedPart {filter : String} {v w : Json} (hv : Json.ofText text = .ok v)
    (hw : interpret.run filter v = .ok [w]) {e : DecodeError} (he : SourceFile.ofJson w = .error e) :
    BadText interpret text (some filter)

/-- Why a file has no table. -/
inductive BadFile (interpret : Filter.Interpreter) (read : Reader) (filter : Option String)
    (path : String) : Prop
  | unreadable {e : SystemError} (h : read path = .error e)
  | notText {bytes : ByteArray} (h : read path = .ok bytes) (htext : String.fromUTF8? bytes = none)
  | noSource {text : String} (h : readText read path = .ok text) (hbad : BadText interpret text filter)
  | refused {f : SourceFile} (h : load interpret read filter path = .ok f) {e : ExtractError}
    (he : f.extract = .error e)

theorem select_eq_ok_iff {filter : String} {v w : Json} :
    interpret.select filter v = .ok w ↔ interpret.run filter v = .ok [w] := by
  rw [Filter.Interpreter.select]
  constructor
  · intro h
    split at h
    · cases h
    · rename_i hrun
      rw [hrun, Except.ok.inj h]
    · cases h
  · intro h
    rw [h]

section Files

variable {read : Reader} {filter : Option String} {path : String}

/-- A file that was written as a text is read as this text. -/
theorem readText_of_toUTF8 {text : String} (h : read path = .ok text.toUTF8) :
    readText read path = .ok text := by
  have hvalid : String.fromUTF8? text.toUTF8 = some text := dif_pos text.isValidUTF8
  rw [readText, h]
  dsimp only
  rw [hvalid]

theorem badText_of_error {text : String} {e : RunError}
    (he : sourceOf interpret filter path text = .error e) : BadText interpret text filter := by
  rw [sourceOf.eq_def] at he
  cases filter with
  | none =>
    dsimp only at he
    cases hdecoded : SourceFile.ofText text with
    | error fault => exact .undecoded hdecoded
    | ok f => rw [hdecoded] at he; cases he
  | some filter =>
    dsimp only at he
    cases hv : Json.ofText text with
    | error fault => exact .notJson hv
    | ok v =>
      rw [hv] at he
      dsimp only at he
      cases hw : interpret.select filter v with
      | error fault =>
        exact .notOne hv fun w hrun => nomatch hw.symm.trans (select_eq_ok_iff.2 hrun)
      | ok w =>
        rw [hw] at he
        dsimp only at he
        cases hdecoded : SourceFile.ofJson w with
        | error fault => exact .undecodedPart hv (select_eq_ok_iff.1 hw) hdecoded
        | ok f => rw [hdecoded] at he; cases he

theorem exists_error_sourceOf_iff {text : String} :
    (∃ e, sourceOf interpret filter path text = .error e) ↔ BadText interpret text filter := by
  refine ⟨fun ⟨_, he⟩ => badText_of_error he, fun hbad => ?_⟩
  rw [sourceOf.eq_def]
  cases hbad with
  | undecoded he => exact ⟨_, by rw [he]⟩
  | notJson he => exact ⟨_, by rw [he]⟩
  | notOne hv hone =>
    rw [hv]
    dsimp only
    cases hw : interpret.select _ _ with
    | error fault => exact ⟨_, rfl⟩
    | ok w => exact absurd (select_eq_ok_iff.1 hw) (hone w)
  | undecodedPart hv hw he =>
    rw [hv]
    dsimp only
    rw [select_eq_ok_iff.2 hw]
    exact ⟨_, by dsimp only; rw [he]⟩

/-- A file that gives no source is bad before it comes to an extraction. -/
theorem badFile_of_load_error {e : RunError} (he : load interpret read filter path = .error e) :
    BadFile interpret read filter path := by
  rw [load] at he
  cases htext : readText read path with
  | ok text =>
    rw [htext] at he
    exact .noSource htext (badText_of_error he)
  | error cause =>
    rw [readText] at htext
    cases hread : read path with
    | error e => exact .unreadable hread
    | ok bytes =>
      rw [hread] at htext
      dsimp only at htext
      cases hutf8 : String.fromUTF8? bytes with
      | none => exact .notText hread hutf8
      | some text => rw [hutf8] at htext; cases htext

theorem load_direct_eq_ok_iff {text : String} (htext : readText read path = .ok text) {f : SourceFile} :
    load interpret read none path = .ok f ↔ SourceFile.ofText text = .ok f := by
  rw [load, htext]
  simp only [sourceOf]
  cases SourceFile.ofText text with
  | ok g => exact ⟨fun h => congrArg Except.ok (Except.ok.inj h),
      fun h => congrArg Except.ok (Except.ok.inj h)⟩
  | error e => exact iff_of_false (by rintro ⟨⟩) (by rintro ⟨⟩)

theorem load_filtered_eq_ok_iff {filter text : String} {v : Json}
    (htext : readText read path = .ok text) (hv : Json.ofText text = .ok v) {f : SourceFile} :
    load interpret read (some filter) path = .ok f ↔
      ∃ w, interpret.select filter v = .ok w ∧ SourceFile.ofJson w = .ok f := by
  rw [load, htext]
  simp only [sourceOf, hv]
  constructor
  · intro h
    cases hw : interpret.select filter v with
    | error e => rw [hw] at h; cases h
    | ok w =>
      rw [hw] at h
      dsimp only at h
      cases hf : SourceFile.ofJson w with
      | error e => rw [hf] at h; cases h
      | ok g =>
        rw [hf] at h
        obtain rfl := Except.ok.inj h
        exact ⟨w, rfl, hf⟩
  · rintro ⟨w, hw, hf⟩
    rw [hw]
    dsimp only
    rw [hf]

theorem tableOf_eq_ok_iff {t : Table} :
    tableOf interpret read filter path = .ok t ↔
      ∃ f, load interpret read filter path = .ok f ∧ f.extract = .ok t := by
  rw [tableOf]
  cases load interpret read filter path with
  | error e => exact ⟨fun h => (nomatch h), fun ⟨_, hf, _⟩ => (nomatch hf)⟩
  | ok f =>
    dsimp only
    cases ht : f.extract with
    | error e =>
      refine ⟨fun h => (nomatch h), fun ⟨f', hf, ht'⟩ => ?_⟩
      obtain rfl := Except.ok.inj hf
      exact nomatch ht.symm.trans ht'
    | ok t' =>
      refine ⟨fun h => ⟨f, rfl, Except.ok.inj h ▸ ht⟩, fun ⟨f', hf, ht'⟩ => ?_⟩
      obtain rfl := Except.ok.inj hf
      exact congrArg Except.ok (Except.ok.inj (ht.symm.trans ht'))

/-- A file has no table if it is bad, in one way or another. -/
theorem exists_error_tableOf_iff :
    (∃ e, tableOf interpret read filter path = .error e) ↔ BadFile interpret read filter path := by
  constructor
  · rintro ⟨e, he⟩
    rw [tableOf] at he
    cases hload : load interpret read filter path with
    | ok f =>
      rw [hload] at he
      dsimp only at he
      cases hextract : f.extract with
      | error fault => exact .refused hload hextract
      | ok t => rw [hextract] at he; cases he
    | error fault => exact badFile_of_load_error hload
  · intro hbad
    have hfails : ∀ {e}, load interpret read filter path = .error e →
        ∃ e, tableOf interpret read filter path = .error e := fun {e} he => ⟨e, by rw [tableOf, he]⟩
    cases hbad with
    | unreadable h => exact hfails (by rw [load, readText, h])
    | notText h htext => exact hfails (by rw [load, readText, h]; dsimp only; rw [htext])
    | noSource h hbad =>
      obtain ⟨e, he⟩ := exists_error_sourceOf_iff.2 hbad
      exact hfails (by rw [load, h]; exact he)
    | refused h he => exact ⟨_, by rw [tableOf, h]; dsimp only; rw [he]⟩

end Files

/-! ## All inputs together -/

theorem loadAll_eq_ok_iff {read : Reader} {filter : Option String} {paths : List String}
    {sources : List (String × SourceFile)} :
    loadAll interpret read filter paths = .ok sources ↔
      List.Forall₂ (fun path p => p.1 = path ∧ load interpret read filter path = .ok p.2) paths sources := by
  induction paths generalizing sources with
  | nil =>
    rw [List.forall₂_nil_left_iff]
    exact ⟨fun h => (Except.ok.inj h).symm, fun h => h ▸ rfl⟩
  | cons path rest ih =>
    rw [loadAll, bind_eq_ok_iff, List.forall₂_cons_left_iff]
    constructor
    · rintro ⟨f, hf, h⟩
      obtain ⟨fs, hfs, heq⟩ := bind_eq_ok_iff.1 h
      exact ⟨(path, f), fs, ⟨rfl, hf⟩, ih.1 hfs, (Except.ok.inj heq).symm⟩
    · rintro ⟨⟨_, f⟩, fs, ⟨rfl, hf⟩, hfs, rfl⟩
      exact ⟨f, hf, bind_eq_ok_iff.2 ⟨fs, ih.2 hfs, rfl⟩⟩

theorem extractAll_eq_ok_iff {sources : List (String × SourceFile)}
    {tables : List (String × Table)} :
    extractAll sources = .ok tables ↔
      List.Forall₂ (fun p q => q.1 = p.1 ∧ p.2.extract = .ok q.2) sources tables := by
  induction sources generalizing tables with
  | nil =>
    rw [List.forall₂_nil_left_iff]
    exact ⟨fun h => (Except.ok.inj h).symm, fun h => h ▸ rfl⟩
  | cons p rest ih =>
    obtain ⟨path, f⟩ := p
    rw [extractAll, List.forall₂_cons_left_iff]
    cases hf : f.extract with
    | error e =>
      refine ⟨fun h => (nomatch h), ?_⟩
      rintro ⟨_, _, ⟨-, ht⟩, -, -⟩
      exact nomatch ht
    | ok t =>
      rw [map_eq_ok_iff]
      constructor
      · rintro ⟨ts, hts, rfl⟩
        exact ⟨(path, t), ts, ⟨rfl, rfl⟩, ih.1 hts, rfl⟩
      · rintro ⟨⟨_, t'⟩, ts, ⟨rfl, ht⟩, hts, rfl⟩
        obtain rfl := Except.ok.inj ht
        exact ⟨ts, ih.2 hts, rfl⟩

/-- The tables of some files, each under its path, if all of them have one: whether first all are
    loaded and then all are extracted makes no difference. -/
theorem extractAll_loadAll_eq_ok_iff {read : Reader} {filter : Option String} {paths : List String}
    {tables : List (String × Table)} :
    (loadAll interpret read filter paths >>= extractAll) = .ok tables ↔
      List.Forall₂ (fun path p => p.1 = path ∧ tableOf interpret read filter path = .ok p.2) paths tables := by
  rw [bind_eq_ok_iff]
  constructor
  · rintro ⟨sources, hsources, htables⟩
    have hsources := loadAll_eq_ok_iff.1 hsources
    have htables := extractAll_eq_ok_iff.1 htables
    exact forall₂_trans hsources htables fun path p q hp hq =>
      ⟨hq.1.trans hp.1, tableOf_eq_ok_iff.2 ⟨p.2, hp.2, hq.2⟩⟩
  · intro htables
    simp only [loadAll_eq_ok_iff, extractAll_eq_ok_iff]
    refine forall₂_split htables fun path q hq => ?_
    obtain ⟨f, hf, ht⟩ := tableOf_eq_ok_iff.1 hq.2
    exact ⟨(path, f), ⟨rfl, hf⟩, hq.1, ht⟩

section Together

variable {fs : FileSystem} {read : Reader} {input : InputSettings}

/-- A run has the tables of all files that its inputs stand for, one by one and in their order. -/
theorem tablesOf_eq_ok_iff {tables : List (String × Table)} :
    tablesOf interpret fs read input = .ok tables ↔
      ∃ pss, List.Forall₂ (Expands fs) input.inputs pss ∧
        List.Forall₂ (fun path p => p.1 = path ∧ tableOf interpret read input.filter path = .ok p.2)
          pss.flatten tables := by
  rw [tablesOf]
  constructor
  · intro h
    cases hpaths : resolve fs input.inputs with
    | error e => rw [hpaths] at h; cases h
    | ok paths =>
      rw [hpaths] at h
      obtain ⟨pss, hpss, rfl⟩ := resolve_eq_ok_iff.1 hpaths
      exact ⟨pss, hpss, extractAll_loadAll_eq_ok_iff.1 h⟩
  · rintro ⟨pss, hpss, htables⟩
    rw [resolve_eq_ok_iff.2 ⟨pss, hpss, rfl⟩]
    exact extractAll_loadAll_eq_ok_iff.2 htables

/-- What is wrong with the inputs of a run: one stands for no paths, or one of the files that they
    stand for has no table. -/
inductive InputSettings.Bad (interpret : Filter.Interpreter) (fs : FileSystem) (read : Reader)
    (input : InputSettings) : Prop
  | input {i : String} (hi : i ∈ input.inputs) (h : BadInput fs i)
  | file {i : String} (hi : i ∈ input.inputs) {paths : List String} (hpaths : Expands fs i paths)
    {path : String} (hpath : path ∈ paths) (h : BadFile interpret read input.filter path)

/-- If nothing is bad, every input stands for paths, and every one of these has a table. -/
theorem exists_tables_of_not_bad (hgood : ¬ input.Bad interpret fs read) :
    ∃ tables, tablesOf interpret fs read input = .ok tables := by
  have hexpands : ∀ i ∈ input.inputs, ∃ paths, Expands fs i paths := by
    intro i hi
    cases hpaths : pathsOf fs i with
    | error fault => exact absurd (.input hi (exists_error_pathsOf_iff.1 ⟨fault, hpaths⟩)) hgood
    | ok paths => exact ⟨paths, pathsOf_eq_ok_iff.1 hpaths⟩
  obtain ⟨pss, hpss⟩ := exists_forall₂ hexpands
  have htables : ∀ path ∈ pss.flatten,
      ∃ p : String × Table, p.1 = path ∧ tableOf interpret read input.filter path = .ok p.2 := by
    intro path hpath
    obtain ⟨paths, hpaths, hpath⟩ := List.mem_flatten.1 hpath
    obtain ⟨i, hi, hexpands⟩ := exists_of_forall₂ hpss hpaths
    cases ht : tableOf interpret read input.filter path with
    | error fault =>
      exact absurd (.file hi hexpands hpath (exists_error_tableOf_iff.1 ⟨fault, ht⟩)) hgood
    | ok t => exact ⟨(path, t), rfl, rfl⟩
  obtain ⟨tables, htables⟩ := exists_forall₂ htables
  exact ⟨tables, tablesOf_eq_ok_iff.2 ⟨pss, hpss, htables⟩⟩

/-- Wherever the bad one is, there are no tables. -/
theorem InputSettings.Bad.tablesOf_ne_ok (hbad : input.Bad interpret fs read) (tables : List (String × Table)) :
    tablesOf interpret fs read input ≠ .ok tables := by
  intro htables
  obtain ⟨pss, hpss, htables⟩ := tablesOf_eq_ok_iff.1 htables
  cases hbad with
  | input hi h =>
    obtain ⟨paths, -, hpaths⟩ := exists_of_forall₂ hpss.flip hi
    exact hpaths.not_badInput h
  | file hi hexpands hpath h =>
    obtain ⟨paths, hmem, hpaths⟩ := exists_of_forall₂ hpss.flip hi
    rw [hexpands.unique hpaths] at hpath
    obtain ⟨p, -, -, ht⟩ := exists_of_forall₂ htables.flip (List.mem_flatten_of_mem hmem hpath)
    exact exists_error_iff.1 (exists_error_tableOf_iff.2 h) _ ht

theorem exists_error_tablesOf_iff :
    (∃ e, tablesOf interpret fs read input = .error e) ↔ input.Bad interpret fs read := by
  refine ⟨fun herror => ?_, fun hbad => exists_error_iff.2 hbad.tablesOf_ne_ok⟩
  by_contra hgood
  obtain ⟨tables, htables⟩ := exists_tables_of_not_bad hgood
  exact exists_error_iff.1 herror tables htables

end Together

end SchemaForest.CommandLine
