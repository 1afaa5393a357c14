import SchemaForest.Proofs.Inputs
import SchemaForest.Proofs.Rereading

/-!
# With and without a filter

A file is loaded from its text, or through a filter from the value that the text parses to.  A filter
that hands on its input makes one difference (`CommandLine.direct_agrees_filtered`): what it gives
passes through its text, so every floating point number becomes what the text printed for it reads as.
Reading is not exact, and a number may come back as its neighbour (`CommandLine.filtered_off_direct`).
-/

namespace SchemaForest

open Fallible
open SchemaForest.Filter (Value)

namespace CommandLine

/-- The file holds one value without repeated names, the filter hands it on, and every floating point
    number in it is read back as it was from the text printed for it. -/
def Passes (interpret : Filter.Interpreter) (read : Reader) (filter path : String) : Prop :=
  ∃ text v, readText read path = .ok text ∧ Json.ofText text = .ok v ∧ Json.Unrepeated text ∧
    Filter.HandsOn interpret filter v ∧ v.rereadFloats = .ok v

section Passes

variable {interpret : Filter.Interpreter} {read : Reader} {filter : String}

theorem load_agree {path : String} (h : Passes interpret read filter path) :
    Agree (load interpret read none path) (load interpret read (some filter) path) := by
  obtain ⟨text, v, htext, hv, hunrepeated, hfilter, hreread⟩ := h
  intro f
  rw [load_direct_eq_ok_iff htext, load_filtered_eq_ok_iff htext hv,
    SourceFile.ofText_agree hv hunrepeated f]
  simp only [hfilter.select_eq_ok_iff hv hunrepeated]
  constructor
  · exact fun hf => ⟨v, hreread, hf⟩
  · rintro ⟨w, hw, hf⟩
    rwa [Except.ok.inj (hreread.symm.trans hw)]

theorem loadAll_agree : ∀ {paths : List String}, (∀ path ∈ paths, Passes interpret read filter path) →
    Agree (loadAll interpret read none paths) (loadAll interpret read (some filter) paths)
  | [], _ => .refl _
  | path :: paths, h => by
    have hfirst := load_agree (h path List.mem_cons_self)
    have hrest := loadAll_agree fun p hp => h p (List.mem_cons_of_mem path hp)
    exact hfirst.bind fun _ => hrest.bind fun _ => .refl _

end Passes

/-- On a text that is one value without repeated names, reading the text and reading the value give
    the same source or both fail.  Through a filter that hands on the value, the source is that of the
    value with every floating point number read again from what is printed for it.  So such a filter
    makes no difference to the tables of a run whose numbers are read back as they were. -/
theorem direct_agrees_filtered (interpret : Filter.Interpreter) :
    (∀ text v, Json.ofText text = .ok v → Json.Unrepeated text →
      (SourceFile.ofText text).toOption = (SourceFile.ofJson v).toOption) ∧
    (∀ (read : Reader) (filter path text : String) (v : Json), readText read path = .ok text →
      Json.ofText text = .ok v → Json.Unrepeated text → Filter.HandsOn interpret filter v →
      ∀ f, load interpret read (some filter) path = .ok f ↔
        ∃ w, v.rereadFloats = .ok w ∧ SourceFile.ofJson w = .ok f) ∧
    ∀ (fs : FileSystem) (read : Reader) (filter : String) (inputs : List String),
      (∀ paths, resolve fs inputs = .ok paths → ∀ path ∈ paths, Passes interpret read filter path) →
      (tablesOf interpret fs read ⟨none, inputs⟩).toOption =
        (tablesOf interpret fs read ⟨some filter, inputs⟩).toOption := by
  refine ⟨?_, ?_, ?_⟩
  · intro text v h hunrepeated
    exact (SourceFile.ofText_agree h hunrepeated).toOption_eq
  · intro read filter path text v htext hv hunrepeated hfilter f
    rw [load_filtered_eq_ok_iff htext hv]
    simp only [hfilter.select_eq_ok_iff hv hunrepeated]
  · intro fs read filter inputs h
    apply Agree.toOption_eq
    rw [tablesOf, tablesOf]
    cases hpaths : resolve fs inputs with
    | error e => exact .refl _
    | ok paths => exact (loadAll_agree (h paths hpaths)).bind fun _ => .refl _

/-! ## A document with a number -/

section Sizes

/-- The value of a document that declares a number or a string. -/
def sizes (x : Double) : Json :=
  .object [("declarations", .array [.object [("type", .string "TsTypeAliasDeclaration"),
    ("span", .array [.integer 0, .integer 23]), ("id", .string "A"), ("typeAnnotation", .object [
      ("type", .string "TsUnionType"), ("span", .array [.integer 9, .integer 23]), ("types", .array [
        .object [("type", .string "TsLiteralType"), ("span", .array [.integer 9, .integer 14]),
          ("literal", .object [("type", .string "NumericLiteral"), ("value", .float x)])],
        .object [("type", .string "TsKeywordType"), ("span", .array [.integer 17, .integer 23]),
          ("kind", .string "string")]])])]])]

/-- Its text, for a number written like this. -/
def sizesText (number : String) : String :=
  "\x7b\"declarations\":[\x7b\"type\":\"TsTypeAliasDeclaration\",\"span\":[0,23],\"id\":\"A\"," ++
    "\"typeAnnotation\":\x7b\"type\":\"TsUnionType\",\"span\":[9,23],\"types\":[" ++
    "\x7b\"type\":\"TsLiteralType\",\"span\":[9,14]," ++
    "\"literal\":\x7b\"type\":\"NumericLiteral\",\"value\":" ++ number ++ "\x7d\x7d," ++
    "\x7b\"type\":\"TsKeywordType\",\"span\":[17,23],\"kind\":\"string\"\x7d]\x7d\x7d]\x7d"

/-- The source that it describes, and the table of this source. -/
def sizesFile (x : Double) : SourceFile :=
  ⟨[.alias ⟨0, 23⟩ "A" (.union ⟨9, 23⟩ [.literal ⟨9, 14⟩ (.number x),
    .keyword ⟨17, 23⟩ .string])], []⟩

def sizesTable (x : Double) : Table :=
  ⟨[Node.of "A" .declaration ⟨0, 23⟩ [Node.of "A" .union ⟨0, 23⟩ [
    Node.of "A" (.numberLiteral x) ⟨9, 14⟩ [], Node.of "A" .string ⟨0, 23⟩ []]]]⟩

theorem ofJson_sizes (x : Double) : SourceFile.ofJson (sizes x) = .ok (sizesFile x) := rfl

theorem extract_sizes (x : Double) : (sizesFile x).extract = .ok (sizesTable x) := rfl

theorem fits_sizes (x : Double) : Json.Fits Json.depthBound (sizes x) := by
  simp [sizes, Json.Fits, Json.FitFields, Json.FitItems, Json.depthBound, Json.significandBound]

theorem distinct_sizes (x : Double) : (sizes x).Distinct := by
  simp [sizes, Json.Distinct, Json.FieldsDistinct, Json.AllDistinct, Entries.keys]

theorem rereadFloats_sizes {x y : Double} (h : (Json.float x).rereadFloats = .ok (.float y)) :
    (sizes x).rereadFloats = .ok (sizes y) := by
  simp only [sizes, Json.rereadFloats, Json.rereadFloatsItems, Json.rereadFloatsFields] at h ⊢
  rw [h]
  rfl

/-- A text for some `x` is one for the number that it reads as. -/
theorem ofText_sizesText {number : String} {x y : Double}
    (htext : (Value.ofJson (sizes x)).text = sizesText number)
    (h : (Json.float x).rereadFloats = .ok (.float y)) :
    Json.ofText (sizesText number) = .ok (sizes y) ∧ Json.Unrepeated (sizesText number) := by
  rw [← htext, Json.ofText_text (fits_sizes x) (distinct_sizes x)]
  exact ⟨rereadFloats_sizes h, Json.unrepeated_text (fits_sizes x) (distinct_sizes x)⟩

/-- The files of a run on such a text. -/
def sizesDesk (number : String) : FileSystem := .ofFiles [("a", .file (sizesText number).toUTF8)]

theorem readText_sizesDesk (number : String) :
    readText (sizesDesk number).read "a" = .ok (sizesText number) := readText_of_toUTF8 rfl

/-- The table of the only file is all that a run has. -/
theorem tablesOf_sizesDesk {number : String} {filter : Option String} {t : Table}
    (h : tableOf Filter.evaluate (sizesDesk number).read filter "a" = .ok t) :
    tablesOf Filter.evaluate (sizesDesk number) (sizesDesk number).read ⟨filter, ["a"]⟩ =
      .ok [("a", t)] :=
  tablesOf_eq_ok_iff.2 ⟨[["a"]], .cons (.literal rfl) .nil, .cons ⟨rfl, h⟩ .nil⟩

theorem tableOf_sizesDesk {number : String} {x : Double}
    (hv : Json.ofText (sizesText number) = .ok (sizes x))
    (hunrepeated : Json.Unrepeated (sizesText number)) :
    tableOf Filter.evaluate (sizesDesk number).read none "a" = .ok (sizesTable x) :=
  tableOf_eq_ok_iff.2 ⟨_, (load_direct_eq_ok_iff (readText_sizesDesk number)).2
    ((SourceFile.ofText_agree hv hunrepeated _).2 (ofJson_sizes x)), extract_sizes x⟩

/-- One and a half, which is read back as it was. -/
def oneAndHalf : Double := .signed false ⟨0x3ff8000000000000, by decide⟩

/-- Two numbers side by side, each of which is what the text printed for the other reads as. -/
def below : Double := .signed false ⟨0x46b8a6e32246c99c, by decide⟩

def above : Double := .signed false ⟨0x46b8a6e32246c99d, by decide⟩

theorem floatText_numbers :
    Json.floatText oneAndHalf = ['1', '.', '5'] ∧
      Json.floatText below = ['5', 'e', '+', '3', '2'] ∧
      Json.floatText above = "5.0000000000000004e+32".toList := by
  decide +kernel

theorem unsigned_numbers :
    Json.bare (Json.unsigned ['1', '.', '5']) = .ok (.inr oneAndHalf, []) ∧
      Json.bare (Json.unsigned ['5', 'e', '+', '3', '2']) = .ok (.inr above, []) ∧
      Json.bare (Json.unsigned "5.0000000000000004e+32".toList) = .ok (.inr below, []) := by
  decide +kernel

theorem rereadFloats_oneAndHalf : (Json.float oneAndHalf).rereadFloats = .ok (.float oneAndHalf) :=
  Json.rereadFloats_of_isDigit floatText_numbers.1 rfl unsigned_numbers.1

theorem rereadFloats_below : (Json.float below).rereadFloats = .ok (.float above) :=
  Json.rereadFloats_of_isDigit floatText_numbers.2.1 rfl unsigned_numbers.2.1

theorem rereadFloats_above : (Json.float above).rereadFloats = .ok (.float below) :=
  Json.rereadFloats_of_isDigit floatText_numbers.2.2 rfl unsigned_numbers.2.2

theorem text_sizes :
    (Value.ofJson (sizes oneAndHalf)).text = sizesText "1.5" ∧
      (Value.ofJson (sizes below)).text = sizesText "5e+32" := by
  obtain ⟨hexact, hbelow, -⟩ := floatText_numbers
  simp only [Value.text, sizes, Value.ofJson, Value.ofItems, Value.ofFields, Value.chars,
    Value.itemChars, Value.fieldChars, String.toList_ofList, hexact, hbelow]
  decide +kernel

/-- A run on a number and strings, of which the number is read back as it was. -/
theorem direct_agrees_filtered_sizes :
    (SourceFile.ofText (sizesText "1.5")).toOption = some (sizesFile oneAndHalf) ∧
      load Filter.evaluate (sizesDesk "1.5").read (some ".") "a" = .ok (sizesFile oneAndHalf) ∧
      (tablesOf Filter.evaluate (sizesDesk "1.5") (sizesDesk "1.5").read ⟨some ".", ["a"]⟩).toOption =
        some [("a", sizesTable oneAndHalf)] := by
  obtain ⟨hv, hunrepeated⟩ := ofText_sizesText text_sizes.1 rereadFloats_oneAndHalf
  have hreread : (sizes oneAndHalf).rereadFloats = .ok (sizes oneAndHalf) := rereadFloats_sizes rereadFloats_oneAndHalf
  have hfilter := Filter.handsOn_identity (sizes oneAndHalf)
  have htext := readText_sizesDesk "1.5"
  obtain ⟨hsource, hload, htables⟩ := direct_agrees_filtered Filter.evaluate
  refine ⟨?_, ?_, ?_⟩
  · rw [hsource _ _ hv hunrepeated, ofJson_sizes]
    rfl
  · exact (hload _ _ _ _ _ htext hv hunrepeated hfilter _).2 ⟨_, hreread, ofJson_sizes oneAndHalf⟩
  · have hpasses : ∀ paths, resolve (sizesDesk "1.5") ["a"] = .ok paths →
        ∀ path ∈ paths, Passes Filter.evaluate (sizesDesk "1.5").read "." path := by
      intro paths hpaths path hpath
      obtain rfl : ["a"] = paths := Except.ok.inj hpaths
      obtain rfl := List.mem_singleton.1 hpath
      exact ⟨_, _, htext, hv, hunrepeated, hfilter, hreread⟩
    rw [← htables _ _ _ _ hpasses, tablesOf_sizesDesk (tableOf_sizesDesk hv hunrepeated)]
    rfl

/-- The number in the text is the one above, and the filter gives the one below. -/
theorem filtered_off_direct :
    Json.ofText (sizesText "5e+32") = .ok (sizes above) ∧ Json.Unrepeated (sizesText "5e+32") ∧
      Filter.HandsOn Filter.evaluate "." (sizes above) ∧
      (tablesOf Filter.evaluate (sizesDesk "5e+32") (sizesDesk "5e+32").read ⟨none, ["a"]⟩).toOption ≠
        (tablesOf Filter.evaluate (sizesDesk "5e+32") (sizesDesk "5e+32").read
          ⟨some ".", ["a"]⟩).toOption := by
  obtain ⟨hv, hunrepeated⟩ := ofText_sizesText text_sizes.2 rereadFloats_below
  have hfilter := Filter.handsOn_identity (sizes above)
  have hfiltered : load Filter.evaluate (sizesDesk "5e+32").read (some ".") "a" =
      .ok (sizesFile below) :=
    (load_filtered_eq_ok_iff (readText_sizesDesk _) hv).2 ⟨_, (hfilter.select_eq_ok_iff hv hunrepeated).2
      (rereadFloats_sizes rereadFloats_above), ofJson_sizes below⟩
  refine ⟨hv, hunrepeated, hfilter, ?_⟩
  rw [tablesOf_sizesDesk (tableOf_sizesDesk hv hunrepeated),
    tablesOf_sizesDesk (tableOf_eq_ok_iff.2 ⟨_, hfiltered, extract_sizes below⟩)]
  intro h
  simp [Except.toOption, sizesTable, Node.of, above, below] at h

end Sizes

end CommandLine

end SchemaForest
