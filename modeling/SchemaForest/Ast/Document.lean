import SchemaForest.Ast.Node
import SchemaForest.Json.Reader

/-!
# Documents

A source is decoded from a text or from a finished value.  Both ways go through a draft, so they
differ in what a draft of a text can show: errors of syntax and repeated names.  Behind the first
value of a text nothing is read.
-/

namespace SchemaForest

/-- A source; comments may be left out. -/
def readSource (origin : Origin) (d : Draft) : Except DecodeError SourceFile :=
  (readPair ⟨"declarations", readList (readNode .declaration), none⟩
    ⟨"comments", readList (readComment origin), some []⟩ origin "SourceFile" d).map
    fun (declarations, comments) => ⟨declarations, comments⟩

namespace SourceFile

/-- The source that a text describes. -/
def ofText (text : String) : Except DecodeError SourceFile :=
  readSource .text (Draft.ofText text)

/-- The source that a value describes. -/
def ofJson (v : Json) : Except DecodeError SourceFile := readSource .value (Draft.ofJson v)

end SourceFile

/-- The node of a family that a value describes. -/
def Family.ofJson (f : Family) (v : Json) : Except DecodeError f.Carrier :=
  readNode f (Draft.ofJson v)

/-- The comments that a value describes. -/
def commentsOfJson (v : Json) : Except DecodeError (List Comment) :=
  readList (readComment .value) (Draft.ofJson v)

end SchemaForest
