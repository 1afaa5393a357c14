import SchemaForest.Schema.Comments
import SchemaForest.Schema.Resolve

/-!
# Extraction

An extraction translates the declarations, resolves the references, places the comments and decodes
their tags.  All of this writes one registry, whose index is filled with the declarations and only
read after that.  The first error ends the extraction, and nothing is left of the registry then.
-/

namespace SchemaForest

namespace Registry

/-- Attaches comments to the nodes of the arena and decodes their tags. -/
def annotate (comments : List Comment) : EStateM ExtractError Registry Unit := do
  let r ← get
  let (forest, _) ← ofExcept (Comments.attach r.arena comments)
  set { r with arena := (Comments.decode forest).1 }

/-- The phases of an extraction. -/
def extract (declarations : List Declaration) (comments : List Comment) :
    EStateM ExtractError Registry Unit := do
  declareAll declarations
  resolve
  annotate comments

end Registry

/-- The table of resolved declarations with their comments. -/
def extract (declarations : List Declaration) (comments : List Comment) :
    Except ExtractError Table :=
  (Table.empty.write (Registry.extract declarations comments)).map Prod.fst

/-- The table that a source describes. -/
def SourceFile.extract (file : SourceFile) : Except ExtractError Table :=
  SchemaForest.extract file.declarations file.comments

end SchemaForest
