import SchemaForest.Proofs.Attachment

/-!
# Exports

The export of a declaration adds a layer around it, with a span of its own, and nothing is ever read
off that layer.

1. **A declaration is what it is translated to.**  Names, spans and references of a declaration come
   into an extraction through its translation only.  So declarations with the same translations
   (`Declaration.Alike`) can stand for each other, one by one, in any list (`extract_congr`).
2. **All layers are alike.**  An export is translated as the declaration inside, whatever the names
   that are known, and so are exports of exports (`Declaration.Wraps.alike`).

Errors are no exception: a translation has its own, and those about duplicate names, references and
comments are about the nodes that the translations gave.
-/

namespace SchemaForest

/-! ## Declarations that can stand for each other -/

/-- The second declaration is translated as the first one is, whatever the names that are known. -/
def Declaration.Alike (d d' : Declaration) : Prop :=
  ∀ lookup, translateDeclaration lookup d' = translateDeclaration lookup d

/-- A table takes in a declaration by its translation. -/
theorem Table.declare_congr {d d' : Declaration} (h : d.Alike d') (t : Table) :
    t.declare d' = t.declare d := by
  rw [declare_eq, declare_eq, h]

/-- Declarations that are alike, place by place, fill a table with the same nodes, or they are
    refused for the same reason. -/
theorem Table.declareAll_congr {ds ds' : List Declaration}
    (h : List.Forall₂ Declaration.Alike ds ds') (t : Table) : t.declareAll ds' = t.declareAll ds := by
  induction h generalizing t with
  | nil => rfl
  | cons hd _ ih =>
    rw [declareAll_cons, declareAll_cons, declare_congr hd]
    exact congrArg (t.declare _ >>= ·) (funext fun r => ih r.1)

/-- An extraction is decided by the translations of the declarations, and by the comments. -/
theorem extract_congr {ds ds' : List Declaration} (h : List.Forall₂ Declaration.Alike ds ds')
    (cs : List Comment) : extract ds' cs = extract ds cs := by
  have htable : Table.ofDeclarations ds' = Table.ofDeclarations ds := Table.declareAll_congr h _
  rw [extract_eq, extract_eq, htable]

/-! ## Layers around a declaration -/

/-- The second declaration is the first one in any number of exports, maybe none. -/
inductive Declaration.Wraps (d : Declaration) : Declaration → Prop
  | bare : Wraps d d
  | layer (s : Span) {e : Declaration} (h : Wraps d e) : Wraps d (.exported s e)

theorem Declaration.Wraps.alike {d d' : Declaration} (h : d.Wraps d') : d.Alike d' := by
  induction h with
  | bare => exact fun _ => rfl
  | layer s _ ih => exact fun lookup => (translateDeclaration_exported lookup s _).trans (ih lookup)

/-- Exports leave no trace: any of the declarations can be put into any number of exports, with
    whatever spans, and the extraction gives the same table, with the same handles, ranges, comments
    and annotations, or the same error. -/
theorem extract_wrapped {ds ds' : List Declaration} (h : List.Forall₂ Declaration.Wraps ds ds')
    (cs : List Comment) : extract ds' cs = extract ds cs :=
  extract_congr (h.imp fun _ _ => Declaration.Wraps.alike) cs

/-- The knot with its first declaration in two exports, whose spans say nothing about where it
    stands.  The comments find their nodes as before. -/
theorem extract_wrapped_knot :
    ∃ t, extract knot notes = .ok t ∧
      extract (.exported ⟨900, 0⟩ (.exported ⟨48, 48⟩ knot[0]) :: knot.tail) notes = .ok t := by
  obtain ⟨t, ht⟩ : ∃ t, extract knot notes = .ok t :=
    exists_extract_iff.2 ⟨_, _, rfl, rfl, by decide⟩
  have hwraps : List.Forall₂ Declaration.Wraps knot
      (.exported ⟨900, 0⟩ (.exported ⟨48, 48⟩ knot[0]) :: knot.tail) :=
    .cons (.layer _ (.layer _ .bare)) (.cons .bare .nil)
  exact ⟨t, ht, (extract_wrapped hwraps notes).trans ht⟩

end SchemaForest
