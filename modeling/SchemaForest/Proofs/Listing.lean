import SchemaForest.Proofs.Attachment
import SchemaForest.Proofs.View
import SchemaForest.Schema.TreeView

/-!
# What the views list

A finished table can be walked in three ways: node by node, through the objects of its JSON view, and
through the lines of its tree view.  All three come by the same nodes in the same order and at the same
depths (`views_agree`).

1. **The listing.**  A `Row` is what each walk shows of a node: its depth, its name, the name of its
   kind, and the name of the declaration that it refers to.
2. **The JSON view** goes on into the declaration behind a reference.  Without that one inlined child
   (`Json.withoutInlined`) the objects list the rows of the forest (`Table.rows_nodeView`).  What this
   rests on is that a reference is a leaf: the JSON view never shows what hangs below one.
3. **The tree view** prints what hangs below a reference and never follows it.  Its lines are those of
   annotations, those of nodes, and the empty one that ends a declaration (`Line`).
-/

namespace SchemaForest

variable {α : Type}

/-! ## Nodes with their depths -/

mutual
/-- The nodes of a tree in flat order, each with its depth. -/
def Tree.levels (depth : Nat) : Tree α → List (Nat × Tree α)
  | .node a cs => (depth, .node a cs) :: Forest.levels (depth + 1) cs

/-- The nodes of a forest in flat order, each with its depth. -/
def Forest.levels (depth : Nat) : Forest α → List (Nat × Tree α)
  | [] => []
  | t :: rest => t.levels depth ++ Forest.levels depth rest
end

mutual
theorem Tree.map_snd_levels (depth : Nat) :
    ∀ t : Tree α, (t.levels depth).map Prod.snd = t.flatten
  | .node a cs => by
    rw [Tree.levels, Tree.flatten, List.map_cons, Forest.map_snd_levels (depth + 1) cs]

/-- Without the depths these are the nodes in flat order. -/
theorem Forest.map_snd_levels (depth : Nat) :
    ∀ forest : Forest α, (Forest.levels depth forest).map Prod.snd = Forest.flatten forest
  | [] => rfl
  | t :: rest => by
    rw [Forest.levels, List.map_append, Tree.map_snd_levels depth t,
      Forest.map_snd_levels depth rest, Forest.flatten_cons]
end

theorem Forest.levels_eq_flatMap (depth : Nat) (forest : Forest α) :
    Forest.levels depth forest = forest.flatMap (Tree.levels depth) := by
  induction forest with
  | nil => rfl
  | cons t rest ih => rw [Forest.levels, List.flatMap_cons, ih]

/-! ## Rows -/

/-- What a listing shows of a node. -/
structure Row where
  depth : Nat
  name : String
  /-- The name of the kind of the node. -/
  kind : String
  /-- The name of the declaration that the node refers to. -/
  target : Option String
deriving DecidableEq

namespace Table

/-- The row of a node at a depth. -/
def row (t : Table) (p : Nat × Node) : Row :=
  ⟨p.1, p.2.label.name, p.2.label.kind.name, (t.referenced? p.2).map fun d => d.label.name⟩

/-- The rows of all nodes in flat order. -/
def rows (t : Table) : List Row := (Forest.levels 0 t.declarations).map t.row

end Table

/-! ## Rows of the JSON view -/

namespace Json

/-- Whether a value is the object of a reference. -/
def showsReference (v : Json) : Bool := decide (v.textAt? "kind" = some "reference")

mutual
/-- The value without what is inlined in the objects of references.  Apart from the lists of children
    nothing is looked at. -/
def withoutInlined : Json → Json
  | .object fields => .object (childrenWithoutInlined (Json.object fields).showsReference fields)
  | .array items => .array (eachWithoutInlined items)
  | v => v

def eachWithoutInlined : List Json → List Json
  | [] => []
  | v :: rest => withoutInlined v :: eachWithoutInlined rest

/-- The fields of an object, of which `inlined` says whether its children are inlined ones. -/
def childrenWithoutInlined (inlined : Bool) : List (String × Json) → List (String × Json)
  | [] => []
  | (key, v) :: rest =>
    (key, if key = "children" then if inlined then .array [] else withoutInlined v else v) ::
      childrenWithoutInlined inlined rest
end

/-- The row of an object at a depth. -/
def row (depth : Nat) (v : Json) : Row :=
  ⟨depth, (v.textAt? "name").getD "", (v.textAt? "kind").getD "", v.textAt? "referenceName"⟩

mutual
/-- The row of an object and behind it the rows of its children, one deeper. -/
def rows (depth : Nat) : Json → List Row
  | .object fields => (Json.object fields).row depth :: rowsOfChildren depth fields
  | .array items => rowsOfEach depth items
  | _ => []

def rowsOfEach (depth : Nat) : List Json → List Row
  | [] => []
  | v :: rest => rows depth v ++ rowsOfEach depth rest

/-- The rows of what stands in the list of children, if there is one among the fields. -/
def rowsOfChildren (depth : Nat) : List (String × Json) → List Row
  | [] => []
  | (key, v) :: rest =>
    (if key = "children" then rows (depth + 1) v else []) ++ rowsOfChildren depth rest
end

/-- The rows of a view: those of the objects in it, each without what is inlined there. -/
def listing (view : Json) : List Row := view.fields.flatMap fun p => p.2.withoutInlined.rows 0

theorem eachWithoutInlined_eq_map (items : List Json) :
    eachWithoutInlined items = items.map withoutInlined := by
  induction items with
  | nil => rfl
  | cons v rest ih => rw [eachWithoutInlined, ih, List.map_cons]

theorem rowsOfEach_eq_flatMap (depth : Nat) (items : List Json) :
    rowsOfEach depth items = items.flatMap (rows depth) := by
  induction items with
  | nil => rfl
  | cons v rest ih => rw [rowsOfEach, ih, List.flatMap_cons]

theorem childrenWithoutInlined_append (inlined : Bool) (xs ys : List (String × Json)) :
    childrenWithoutInlined inlined (xs ++ ys) =
      childrenWithoutInlined inlined xs ++ childrenWithoutInlined inlined ys := by
  induction xs with
  | nil => rfl
  | cons p rest ih =>
    obtain ⟨key, v⟩ := p
    rw [List.cons_append, childrenWithoutInlined, childrenWithoutInlined, ih, List.cons_append]

theorem rowsOfChildren_append (depth : Nat) (xs ys : List (String × Json)) :
    rowsOfChildren depth (xs ++ ys) = rowsOfChildren depth xs ++ rowsOfChildren depth ys := by
  induction xs with
  | nil => rfl
  | cons p rest ih =>
    obtain ⟨key, v⟩ := p
    rw [List.cons_append, rowsOfChildren, rowsOfChildren, ih, List.append_assoc]

/-- Fields other than the children stay as they are, and no rows come from them. -/
theorem rows_of_no_children {fields : List (String × Json)}
    (h : ∀ p ∈ fields, p.1 ≠ "children") (depth : Nat) (inlined : Bool) :
    childrenWithoutInlined inlined fields = fields ∧ rowsOfChildren depth fields = [] := by
  induction fields with
  | nil => exact ⟨rfl, rfl⟩
  | cons p rest ih =>
    obtain ⟨key, v⟩ := p
    obtain ⟨hfields, hrows⟩ := ih fun q hq => h q (List.mem_cons_of_mem _ hq)
    have hkey : key ≠ "children" := h (key, v) List.mem_cons_self
    rw [childrenWithoutInlined, rowsOfChildren, if_neg hkey, if_neg hkey, hfields, hrows]
    exact ⟨rfl, rfl⟩

end Json

namespace Label

variable (options : ViewOptions) (a : Label) (target : Option String) (cs : List Json)

/-- A field that need not be there is not called by the name of the children. -/
theorem ne_children_of_mem_optional {β : Type} {x : Option β} {f : β → Json} {name : String}
    (hname : name ≠ "children") {p : String × Json}
    (hp : p ∈ x.toList.map fun v => (name, f v)) : p.1 ≠ "children" := by
  obtain ⟨v, -, rfl⟩ := List.mem_map.1 hp
  exact hname

/-- Only one field of an object is called by the name of the children. -/
theorem ne_children_of_mem_head {p : String × Json} (h : p ∈ a.head target) : p.1 ≠ "children" := by
  rcases List.mem_append.1 h with h | h
  · have hkey : p.1 = "name" ∨ p.1 = "kind" := by
      rcases List.mem_cons.1 h with rfl | h
      · exact Or.inl rfl
      · obtain rfl := List.mem_singleton.1 h
        exact Or.inr rfl
    intro heq
    rcases hkey with hkey | hkey <;> exact absurd (hkey.symm.trans heq) (by decide)
  · exact ne_children_of_mem_optional (by decide) h

theorem ne_children_of_mem_tail {p : String × Json} (h : p ∈ a.tail options) :
    p.1 ≠ "children" := by
  rw [tail_eq] at h
  simp only [List.mem_append] at h
  rcases h with (((h | h) | h) | h) | h <;> exact ne_children_of_mem_optional (by decide) h

/-- Without what is inlined an object is the same around other children: none if it is that of a
    reference. -/
theorem withoutInlined_object :
    (a.object options target cs).withoutInlined =
      a.object options target
        (if a.kind.name = "reference" then [] else cs.map Json.withoutInlined) := by
  have hinlined : (a.object options target cs).showsReference =
      decide (a.kind.name = "reference") := by
    rw [Json.showsReference, kind_object]
    exact decide_eq_decide.2 Option.some_inj
  have hhead := (Json.rows_of_no_children (fun p hp => a.ne_children_of_mem_head target hp) 0
    (decide (a.kind.name = "reference"))).1
  have htail := (Json.rows_of_no_children (fun p hp => a.ne_children_of_mem_tail options hp) 0
    (decide (a.kind.name = "reference"))).1
  rw [object] at hinlined ⊢
  rw [Json.withoutInlined, hinlined, Json.childrenWithoutInlined_append,
    Json.childrenWithoutInlined_append, hhead, htail, object]
  by_cases hkind : a.kind.name = "reference"
  · simp [Json.childrenWithoutInlined, hkind]
  · simp [Json.childrenWithoutInlined, hkind, Json.withoutInlined, Json.eachWithoutInlined_eq_map]

/-- The rows of an object: its own and those of its children. -/
theorem rows_object (depth : Nat) :
    (a.object options target cs).rows depth =
      (a.object options target cs).row depth :: cs.flatMap (Json.rows (depth + 1)) := by
  have hhead := (Json.rows_of_no_children (fun p hp => a.ne_children_of_mem_head target hp) depth
    true).2
  have htail := (Json.rows_of_no_children (fun p hp => a.ne_children_of_mem_tail options hp) depth
    true).2
  conv_lhs => rw [object, Json.rows]
  rw [Json.rowsOfChildren_append, Json.rowsOfChildren_append, hhead, htail]
  simp [Json.rowsOfChildren, Json.rows, Json.rowsOfEach_eq_flatMap, object]

end Label

namespace Table

/-- The view of a node, without what is inlined, lists the node and all that hangs below it. -/
theorem rows_nodeView {t : Table} (options : ViewOptions) {n : Node}
    (hleaves : ∀ m ∈ n.flatten, m.label.kind.IsLink → m.children = [])
    (hlinked : ∀ m ∈ n.flatten, ∀ h, m.label.kind = .reference h → ∃ d, t.get? h = some d)
    (hresolved : ∀ m ∈ n.flatten, ∀ name, m.label.kind ≠ .unresolved name)
    (closed : List Handle) (depth : Nat) :
    (t.nodeView options closed n).withoutInlined.rows depth = (n.levels depth).map t.row := by
  induction n using Tree.induction generalizing depth with
  | node a cs ih =>
    have hself : Tree.node a cs ∈ (Tree.node a cs).flatten := Tree.mem_flatten_self _
    by_cases hkind : ∃ h, a.kind = .reference h
    · -- A reference is listed with the name of its declaration, and nothing hangs below it.
      obtain ⟨h, hkind⟩ := hkind
      obtain ⟨d, hd⟩ := hlinked _ hself h hkind
      have hnil : cs = [] := by
        have hlink : (Tree.node a cs).label.kind.IsLink := by
          rw [Tree.label_node, hkind]
          trivial
        exact hleaves _ hself hlink
      have hname : a.kind.name = "reference" := Kind.name_eq_reference_iff.2 ⟨h, hkind⟩
      have htarget : t.referenced? (.node a cs) = some d := by
        rw [referenced?, Tree.label_node, hkind]
        exact hd
      rw [nodeView_reference (n := .node a cs) hkind hd, Label.withoutInlined_object,
        Label.rows_object, Json.row, Tree.levels, hnil, Tree.label_node, if_pos hname]
      simp [row, Forest.levels, ← hnil, htarget]
    · -- Any other node shows its own children, and has no target.
      have hkind : ∀ h, a.kind ≠ .reference h := fun h heq => hkind ⟨h, heq⟩
      have hname : a.kind.name ≠ "reference" := by
        intro heq
        obtain ⟨h, heq⟩ := Kind.name_eq_reference_iff.1 heq
        exact hkind h heq
      have hpending : a.kind.unresolved? = none := by
        cases hunresolved : a.kind with
        | unresolved name => exact absurd hunresolved (hresolved _ hself name)
        | _ => rfl
      have htarget : t.referenced? (.node a cs) = none := by
        rw [referenced?, Tree.label_node]
        cases hreference : a.kind with
        | reference h => exact absurd hreference (hkind h)
        | _ => rfl
      have hbelow : ∀ c ∈ cs, (t.nodeView options closed c).withoutInlined.rows (depth + 1) =
          (c.levels (depth + 1)).map t.row := by
        intro c hc
        have hmem : ∀ m ∈ c.flatten, m ∈ (Tree.node a cs).flatten :=
          fun m hm => Tree.mem_flatten_of_child (t := .node a cs) hc hm
        exact ih c hc (fun m hm => hleaves m (hmem m hm)) (fun m hm => hlinked m (hmem m hm))
          (fun m hm => hresolved m (hmem m hm)) (depth + 1)
      have hrow : ∀ shown, (a.object options none shown).row depth = t.row (depth, .node a cs) := by
        intro shown
        rw [Json.row, Label.name_object, Label.kind_object, Label.unresolved_object, hpending, row,
          htarget]
        rfl
      rw [nodeView_inner (n := .node a cs) hkind, Tree.label_node, Tree.children_node,
        Label.withoutInlined_object, Label.rows_object, if_neg hname, hrow, Tree.levels,
        List.map_cons, Forest.levels_eq_flatMap, List.map_flatMap, List.map_map, List.flatMap_map]
      exact congrArg (t.row (depth, .node a cs) :: ·) (List.flatMap_congr hbelow)

/-! ## Lines of the tree view -/

end Table

/-- A line of the tree view. -/
inductive Line where
  | tagged (depth : Nat) (tag value : String)
  | node (row : Row)
  /-- The line that ends a declaration. -/
  | blank

namespace Line

/-- The text of a line: four blanks for each level, and what the line is about. -/
def text : Line → String
  | tagged depth tag value =>
    String.ofList (List.replicate (4 * depth) ' ') ++ tag ++ ": " ++ value
  | node r =>
    String.ofList (List.replicate (4 * r.depth) ' ') ++ r.name ++ ": " ++ r.kind ++
      match r.target with
      | some name => " -> " ++ name
      | none => ""
  | blank => ""

/-- The row of a line that stands for a node. -/
def row? : Line → Option Row
  | node r => some r
  | _ => none

end Line

namespace Table

/-- The lines of a node at a depth: one for each of its annotations in order, and its own. -/
def linesOf (t : Table) (p : Nat × Node) : List Line :=
  ((p.2.label.annotations.getD []).map fun a => .tagged p.1 a.1 a.2.text) ++ [.node (t.row p)]

/-- The lines of a table: those of the nodes of each declaration, and an empty one behind. -/
def lines (t : Table) : List Line :=
  t.declarations.flatMap fun d => (d.levels 0).flatMap t.linesOf ++ [.blank]

/-- Of the lines those of nodes show the rows of the table. -/
theorem filterMap_row?_lines (t : Table) : t.lines.filterMap Line.row? = t.rows := by
  have hnode : ∀ p, (t.linesOf p).filterMap Line.row? = [t.row p] := by
    intro p
    have htags : ((p.2.label.annotations.getD []).map fun a =>
        Line.tagged p.1 a.1 a.2.text).filterMap Line.row? = [] := by
      rw [List.filterMap_map]
      exact List.filterMap_eq_nil_iff.2 fun _ _ => rfl
    rw [linesOf, List.filterMap_append, htags]
    rfl
  have hdeclaration : ∀ d : Node,
      ((d.levels 0).flatMap t.linesOf ++ [Line.blank]).filterMap Line.row? =
        (d.levels 0).map t.row := by
    intro d
    rw [List.filterMap_append, List.filterMap_flatMap]
    simp only [hnode]
    rw [← List.map_eq_flatMap]
    exact List.append_nil _
  rw [lines, List.filterMap_flatMap, rows, Forest.levels_eq_flatMap, List.map_flatMap]
  exact List.flatMap_congr fun d _ => hdeclaration d

/-- Without colours the lines of a node alone are its lines as texts. -/
theorem nodeLines_eq (t : Table) (depth : Nat) (n : Node) :
    t.nodeLines false depth n = (t.linesOf (depth, n)).map Line.text := by
  rw [nodeLines, linesOf, List.map_append, List.map_map, List.map_singleton, Line.text, row]
  cases t.referenced? n <;> rfl

mutual
theorem treeLines_eq (t : Table) (depth : Nat) :
    ∀ n : Node, t.treeLines false depth n = ((n.levels depth).flatMap t.linesOf).map Line.text
  | .node a cs => by
    rw [treeLines, Tree.levels, List.flatMap_cons, List.map_append, nodeLines_eq,
      forestLines_eq t (depth + 1) cs]

/-- Without colours the tree view of a forest has the lines of its nodes, in flat order. -/
theorem forestLines_eq (t : Table) (depth : Nat) :
    ∀ ns : List Node,
      t.forestLines false depth ns = ((Forest.levels depth ns).flatMap t.linesOf).map Line.text
  | [] => rfl
  | n :: rest => by
    rw [forestLines, Forest.levels, List.flatMap_append, List.map_append, treeLines_eq t depth n,
      forestLines_eq t depth rest]
end

/-- Without colours the tree view is its lines, each with a line break behind. -/
theorem toTreeText_eq (t : Table) :
    t.toTreeText false = String.join (t.lines.map fun l => l.text ++ "\n") := by
  have hjoin : ∀ (ds : List Node) (f : Node → List String),
      String.join (ds.map fun d => String.join (f d)) = String.join (ds.flatMap f) := by
    intro ds f
    induction ds with
    | nil => rfl
    | cons d rest ih => rw [List.map_cons, List.flatMap_cons, String.join_cons, String.join_append, ih]
  have hdeclaration : ∀ d : Node,
      (t.treeLines false 0 d ++ [""]).map (· ++ "\n") =
        ((d.levels 0).flatMap t.linesOf ++ [Line.blank]).map fun l => l.text ++ "\n" := by
    intro d
    have hblank : [""] = [Line.blank].map Line.text := rfl
    rw [treeLines_eq, hblank, ← List.map_append, List.map_map]
    rfl
  rw [toTreeText, hjoin, lines, List.map_flatMap]
  simp only [hdeclaration]

end Table

/-- The objects of the JSON view without the inlined ones show the nodes of an extracted table. -/
theorem listing_toJson {ds : List Declaration} {cs : List Comment} {t : Table}
    (h : extract ds cs = .ok t) (options : ViewOptions) : (t.toJson options).listing = t.rows := by
  have hshaped := shaped_of_extract h
  have hresolved := resolved_of_extract h
  have hdeclaration : ∀ d ∈ t.declarations, ∀ closed,
      (t.nodeView options closed d).withoutInlined.rows 0 = (d.levels 0).map t.row := by
    intro d hd closed
    have hmem : ∀ m ∈ d.flatten, m ∈ t.nodes := fun m hm => Forest.mem_flatten.2 ⟨d, hd, hm⟩
    exact Table.rows_nodeView options (fun m hm => hshaped.leaves m (hmem m hm))
      (fun m hm => hshaped.linked m (hmem m hm)) (fun m hm => hresolved m (hmem m hm)) closed 0
  rw [Table.rows, Forest.levels_eq_flatMap, List.map_flatMap, ← t.map_snd_entries, Table.toJson_eq,
    Json.listing, Json.fields, List.flatMap_map, List.flatMap_map]
  refine List.flatMap_congr fun e he => hdeclaration e.2 ?_ _
  rw [← t.map_snd_entries]
  exact List.mem_map_of_mem he

/-- The three walks over an extracted table agree.  The nodes with their depths are those that a stack
    lists one by one, and their rows are those of the objects of the JSON view without the inlined
    ones, and those of the lines of the tree view that stand for nodes.  And without colours the text
    of the tree view is made of its lines: for each declaration those of its nodes in flat order, above
    each node its annotations, and an empty line behind. -/
theorem views_agree {ds : List Declaration} {cs : List Comment} {t : Table}
    (h : extract ds cs = .ok t) (options : ViewOptions) :
    (Forest.levels 0 t.declarations).map Prod.snd = Forest.unstack t.declarations ∧
      (t.toJson options).listing = t.rows ∧
      t.lines.filterMap Line.row? = t.rows ∧
      t.toTreeText false = String.join (t.lines.map fun l => l.text ++ "\n") := by
  refine ⟨?_, listing_toJson h options, t.filterMap_row?_lines, t.toTreeText_eq⟩
  rw [Forest.map_snd_levels, Forest.unstack_eq_flatten]

/-- A declaration with a title that refers to itself. -/
def titled : List Declaration :=
  [.alias ⟨20, 60⟩ "A" (.object ⟨29, 60⟩ [
    .property ⟨31, 41⟩ (.identifier "b") (some (.reference ⟨34, 35⟩ (.identifier "A") none)),
    .property ⟨43, 58⟩ (.identifier "c") (some (.union ⟨46, 57⟩
      [.literal ⟨46, 50⟩ (.boolean true), .keyword ⟨53, 57⟩ .null]))])]

/-- The table of `titled` under a comment with its title. -/
def titledTable : Table :=
  ⟨[.node ⟨"A", .declaration, ⟨20, 60⟩, some "* @title Top", some [("title", .string "Top")]⟩
    [Node.of "b" (.reference ⟨0⟩) ⟨34, 35⟩ [],
      Node.of "c" .union ⟨43, 58⟩
        [Node.of "c" (.booleanLiteral true) ⟨46, 50⟩ [], Node.of "c" .null ⟨43, 58⟩ []]]]⟩

theorem extract_titled : extract titled [⟨some "* @title Top", ⟨0, 16⟩⟩] = .ok titledTable := by
  have htitle : Annotations.ofText "* @title Top" = [("title", .string "Top")] := by decide +kernel
  refine extract_eq_ok_iff.2 ⟨_, _, [⟨0, "* @title Top"⟩], rfl, rfl, ?_, ?_⟩
  · refine (Comments.associate_singleton rfl).2 ?_
    exact @Comments.IsTarget.of_append [] [_, _, _, _] _ _ (by decide) (by decide) (by decide)
  · rw [titledTable, ← htitle]
    rfl

theorem views_agree_titled :
    (titledTable.toJson {}).listing =
      [⟨0, "A", "declaration", none⟩, ⟨1, "b", "reference", some "A"⟩, ⟨1, "c", "union", none⟩,
        ⟨2, "c", "booleanLiteral", none⟩, ⟨2, "c", "null", none⟩] ∧
    titledTable.toTreeText false =
      "title: Top\nA: declaration\n    b: reference -> A\n    c: union\n" ++
        "        c: booleanLiteral\n        c: null\n\n" := by
  obtain ⟨-, hlisting, -, htext⟩ := views_agree extract_titled {}
  exact ⟨hlisting.trans (by decide), htext.trans (by decide +kernel)⟩

end SchemaForest
