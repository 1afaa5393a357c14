import SchemaForest.Proofs.Locality
import SchemaForest.Proofs.Ranges

/-!
# Parentheses

Without its parentheses a document has the same declarations with the same spans.  What an extraction
makes of it is the same, too, but for one place: the members of an object type at the right side of an
alias hang right below the alias, and if there are parentheses around the object type they hang below
an object in between.

1. **Types and members** are translated the same with and without parentheses
   (`translateType_stripped`).  An array asks for the type of its element, so parentheses right there
   stay (`TypeNode.stripped`); an array refuses them.
2. **Declarations** are translated the same unless an object type stands in parentheses at the right
   side; then it is the same node with its children one level further down
   (`translateDeclaration_stripped`).
3. **Names and references.**  The object in between has neither a name of its own nor a reference, so
   the tables agree in names, duplicates and references (`Table.declareAll_shown`,
   `Table.resolve_shown`).
4. **Comments.**  The crux: a comment goes to the first node in flat order that starts where the first
   start behind the comment is.  The object in between starts where the node right in front of it does,
   so it never gets one and adds no start, and all others stay as they were
   (`Comments.attach_shown`).

So a document has the result of the document without parentheses, with the objects in between
(`extract_eq_shown`), and two documents that differ in parentheses alone have the same errors, and the
same result unless they differ in the right side of such an alias.
-/

namespace SchemaForest

open Fallible

/-! ## Types and members -/

mutual
/-- The type without parentheses, but for a pair right around the element of an array. -/
def TypeNode.stripped : TypeNode → TypeNode
  | .parenthesized _ inner => inner.stripped
  | .array s (.parenthesized s' inner) => .array s (.parenthesized s' inner.stripped)
  | .array s element => .array s element.stripped
  | .object s ms => .object s (TypeMember.strippedAll ms)
  | .union s arms => .union s (TypeNode.strippedAll arms)
  | .intersection s parts => .intersection s (TypeNode.strippedAll parts)
  | .keyword s k => .keyword s k
  | .literal s v => .literal s v
  | .reference s target parameters => .reference s target parameters
  | .foreign s kind => .foreign s kind

def TypeNode.strippedAll : List TypeNode → List TypeNode
  | [] => []
  | t :: rest => t.stripped :: TypeNode.strippedAll rest

/-- The member with its type without parentheses. -/
def TypeMember.stripped : TypeMember → TypeMember
  | .property s key (some t) => .property s key (some t.stripped)
  | .property s key none => .property s key none
  | .foreign s kind => .foreign s kind

def TypeMember.strippedAll : List TypeMember → List TypeMember
  | [] => []
  | m :: rest => m.stripped :: TypeMember.strippedAll rest
end

namespace TypeNode

/-- Parentheses around a type are the first to go. -/
theorem stripped_core : ∀ t : TypeNode, t.core.stripped = t.stripped
  | .parenthesized _ inner => stripped_core inner
  | .keyword .. | .array .. | .object .. | .union .. | .intersection .. | .literal ..
  | .reference .. | .foreign .. => rfl

/-- A type that is no object type is none without parentheses, unless there are some around it. -/
theorem stripped_ne_object {t : TypeNode} (hparenthesized : ∀ s inner, t ≠ .parenthesized s inner)
    (hobject : ∀ s ms, t ≠ .object s ms) (s : Span) (ms : List TypeMember) :
    t.stripped ≠ .object s ms := by
  cases t with
  | parenthesized s' inner => exact absurd rfl (hparenthesized s' inner)
  | object s' ms' => exact absurd rfl (hobject s' ms')
  | array s' element => cases element <;> exact TypeNode.noConfusion
  | _ => exact TypeNode.noConfusion

end TypeNode

section Translation

variable (lookup : String → Option Handle)

/-- An array gives the same element, or refuses it for the same kind at the same place. -/
theorem translateElement_stripped {element : TypeNode}
    (h : ∀ s inner, element ≠ .parenthesized s inner) :
    translateElement element.stripped = translateElement element := by
  cases element with
  | parenthesized s inner => exact absurd rfl (h s inner)
  | array s element => cases element <;> rfl
  | _ => rfl

mutual
theorem translateType_stripped (name : String) (range : Span) : ∀ t : TypeNode,
    translateType lookup name range t.stripped = translateType lookup name range t
  | .parenthesized _ inner => translateType_stripped name range inner
  | .array s element => by
    cases element with
    | parenthesized s' inner => rfl
    | _ =>
      refine congrArg (Except.map _) (translateElement_stripped ?_)
      exact fun _ _ => TypeNode.noConfusion
  | .object _ ms => congrArg (Except.map _) (translateMembers_stripped ms)
  | .union _ arms => congrArg (Except.map _) (translateTypes_stripped name range arms)
  | .intersection _ parts => congrArg (Except.map _) (translateTypes_stripped name range parts)
  | .keyword .. | .literal .. | .reference .. | .foreign .. => rfl

theorem translateTypes_stripped (name : String) (range : Span) : ∀ ts : List TypeNode,
    translateTypes lookup name range (TypeNode.strippedAll ts) = translateTypes lookup name range ts
  | [] => rfl
  | t :: rest => by
    rw [TypeNode.strippedAll, translateTypes, translateTypes, translateType_stripped name range t,
      translateTypes_stripped name range rest]

theorem translateMember_stripped : ∀ m : TypeMember,
    translateMember lookup m.stripped = translateMember lookup m
  | .property s key (some t) =>
    congrArg ((propertyName key s).bind ·) (funext fun name => translateType_stripped name s t)
  | .property _ _ none | .foreign .. => rfl

theorem translateMembers_stripped : ∀ ms : List TypeMember,
    translateMembers lookup (TypeMember.strippedAll ms) = translateMembers lookup ms
  | [] => rfl
  | m :: rest => by
    rw [TypeMember.strippedAll, translateMembers, translateMembers, translateMember_stripped m,
      translateMembers_stripped rest]
end

end Translation

/-! ## Declarations -/

/-- The label of the object between an alias and its members. -/
def Label.between (a : Label) : Label := { name := a.name, kind := .object, range := a.range }

/-- The node with its children below an object in between. -/
def Node.nested (n : Node) : Node := .node n.label [.node n.label.between n.children]

/-- Whether a type is an object type. -/
def TypeNode.isObject : TypeNode → Bool
  | .object .. => true
  | _ => false

theorem TypeNode.isObject_eq_false {t : TypeNode} (h : ∀ s ms, t ≠ .object s ms) :
    t.isObject = false := by
  cases t with
  | object s ms => exact absurd rfl (h s ms)
  | _ => rfl

namespace Declaration

/-- The declaration without parentheses, but for those right around the elements of arrays. -/
def stripped : Declaration → Declaration
  | .interface s n ms => .interface s n (TypeMember.strippedAll ms)
  | .alias s n t => .alias s n t.stripped
  | .exported s d => .exported s d.stripped

/-- The declaration is an alias of an object type that stands in parentheses. -/
def nests : Declaration → Bool
  | .alias _ _ (.parenthesized _ inner) => inner.core.isObject
  | .exported _ d => d.nests
  | _ => false

/-- What parentheses make of the node that the declaration has without them. -/
def shown (d : Declaration) (n : Node) : Node := if d.nests then n.nested else n

/-- The labels that come in right behind the one of the node. -/
def inserted (d : Declaration) (a : Label) : List Label := if d.nests then [a.between] else []

theorem name_stripped (d : Declaration) : d.stripped.name = d.name := by
  induction d with
  | exported s d ih => exact ih
  | _ => rfl

theorem span_stripped (d : Declaration) : d.stripped.span = d.span := by
  induction d with
  | exported s d ih => exact ih
  | _ => rfl

theorem label_shown (d : Declaration) (n : Node) : (d.shown n).label = n.label := by
  rw [shown]
  split <;> rfl

theorem shown_of_nests {d : Declaration} (h : d.nests = true) : d.shown = Node.nested :=
  funext fun _ => if_pos h

theorem shown_of_not_nests {d : Declaration} (h : d.nests = false) : d.shown = id :=
  funext fun _ => if_neg (Bool.eq_false_iff.1 h)

end Declaration

section Declarations

variable (lookup : String → Option Handle) {s : Span} {name : String}

theorem translateDeclaration_interface (hname : name ≠ "") (ms : List TypeMember) :
    translateDeclaration lookup (.interface s name ms) =
      (translateMembers lookup ms).map (Node.of name .declaration s) := if_neg hname

/-- The members of an object type hang right below the alias. -/
theorem translateDeclaration_object (hname : name ≠ "") (s' : Span) (ms : List TypeMember) :
    translateDeclaration lookup (.alias s name (.object s' ms)) =
      (translateMembers lookup ms).map (Node.of name .declaration s) := if_neg hname

/-- Any other type has a node of its own below the alias. -/
theorem translateDeclaration_alias (hname : name ≠ "") {t : TypeNode}
    (ht : ∀ s ms, t ≠ .object s ms) :
    translateDeclaration lookup (.alias s name t) =
      (translateType lookup name s t).map fun n => Node.of name .declaration s [n] := by
  cases t with
  | object s' ms => exact absurd rfl (ht s' ms)
  | _ => exact if_neg hname

/-- The node of an alias without parentheses, by what is inside those around its type. -/
theorem translateDeclaration_alias_stripped (hname : name ≠ "") (t : TypeNode) :
    translateDeclaration lookup (.alias s name t) =
      (translateDeclaration lookup (.alias s name t.stripped)).map
        (Declaration.alias s name t).shown := by
  by_cases hobject : ∃ s' ms, t.core = .object s' ms
  · obtain ⟨s', ms, hcore⟩ := hobject
    have hstripped : t.stripped = .object s' (TypeMember.strippedAll ms) := by
      rw [← TypeNode.stripped_core, hcore]
      rfl
    rw [hstripped, translateDeclaration_object lookup hname, translateMembers_stripped]
    cases t with
    | parenthesized s'' inner =>
      -- The object type has a node of its own, which stands in between.
      have hnests : (Declaration.alias s name (.parenthesized s'' inner)).nests = true :=
        congrArg TypeNode.isObject hcore
      rw [Declaration.shown_of_nests hnests, translateDeclaration_alias lookup hname
        (fun _ _ h => TypeNode.noConfusion h), ← translateType_core, hcore]
      show ((translateMembers lookup ms).map _).map _ = ((translateMembers lookup ms).map _).map _
      cases translateMembers lookup ms <;> rfl
    | object s'' ms' =>
      obtain ⟨rfl, rfl⟩ := TypeNode.object.inj hcore
      rw [translateDeclaration_object lookup hname, Declaration.shown_of_not_nests rfl, map_id_eq]
    | _ => exact TypeNode.noConfusion hcore
  · have hcore : ∀ s' ms, t.core ≠ .object s' ms := fun s' ms h => hobject ⟨s', ms, h⟩
    have ht : ∀ s' ms, t ≠ .object s' ms := fun s' ms h => hcore s' ms (by rw [h]; rfl)
    have hstripped : ∀ s' ms, t.stripped ≠ .object s' ms := by
      rw [← TypeNode.stripped_core]
      exact TypeNode.stripped_ne_object (core_ne_parenthesized t) hcore
    have hnests : (Declaration.alias s name t).nests = false := by
      cases t with
      | parenthesized s'' inner => exact TypeNode.isObject_eq_false hcore
      | _ => rfl
    rw [Declaration.shown_of_not_nests hnests, translateDeclaration_alias lookup hname ht,
      translateDeclaration_alias lookup hname hstripped, translateType_stripped, map_id_eq]

/-- Parentheses leave the node of a declaration as it is, or put an object in between. -/
theorem translateDeclaration_stripped (d : Declaration) :
    translateDeclaration lookup d = (translateDeclaration lookup d.stripped).map d.shown := by
  by_cases hname : d.name = ""
  · rw [translateDeclaration_of_nameless lookup hname,
      translateDeclaration_of_nameless lookup (d.name_stripped.trans hname), d.span_stripped]
    rfl
  induction d with
  | exported s d ih =>
    rw [Declaration.stripped, translateDeclaration_exported, translateDeclaration_exported, ih hname]
    rfl
  | interface s name ms =>
    have hname : name ≠ "" := hname
    rw [Declaration.stripped, translateDeclaration_interface lookup hname,
      translateDeclaration_interface lookup hname, translateMembers_stripped,
      Declaration.shown_of_not_nests rfl, map_id_eq]
  | «alias» s name t => exact translateDeclaration_alias_stripped lookup hname t

end Declarations

/-! ## Names and references -/

namespace Declaration

/-- What parentheses make of the nodes that the declarations have without them. -/
def shownAll (ds : List Declaration) (forest : Forest Label) : Forest Label :=
  List.zipWith shown ds forest

variable {ds : List Declaration} {forest : Forest Label}

theorem shownAll_append {ds' : List Declaration} {forest' : Forest Label}
    (h : ds.length = forest.length) :
    shownAll (ds ++ ds') (forest ++ forest') = shownAll ds forest ++ shownAll ds' forest' :=
  List.zipWith_append h

/-- The roots keep their labels. -/
theorem label_shownAll (h : ds.length = forest.length) :
    (shownAll ds forest).map Tree.label = forest.map Tree.label := by
  induction ds generalizing forest with
  | nil =>
    obtain rfl := List.length_eq_zero_iff.1 h.symm
    rfl
  | cons d ds ih =>
    obtain ⟨n, rest, rfl⟩ := List.exists_cons_of_length_eq_add_one h.symm
    rw [shownAll, List.zipWith_cons_cons, List.map_cons, List.map_cons, d.label_shown]
    exact congrArg (n.label :: ·) (ih (Nat.succ.inj h))

theorem labels_shown (d : Declaration) (n : Node) :
    Forest.labels [d.shown n] =
      n.label :: (d.inserted n.label ++ Forest.labels n.children) := by
  rw [shown, inserted]
  split
  · rw [Forest.labels_singleton]
    exact congrArg (n.label :: ·) (Forest.labels_singleton _)
  · exact Forest.labels_singleton n

theorem mapLabels_shown {f : Label → Label} (hbetween : ∀ a, f a.between = (f a).between)
    (d : Declaration) (n : Node) : (d.shown n).mapLabels f = d.shown (n.mapLabels f) := by
  obtain ⟨a, cs⟩ := n
  rw [shown, shown]
  split
  · show Tree.node _ [.node (f a.between) _] = Tree.node _ [.node (f a).between _]
    rw [hbetween]
    rfl
  · rfl

/-- A relabelling that takes objects in between to objects in between can be made without them. -/
theorem mapLabels_shownAll {f : Label → Label} (hbetween : ∀ a, f a.between = (f a).between)
    (ds : List Declaration) (forest : Forest Label) :
    Forest.mapLabels f (shownAll ds forest) = shownAll ds (Forest.mapLabels f forest) := by
  rw [Forest.mapLabels_eq, Forest.mapLabels_eq, shownAll, shownAll, List.map_zipWith,
    List.zipWith_map_right]
  exact congrArg (fun g => List.zipWith g ds forest)
    (funext fun d => funext fun n => mapLabels_shown hbetween d n)

/-- What is not found in objects in between is found where it is found without them. -/
theorem findSome?_labels_shownAll {γ : Type} {g : Label → Option γ}
    (hg : ∀ a : Label, g a.between = none) (h : ds.length = forest.length) :
    (Forest.labels (shownAll ds forest)).findSome? g = (Forest.labels forest).findSome? g := by
  induction ds generalizing forest with
  | nil =>
    obtain rfl := List.length_eq_zero_iff.1 h.symm
    rfl
  | cons d ds ih =>
    obtain ⟨n, rest, rfl⟩ := List.exists_cons_of_length_eq_add_one h.symm
    have hinserted : (d.inserted n.label).findSome? g = none := by
      rw [inserted]
      split
      · rw [List.findSome?_cons, hg]
        rfl
      · rfl
    rw [shownAll, List.zipWith_cons_cons, Forest.labels_cons, Forest.labels_cons n,
      List.findSome?_append, List.findSome?_append, labels_shown, Forest.labels_singleton,
      List.findSome?_cons, List.findSome?_cons, List.findSome?_append, hinserted, Option.none_or]
    exact congrArg (Option.or _) (ih (Nat.succ.inj h))

end Declaration

namespace Table

/-- The table with the objects that parentheses put in between. -/
def shown (ds : List Declaration) (t : Table) : Table := ⟨Declaration.shownAll ds t.declarations⟩

variable {ds : List Declaration} {t : Table}

theorem names_shown (h : ds.length = t.size) : (t.shown ds).names = t.names := by
  have hlabels := congrArg (List.map Label.name) (Declaration.label_shownAll h)
  rw [List.map_map, List.map_map] at hlabels
  exact hlabels

theorem handle?_shown (h : ds.length = t.size) : (t.shown ds).handle? = t.handle? := by
  funext name
  rw [handle?, handle?, names_shown h]

/-- A name leads to the declaration with the same label. -/
theorem find?_shown (h : ds.length = t.size) (name : String) :
    ((t.shown ds).find? name).map Tree.label = (t.find? name).map Tree.label := by
  rw [find?, find?, handle?_shown h, Option.map_bind, Option.map_bind]
  refine congrArg (Option.bind _) (funext fun k => ?_)
  have hat := congrArg (fun labels => labels[k.index]?) (Declaration.label_shownAll h)
  rwa [List.getElem?_map, List.getElem?_map] at hat

/-- A node comes in, or its name is refused with the ranges of both declarations. -/
theorem insert_shown (h : ds.length = t.size) (d : Declaration) (n : Node) :
    (t.shown ds).insert (d.shown n) =
      (t.insert n).map fun r => (r.1.shown (ds ++ [d]), r.2) := by
  have hfind := find?_shown h n.label.name
  have hsize : (t.shown ds).size = t.size := by
    have hlength := congrArg List.length (Declaration.label_shownAll h)
    rwa [List.length_map, List.length_map] at hlength
  rw [insert_eq, insert_eq, d.label_shown]
  cases hn : t.find? n.label.name with
  | some first =>
    rw [hn] at hfind
    obtain ⟨first', hfirst', hlabel⟩ := Option.map_eq_some_iff.1 hfind
    rw [hfirst']
    dsimp only
    rw [hlabel]
    rfl
  | none =>
    rw [hn] at hfind
    rw [Option.map_eq_none_iff.1 hfind, hsize]
    show Except.ok (Table.mk _, _) = Except.ok (Table.mk _, _)
    rw [Declaration.shownAll_append h]
    rfl

/-- Declarations fill a table with the nodes that they have without parentheses, and the objects in
    between, or they are refused for the same reason. -/
theorem declareAll_shown (h : ds.length = t.size) (more : List Declaration) :
    (t.shown ds).declareAll more =
      (t.declareAll (more.map Declaration.stripped)).map (shown (ds ++ more)) := by
  induction more generalizing ds t with
  | nil =>
    rw [List.append_nil]
    rfl
  | cons d rest ih =>
    rw [List.map_cons, declareAll_cons, declareAll_cons, declare_eq, declare_eq, handle?_shown h,
      translateDeclaration_stripped]
    cases translateDeclaration t.handle? d.stripped with
    | error e => rfl
    | ok n =>
      show ((t.shown ds).insert (d.shown n) >>= _) = Except.map _ (t.insert n >>= _)
      rw [insert_shown h]
      rcases hn : t.insert n with e | ⟨t', k⟩
      · rfl
      · have hsize : (ds ++ [d]).length = t'.size := by
          rw [insert_eq] at hn
          cases hfind : t.find? n.label.name <;> rw [hfind] at hn <;> cases hn
          show _ = (t.declarations ++ [n]).length
          rw [List.length_append, List.length_append, h]
          rfl
        show (t'.shown (ds ++ [d])).declareAll rest = _
        rw [ih hsize, List.append_assoc]
        rfl

theorem ofDeclarations_shown (ds : List Declaration) :
    ofDeclarations ds = (ofDeclarations (ds.map Declaration.stripped)).map (shown ds) :=
  @declareAll_shown [] empty rfl ds

/-- References are resolved to the same handles up to the same failure; an object in between is no
    reference. -/
theorem resolve_shown (h : ds.length = t.size) :
    (t.shown ds).resolve.2 = t.resolve.2 ∧
      (t.resolve.2 = none → (t.shown ds).resolve.1 = t.resolve.1.shown ds) := by
  have hbetween : ∀ a, settle t.handle? a.between = (settle t.handle? a).between := by
    intro a
    rw [Label.between, Label.between, name_settle, range_settle]
    rfl
  have hfault : (t.shown ds).resolve.2 = t.resolve.2 := by
    rw [resolve_fault, resolve_fault, handle?_shown h, shown,
      Declaration.mapLabels_shownAll hbetween]
    refine Declaration.findSome?_labels_shownAll (fun _ => rfl) (h.trans ?_)
    rw [Forest.mapLabels_eq, List.length_map]
    rfl
  refine ⟨hfault, fun hnone => ?_⟩
  rw [resolve_eq_of_fault_eq_none hnone, resolve_eq_of_fault_eq_none (hfault.trans hnone),
    handle?_shown h]
  exact congrArg Table.mk (Declaration.mapLabels_shownAll hbetween ds t.declarations)

end Table

/-! ## Comments -/

namespace Declaration

variable {ds : List Declaration} {forest : Forest Label} {d : Declaration} {n : Node}

theorem eq_between_of_mem_inserted {a b : Label} (h : b ∈ d.inserted a) : b = a.between := by
  rw [inserted] at h
  split at h
  · exact List.mem_singleton.1 h
  · cases h

theorem starts_shown (d : Declaration) (n : Node) :
    Forest.starts [d.shown n] = n.label.range.start ::
      ((d.inserted n.label).map (fun a => a.range.start) ++ Forest.starts n.children) := by
  rw [Forest.starts, labels_shown, List.map_cons, List.map_append]
  rfl

/-- The labels that come in start where something in front of them does. -/
theorem mem_starts_inserted {a : Label} {s : Nat}
    (h : s ∈ (d.inserted a).map fun a => a.range.start) : s = a.range.start := by
  obtain ⟨b, hb, rfl⟩ := List.mem_map.1 h
  rw [eq_between_of_mem_inserted hb]
  rfl

/-- So they add no start to what comes behind the label. -/
theorem mem_cons_inserted_iff {a : Label} {behind : List Nat} {s : Nat} :
    s ∈ a.range.start :: ((d.inserted a).map (fun a => a.range.start) ++ behind) ↔
      s ∈ a.range.start :: behind := by
  rw [List.mem_cons, List.mem_cons, List.mem_append]
  constructor
  · rintro (hs | hs | hs)
    · exact Or.inl hs
    · exact Or.inl (mem_starts_inserted hs)
    · exact Or.inr hs
  · exact Or.imp_right Or.inr

theorem mem_starts_shown {s : Nat} :
    s ∈ Forest.starts [d.shown n] ↔ s ∈ Forest.starts [n] := by
  rw [starts_shown, Forest.starts_singleton, mem_cons_inserted_iff]

/-- Objects in between add no start. -/
theorem mem_starts_shownAll (h : ds.length = forest.length) {s : Nat} :
    s ∈ Forest.starts (shownAll ds forest) ↔ s ∈ Forest.starts forest := by
  induction ds generalizing forest with
  | nil =>
    obtain rfl := List.length_eq_zero_iff.1 h.symm
    rfl
  | cons d ds ih =>
    obtain ⟨n, rest, rfl⟩ := List.exists_cons_of_length_eq_add_one h.symm
    rw [shownAll, List.zipWith_cons_cons, Forest.starts_cons, Forest.starts_cons n, List.mem_append,
      List.mem_append, mem_starts_shown]
    exact or_congr_right (ih (Nat.succ.inj h))

theorem shape_shown {m : Node} (h : Forest.shape [m] = Forest.shape [n]) :
    Forest.shape [d.shown m] = Forest.shape [d.shown n] := by
  obtain ⟨a, cs⟩ := m
  obtain ⟨b, ds⟩ := n
  obtain ⟨-, hbelow⟩ := Tree.node.inj (List.singleton_inj.1 h)
  rw [shown, shown]
  split
  · show [Tree.node () [.node () (Forest.shape cs)]] = [Tree.node () [.node () (Forest.shape ds)]]
    exact congrArg (fun below => [Tree.node () [.node () below]]) hbelow
  · exact h

end Declaration

namespace Comments

open Declaration

section Target

variable {ds₁ ds₂ : List Declaration} {forest₁ forest₂ : Forest Label} {d : Declaration} {n : Node}
  (h₁ : ds₁.length = forest₁.length) (h₂ : ds₂.length = forest₂.length) {stop : Nat}

include h₁ in
theorem starts_split :
    Forest.starts (shownAll (ds₁ ++ d :: ds₂) (forest₁ ++ n :: forest₂)) =
      Forest.starts (shownAll ds₁ forest₁) ++ n.label.range.start ::
        ((d.inserted n.label).map (fun a => a.range.start) ++
          (Forest.starts n.children ++ Forest.starts (shownAll ds₂ forest₂))) := by
  rw [shownAll_append h₁, Forest.starts_append]
  show _ ++ Forest.starts (d.shown n :: shownAll ds₂ forest₂) = _
  rw [Forest.starts_cons, starts_shown, List.cons_append, List.append_assoc]

theorem starts_split_bare :
    Forest.starts (forest₁ ++ n :: forest₂) = Forest.starts forest₁ ++ n.label.range.start ::
      (Forest.starts n.children ++ Forest.starts forest₂) := by
  rw [Forest.starts_append, Forest.starts_cons, Forest.starts_singleton, List.cons_append]

include h₁ h₂ in
/-- A root gets the comments that it has without objects in between. -/
theorem isTarget_root_iff :
    IsTarget (Forest.flatten (shownAll (ds₁ ++ d :: ds₂) (forest₁ ++ n :: forest₂))) stop
        (Forest.starts (shownAll ds₁ forest₁)).length ↔
      IsTarget (Forest.flatten (forest₁ ++ n :: forest₂)) stop (Forest.starts forest₁).length := by
  rw [isTarget_iff, isTarget_iff, starts_split h₁, starts_split_bare]
  refine firstBehind_congr (fun s => mem_starts_shownAll h₁) fun s => ?_
  rw [mem_cons_inserted_iff, List.mem_cons, List.mem_cons, List.mem_append, List.mem_append,
    mem_starts_shownAll h₂]

include h₁ in
/-- An object in between gets no comment, because the node right in front of it starts there. -/
theorem not_isTarget_inserted {j : Nat} (hj : j < (d.inserted n.label).length) :
    ¬ IsTarget (Forest.flatten (shownAll (ds₁ ++ d :: ds₂) (forest₁ ++ n :: forest₂))) stop
        ((Forest.starts (shownAll ds₁ forest₁)).length + 1 + j) := by
  rw [isTarget_iff, starts_split h₁]
  intro hfirst
  obtain ⟨s, hs, hstop, hmin⟩ := hfirst
  rw [Nat.add_assoc, List.getElem?_append_right (Nat.le_add_right _ _), Nat.add_sub_cancel_left,
    Nat.add_comm 1 j, List.getElem?_cons_succ, List.getElem?_append_left (by rwa [List.length_map])]
    at hs
  obtain rfl := mem_starts_inserted (List.mem_of_getElem? hs)
  have hroot := hmin (Forest.starts (shownAll ds₁ forest₁)).length n.label.range.start
    (by rw [List.getElem?_append_right (Nat.le_refl _), Nat.sub_self]; rfl) hstop
  omega

include h₁ h₂ in
/-- A node below a root gets the comments that it has without objects in between. -/
theorem isTarget_below_iff {j : Nat} (hj : j < (Forest.starts n.children).length) :
    IsTarget (Forest.flatten (shownAll (ds₁ ++ d :: ds₂) (forest₁ ++ n :: forest₂))) stop
        ((Forest.starts (shownAll ds₁ forest₁)).length + 1 + (d.inserted n.label).length + j) ↔
      IsTarget (Forest.flatten (forest₁ ++ n :: forest₂)) stop
        ((Forest.starts forest₁).length + 1 + j) := by
  have hchildren := eq_take_append_cons_drop (List.getElem?_eq_getElem hj)
  rw [isTarget_iff, isTarget_iff, starts_split h₁, starts_split_bare]
  generalize (Forest.starts n.children)[j] = s at hchildren
  have hlength : ((Forest.starts n.children).take j).length = j :=
    List.length_take_of_le (Nat.le_of_lt hj)
  generalize (Forest.starts n.children).take j = front at hchildren hlength
  generalize (Forest.starts n.children).drop (j + 1) = back at hchildren
  subst hlength
  rw [hchildren]
  have hfront : ∀ x, x ∈ Forest.starts (shownAll ds₁ forest₁) ++ n.label.range.start ::
        ((d.inserted n.label).map (fun a => a.range.start) ++ front) ↔
      x ∈ Forest.starts forest₁ ++ n.label.range.start :: front := by
    intro x
    rw [List.mem_append, List.mem_append, mem_starts_shownAll h₁, mem_cons_inserted_iff]
  have hback : ∀ x, x ∈ s :: (back ++ Forest.starts (shownAll ds₂ forest₂)) ↔
      x ∈ s :: (back ++ Forest.starts forest₂) := by
    intro x
    rw [List.mem_cons, List.mem_cons, List.mem_append, List.mem_append, mem_starts_shownAll h₂]
  have hcongr := @firstBehind_congr _ _ _ _ s stop hfront hback
  simp only [List.append_assoc, List.cons_append, List.length_append, List.length_cons,
    List.length_map] at hcongr ⊢
  rw [show (Forest.starts (shownAll ds₁ forest₁)).length + 1 + (d.inserted n.label).length +
      front.length = (Forest.starts (shownAll ds₁ forest₁)).length +
      ((d.inserted n.label).length + front.length + 1) by omega,
    show (Forest.starts forest₁).length + 1 + front.length =
      (Forest.starts forest₁).length + (front.length + 1) by omega]
  exact hcongr

end Target

variable {ds : List Declaration} {forest : Forest Label}

/-- The same comments have nothing behind them. -/
theorem orphan?_shown (h : ds.length = forest.length) (c : Comment) :
    orphan? (Forest.flatten (shownAll ds forest)) c = orphan? (Forest.flatten forest) c := by
  have hnone : nodeFor? (Forest.flatten (shownAll ds forest)) c.span.stop = none ↔
      nodeFor? (Forest.flatten forest) c.span.stop = none := by
    have hstarts : ∀ (forest : Forest Label) (stop : Nat),
        (∀ n ∈ Forest.flatten forest, n.label.range.start ≤ stop) ↔
          ∀ s ∈ Forest.starts forest, s ≤ stop := by
      intro forest stop
      rw [Forest.starts, Forest.labels, List.map_map, List.forall_mem_map]
      rfl
    rw [nodeFor?_eq_none_iff, nodeFor?_eq_none_iff, hstarts, hstarts]
    exact forall_congr' fun s => by rw [mem_starts_shownAll h]
  rw [orphan?, orphan?]
  refine congrArg (c.body.bind ·) (funext fun text => ?_)
  cases hfound : nodeFor? (Forest.flatten forest) c.span.stop with
  | none => rw [hnone.2 hfound]
  | some i =>
    cases hfound' : nodeFor? (Forest.flatten (shownAll ds forest)) c.span.stop with
    | none => exact absurd (hnone.1 hfound') (hfound ▸ Option.some_ne_none i)
    | some j => rfl

/-- The label of the node at a flat index, once comments are attached and decoded. -/
def finished (nodes : List Node) (comments : List Comment) (p : Label × Nat) : Label :=
  decoded (attached (comments.filterMap (attachment? nodes)) p.2 p.1)

theorem finished_congr {nodes nodes' : List Node} {i i' : Nat}
    (h : ∀ stop, IsTarget nodes stop i ↔ IsTarget nodes' stop i') (comments : List Comment)
    (a : Label) : finished nodes comments (a, i) = finished nodes' comments (a, i') := by
  rw [finished, finished, attached, attached, textFor?_filterMap_congr h]

/-- A label of a node that gets no comment, and that had none, stays as it is. -/
theorem finished_of_not_isTarget {nodes : List Node} {i : Nat} (h : ∀ stop, ¬ IsTarget nodes stop i)
    {a : Label} (ha : a.comment = none) (comments : List Comment) :
    finished nodes comments (a, i) = a := by
  have hnone : textFor? (comments.filterMap (attachment? nodes)) i = none := by
    rw [textFor?_filterMap_eq_none_iff]
    intro c _ text hc
    exact h _ (attachment?_eq_some_iff.1 (associate_singleton_iff.1 hc)).2
  rw [finished, attached, hnone]
  dsimp only
  rw [decoded, ha]

/-- Comments change nothing that the object in between takes over. -/
theorem between_finished (nodes : List Node) (comments : List Comment) (a : Label) (i : Nat) :
    (finished nodes comments (a, i)).between = a.between := by
  rw [finished, decoded, attached]
  split <;> split <;> rfl

section Finished

variable {ds₁ ds₂ : List Declaration} {forest₁ forest₂ : Forest Label} {d : Declaration} {n : Node}
  (h₁ : ds₁.length = forest₁.length) (h₂ : ds₂.length = forest₂.length) (comments : List Comment)

include h₁ in
/-- What was put in between stays as it is. -/
theorem finished_inserted :
    ((d.inserted n.label).zipIdx ((Forest.starts (shownAll ds₁ forest₁)).length + 1)).map
        (finished (Forest.flatten (shownAll (ds₁ ++ d :: ds₂) (forest₁ ++ n :: forest₂))) comments) =
      d.inserted n.label := by
  conv_rhs => rw [← List.zipIdx_map_fst ((Forest.starts (shownAll ds₁ forest₁)).length + 1)
    (d.inserted n.label)]
  refine List.map_congr_left fun p hp => ?_
  obtain ⟨b, i⟩ := p
  obtain ⟨j, hj, rfl⟩ : ∃ j, (d.inserted n.label)[j]? = some b ∧
      i = (Forest.starts (shownAll ds₁ forest₁)).length + 1 + j := by
    obtain ⟨hle, hget⟩ := List.mk_mem_zipIdx_iff_le_and_getElem?_sub.1 hp
    exact ⟨_, hget, by omega⟩
  refine finished_of_not_isTarget (fun stop => not_isTarget_inserted h₁ ?_) ?_ comments
  · exact (List.getElem?_eq_some_iff.1 hj).1
  · rw [eq_between_of_mem_inserted (List.mem_of_getElem? hj)]
    rfl

include h₁ h₂ in
/-- What is below a root gets the comments that it gets without objects in between. -/
theorem finished_below :
    ((Forest.labels n.children).zipIdx ((Forest.starts (shownAll ds₁ forest₁)).length + 1 +
        (d.inserted n.label).length)).map
        (finished (Forest.flatten (shownAll (ds₁ ++ d :: ds₂) (forest₁ ++ n :: forest₂))) comments) =
      ((Forest.labels n.children).zipIdx ((Forest.starts forest₁).length + 1)).map
        (finished (Forest.flatten (forest₁ ++ n :: forest₂)) comments) := by
  refine List.ext_getElem? fun j => ?_
  simp only [List.getElem?_map, List.getElem?_zipIdx, Option.map_map]
  cases hj : (Forest.labels n.children)[j]? with
  | none => rfl
  | some a =>
    have hlt : j < (Forest.starts n.children).length := by
      rw [Forest.length_starts]
      exact (List.getElem?_eq_some_iff.1 hj).1
    exact congrArg some (finished_congr (fun stop => isTarget_below_iff h₁ h₂ hlt) comments a)

include h₁ h₂ in
/-- In a tree with an object in between that one gets no comment, and every other node gets the ones
    that it gets without it. -/
theorem finished_shown {m : Node}
    (hm : Forest.labels [m] = ((Forest.labels [n]).zipIdx (Forest.labels forest₁).length).map
      (finished (Forest.flatten (forest₁ ++ n :: forest₂)) comments)) :
    ((Forest.labels [d.shown n]).zipIdx (Forest.labels (shownAll ds₁ forest₁)).length).map
        (finished (Forest.flatten (shownAll (ds₁ ++ d :: ds₂) (forest₁ ++ n :: forest₂)))
          comments) = Forest.labels [d.shown m] := by
  rw [← Forest.length_starts, Forest.labels_singleton, Forest.labels_singleton, List.zipIdx_cons,
    List.map_cons] at hm
  obtain ⟨hroot, hbelow⟩ := List.cons.inj hm
  -- What comes in is made of the name and the range of the root, which stay.
  have hinserted : d.inserted m.label = d.inserted n.label := by
    rw [hroot, inserted, inserted, between_finished]
  rw [← Forest.length_starts, labels_shown, labels_shown, List.zipIdx_cons, List.zipIdx_append,
    List.map_cons, List.map_append, finished_inserted h₁, finished_below h₁ h₂, hinserted, hroot,
    hbelow]
  exact congrArg (· :: _) (finished_congr (fun stop => isTarget_root_iff h₁ h₂) comments n.label)

end Finished

/-- The labels of a forest to which comments were attached, and decoded. -/
theorem labels_finished {forest : Forest Label} {comments : List Comment}
    {attachments : List Attachment}
    (h : associate (Forest.flatten forest) comments = .ok attachments) :
    Forest.labels (decode (apply forest attachments)).1 =
      (Forest.labels forest).zipIdx.map (finished (Forest.flatten forest) comments) := by
  rw [labels_decode, labels_apply, List.map_map, (associate_eq_ok_iff.1 h).2]
  rfl

/-- Trees that got their labels along the flat lists, with and without objects in between, differ in
    these alone. -/
theorem eq_shownAll (h : ds.length = forest.length) {comments : List Comment}
    {ys ys' : Forest Label} (hshape : Forest.shape ys = Forest.shape forest)
    (hlabels : Forest.labels ys =
      (Forest.labels forest).zipIdx.map (finished (Forest.flatten forest) comments))
    (hshape' : Forest.shape ys' = Forest.shape (shownAll ds forest))
    (hlabels' : Forest.labels ys' = (Forest.labels (shownAll ds forest)).zipIdx.map
      (finished (Forest.flatten (shownAll ds forest)) comments)) : ys' = shownAll ds ys := by
  have hlength : ys.length = forest.length := Forest.length_of_shape hshape
  have hshown : ∀ {ns : Forest Label}, ns.length = forest.length →
      (shownAll ds ns).length = forest.length := by
    intro ns hns
    rw [shownAll, List.length_zipWith, h, hns, Nat.min_self]
  have hlength' : ys'.length = forest.length := (Forest.length_of_shape hshape').trans (hshown rfl)
  refine List.ext_getElem? fun k => ?_
  rcases Nat.lt_or_ge k forest.length with hk | hk
  · obtain ⟨d, hd⟩ : ∃ d, ds[k]? = some d := ⟨_, List.getElem?_eq_getElem (h ▸ hk)⟩
    obtain ⟨n, hn⟩ : ∃ n, forest[k]? = some n := ⟨_, List.getElem?_eq_getElem hk⟩
    obtain ⟨m, hm⟩ : ∃ m, ys[k]? = some m := ⟨_, List.getElem?_eq_getElem (hlength ▸ hk)⟩
    obtain ⟨m', hm'⟩ : ∃ m', ys'[k]? = some m' := ⟨_, List.getElem?_eq_getElem (hlength' ▸ hk)⟩
    have hat : ∀ {ns : Forest Label} {x : Node}, ns[k]? = some x →
        (shownAll ds ns)[k]? = some (d.shown x) := by
      intro ns x hx
      rw [shownAll, List.getElem?_zipWith, hd, hx]
    have htake : (shownAll ds forest).take k = shownAll (ds.take k) (forest.take k) :=
      List.take_zipWith
    have h₁ : (ds.take k).length = (forest.take k).length := by
      rw [List.length_take, List.length_take, h]
    have h₂ : (ds.drop (k + 1)).length = (forest.drop (k + 1)).length := by
      rw [List.length_drop, List.length_drop, h]
    have htree := finished_shown (d := d) (n := n) (m := m) h₁ h₂ comments
    rw [← eq_take_append_cons_drop hd, ← eq_take_append_cons_drop hn, ← htake,
      ← Forest.labels_getElem? hshape' hlabels' (hat hn) hm'] at htree
    have hsame : [m'] = [d.shown m] := by
      refine Forest.eq_of_shape_of_labels _ _ ?_ (htree (Forest.labels_getElem? hshape hlabels hn hm))
      exact (Forest.shape_getElem? hshape' (hat hn) hm').trans
        (shape_shown (Forest.shape_getElem? hshape hn hm)).symm
    rw [hm', hat hm, List.singleton_inj.1 hsame]
  · rw [List.getElem?_eq_none (hlength' ▸ hk), List.getElem?_eq_none ((hshown hlength) ▸ hk)]

/-- Comments go to the same nodes as without the objects in between, or one of them is refused. -/
theorem attach_shown (h : ds.length = forest.length) (comments : List Comment) :
    ((attach (shownAll ds forest) comments).map fun r => (decode r.1).1) =
      ((attach forest comments).map fun r => (decode r.1).1).map (shownAll ds) := by
  have herror : error? (associate (Forest.flatten (shownAll ds forest)) comments) =
      error? (associate (Forest.flatten forest) comments) := by
    rw [error?_associate, error?_associate]
    exact congrArg (comments.findSome? ·) (funext fun c => orphan?_shown h c)
  rw [attach_eq, attach_eq]
  cases hassociate : associate (Forest.flatten forest) comments with
  | error e =>
    rw [hassociate] at herror
    cases hassociate' : associate (Forest.flatten (shownAll ds forest)) comments with
    | error e' =>
      rw [hassociate'] at herror
      exact congrArg Except.error (Option.some.inj herror)
    | ok attachments' =>
      rw [hassociate'] at herror
      cases herror
  | ok attachments =>
    rw [hassociate] at herror
    obtain ⟨attachments', hassociate'⟩ := error?_eq_none_iff.1 herror
    rw [hassociate']
    refine congrArg Except.ok ?_
    show (decode (apply (shownAll ds forest) attachments')).1 =
      shownAll ds (decode (apply forest attachments)).1
    have hlabels := labels_finished hassociate
    have hlabels' := labels_finished hassociate'
    have hshape : Forest.shape (decode (apply forest attachments)).1 = Forest.shape forest :=
      (Forest.shape_visit _ _ _).trans (shape_apply _ _)
    have hshape' : Forest.shape (decode (apply (shownAll ds forest) attachments')).1 =
        Forest.shape (shownAll ds forest) := (Forest.shape_visit _ _ _).trans (shape_apply _ _)
    generalize (decode (apply forest attachments)).1 = ys at hlabels hshape
    generalize (decode (apply (shownAll ds forest) attachments')).1 = ys' at hlabels' hshape'
    exact eq_shownAll h hshape hlabels hshape' hlabels'

end Comments

/-! ## Extractions -/

namespace Declaration

/-- An object in between makes a difference. -/
theorem shown_eq_iff {d d' : Declaration} {n : Node} :
    d'.shown n = d.shown n ↔ d'.nests = d.nests := by
  have hne : n.nested ≠ n := by
    obtain ⟨a, cs⟩ := n
    intro h
    have hchildren : [Tree.node a.between cs] = cs := (Tree.node.inj h).2
    have hsize := congrArg sizeOf hchildren
    simp only [List.cons.sizeOf_spec, Tree.node.sizeOf_spec, List.nil.sizeOf_spec] at hsize
    omega
  rw [shown, shown]
  cases d'.nests <;> cases d.nests
  · exact iff_of_true rfl rfl
  · exact iff_of_false (Ne.symm hne) Bool.noConfusion
  · exact iff_of_false hne Bool.noConfusion
  · exact iff_of_true rfl rfl

theorem shownAll_eq_iff {ds ds' : List Declaration} {forest : Forest Label}
    (h : ds.length = forest.length) (h' : ds'.length = forest.length) :
    shownAll ds' forest = shownAll ds forest ↔ ds'.map nests = ds.map nests := by
  induction forest generalizing ds ds' with
  | nil =>
    obtain rfl := List.length_eq_zero_iff.1 h
    obtain rfl := List.length_eq_zero_iff.1 h'
    exact iff_of_true rfl rfl
  | cons n rest ih =>
    obtain ⟨d, ds, rfl⟩ := List.exists_cons_of_length_eq_add_one h
    obtain ⟨d', ds', rfl⟩ := List.exists_cons_of_length_eq_add_one h'
    rw [shownAll, shownAll, List.zipWith_cons_cons, List.zipWith_cons_cons, List.cons_eq_cons,
      shown_eq_iff, List.map_cons, List.map_cons, List.cons_eq_cons]
    exact and_congr_right fun _ => ih (Nat.succ.inj h) (Nat.succ.inj h')

end Declaration

/-- Attaching and decoding come to the same end with the objects in between. -/
theorem Table.attach_shown {ds : List Declaration} {t : Table} (h : ds.length = t.size)
    (comments : List Comment) :
    ((Comments.attach (t.shown ds).declarations comments).map fun r =>
        Table.mk (Comments.decode r.1).1) =
      ((Comments.attach t.declarations comments).map fun r =>
        Table.mk (Comments.decode r.1).1).map (shown ds) := by
  have hshown := congrArg (Except.map Table.mk) (Comments.attach_shown h comments)
  cases hbare : Comments.attach t.declarations comments <;>
    cases hnested : Comments.attach (Declaration.shownAll ds t.declarations) comments <;>
    rw [hbare, hnested] at hshown <;> rw [shown, hnested] <;> exact hshown

/-- The phases of an extraction behind the first, if all references can be resolved. -/
theorem extract_of_fault_eq_none {ds : List Declaration} {t : Table}
    (h : Table.ofDeclarations ds = .ok t) (hfault : t.resolve.2 = none) (comments : List Comment) :
    extract ds comments = (Comments.attach t.resolve.1.declarations comments).map fun r =>
      Table.mk (Comments.decode r.1).1 := by
  rw [extract_eq, h]
  rcases hresolve : t.resolve with ⟨t₁, fault⟩
  rw [hresolve] at hfault
  obtain rfl : fault = none := hfault
  dsimp only [bind, Except.bind]
  rw [hresolve]
  dsimp only
  cases Comments.attach t₁.declarations comments <;> rfl

theorem extract_of_fault_eq_some {ds : List Declaration} {t : Table} {e : ExtractError}
    (h : Table.ofDeclarations ds = .ok t) (hfault : t.resolve.2 = some e) (comments : List Comment) :
    extract ds comments = .error e := by
  rw [extract_eq, h]
  rcases hresolve : t.resolve with ⟨t₁, fault⟩
  rw [hresolve] at hfault
  obtain rfl : fault = some e := hfault
  dsimp only [bind, Except.bind]
  rw [hresolve]

/-- A document has the result that it has without parentheses, with an object between an alias and
    its members wherever these stand in parentheses; or it has the same error. -/
theorem extract_eq_shown (ds : List Declaration) (comments : List Comment) :
    extract ds comments =
      (extract (ds.map Declaration.stripped) comments).map (Table.shown ds) := by
  have hshown := Table.ofDeclarations_shown ds
  cases ht : Table.ofDeclarations (ds.map Declaration.stripped) with
  | error e =>
    rw [ht] at hshown
    rw [extract_eq, extract_eq, ht, hshown]
    rfl
  | ok t =>
    rw [ht] at hshown
    have hsize : ds.length = t.size := by
      have hnames := congrArg List.length (Table.declareAll_names ht)
      rw [List.length_append, List.length_map, List.length_map, Table.names, List.length_map]
        at hnames
      exact (hnames.trans (Nat.zero_add _)).symm
    obtain ⟨hfault, hresolved⟩ := Table.resolve_shown hsize
    cases hnone : t.resolve.2 with
    | some e =>
      rw [extract_of_fault_eq_some ht hnone, extract_of_fault_eq_some hshown (hfault.trans hnone)]
      rfl
    | none =>
      have hresolve := Table.resolve_eq_of_fault_eq_none hnone
      rw [extract_of_fault_eq_none ht hnone, extract_of_fault_eq_none hshown (hfault.trans hnone),
        hresolved hnone]
      refine Table.attach_shown ?_ comments
      rw [hresolve, Table.size, Forest.mapLabels_eq, List.length_map]
      exact hsize

/-- An extracted table holds as many declarations as there were. -/
theorem length_extract {ds : List Declaration} {comments : List Comment} {t : Table}
    (h : extract ds comments = .ok t) : ds.length = t.declarations.length := by
  obtain ⟨forest, -, hforest, -, hshape, -⟩ := labels_extract h
  rw [Forest.length_of_shape hshape]
  exact (mapM_eq_ok_iff.1 hforest).length_eq

/-- Two documents that differ in parentheses alone: either both are refused with one error, or they
    have one result, in which each shows the objects in between that its own parentheses make.  So
    parentheses are without effect unless they come in or go around an object type at the right side
    of an alias. -/
theorem extract_reparenthesized {ds ds' : List Declaration}
    (h : ds'.map Declaration.stripped = ds.map Declaration.stripped) (comments : List Comment) :
    ((∃ e, extract ds comments = .error e ∧ extract ds' comments = .error e) ∨
      ∃ t, extract (ds.map Declaration.stripped) comments = .ok t ∧
        extract ds comments = .ok (t.shown ds) ∧ extract ds' comments = .ok (t.shown ds')) ∧
    (extract ds' comments = extract ds comments ↔
      (∃ e, extract ds comments = .error e) ∨
        ds'.map Declaration.nests = ds.map Declaration.nests) := by
  have hds := extract_eq_shown ds comments
  have hds' := extract_eq_shown ds' comments
  rw [h] at hds'
  cases hstripped : extract (ds.map Declaration.stripped) comments with
  | error e =>
    rw [hstripped] at hds hds'
    exact ⟨Or.inl ⟨e, hds, hds'⟩, iff_of_true (hds'.trans hds.symm) (Or.inl ⟨e, hds⟩)⟩
  | ok t =>
    rw [hstripped] at hds hds'
    refine ⟨Or.inr ⟨t, rfl, hds, hds'⟩, ?_⟩
    have hlength : ds.length = t.declarations.length := by
      rw [← length_extract hstripped, List.length_map]
    have hlength' : ds'.length = t.declarations.length := by
      rw [← hlength]
      simpa using congrArg List.length h
    have herror : ¬ ∃ e, extract ds comments = .error e := by
      rintro ⟨e, he⟩
      exact nomatch hds.symm.trans he
    rw [or_iff_right herror, ← Declaration.shownAll_eq_iff hlength hlength', hds, hds']
    constructor
    · intro heq
      exact congrArg Table.declarations (Except.ok.inj heq)
    · intro heq
      exact congrArg (fun forest => Except.ok (Table.mk forest)) heq

/-- A union in which nothing stands in parentheses, and the same with parentheses around the whole,
    around the arms and around the type of a property. -/
def plainUnion : List Declaration :=
  [.alias ⟨0, 60⟩ "A" (.union ⟨9, 59⟩ [.keyword ⟨10, 16⟩ .string,
    .object ⟨20, 58⟩ [.property ⟨30, 50⟩ (.identifier "a")
      (some (.array ⟨36, 44⟩ (.keyword ⟨36, 42⟩ .number)))]])]

@[inherit_doc plainUnion]
def wrappedUnion : List Declaration :=
  [.alias ⟨0, 60⟩ "A" (.parenthesized ⟨8, 60⟩ (.union ⟨9, 59⟩ [
    .parenthesized ⟨9, 17⟩ (.keyword ⟨10, 16⟩ .string),
    .parenthesized ⟨18, 60⟩ (.parenthesized ⟨19, 59⟩ (.object ⟨20, 58⟩
      [.property ⟨30, 50⟩ (.identifier "a") (some (.parenthesized ⟨34, 46⟩
        (.array ⟨36, 44⟩ (.keyword ⟨36, 42⟩ .number))))]))]))]

theorem extract_reparenthesized_union :
    extract wrappedUnion [] = extract plainUnion [] ∧ ∃ t, extract plainUnion [] = .ok t :=
  ⟨(@extract_reparenthesized plainUnion wrappedUnion rfl []).2.2 (Or.inr rfl),
    _, extract_eq_ok_iff.2 ⟨_, _, [], rfl, rfl, rfl, rfl⟩⟩

/-- The members of an alias, in an object type with parentheses around it. -/
def coveredAlias : Declaration :=
  .alias ⟨0, 30⟩ "A" (.parenthesized ⟨9, 29⟩ (.object ⟨10, 28⟩
    [.property ⟨12, 21⟩ (.identifier "a") (some (.keyword ⟨15, 21⟩ .string))]))

/-- Without the parentheses the member is a child of the alias, and with them it is the child of an
    object in between. -/
theorem extract_coveredAlias :
    ∃ t t', extract [coveredAlias.stripped] [] = .ok t ∧ extract [coveredAlias] [] = .ok t' ∧
      t = ⟨[Node.of "A" .declaration ⟨0, 30⟩ [Node.of "a" .string ⟨12, 21⟩ []]]⟩ ∧
      t' = ⟨[Node.of "A" .declaration ⟨0, 30⟩
        [Node.of "A" .object ⟨0, 30⟩ [Node.of "a" .string ⟨12, 21⟩ []]]]⟩ ∧ t' ≠ t := by
  refine ⟨_, _, extract_eq_ok_iff.2 ⟨_, _, [], rfl, rfl, rfl, rfl⟩,
    extract_eq_ok_iff.2 ⟨_, _, [], rfl, rfl, rfl, rfl⟩, rfl, rfl, fun heq => ?_⟩
  exact absurd (congrArg (fun t => t.nodes.length) heq) (by decide)

end SchemaForest
