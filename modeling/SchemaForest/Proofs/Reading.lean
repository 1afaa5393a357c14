import SchemaForest.Proofs.Slots
import SchemaForest.Proofs.Writing

/-!
# Reading what was written

Every document that writes a source is read as that source (`SourceFile.ofJson_of_written`).

1. A written field leaves to its slot what it holds, so records are read back by the walk along their
   entries (`readPair_of_written`).
2. A node is read in two places, at the root and inside another node.  `Spelled` is what both need
   to know of its object.
3. Every written node is spelled out: its fields hold, one by one, the values that the grammar builds
   the node from (`Spelled.of_written`).  The proofs follow the constructors of the nodes.
-/

namespace SchemaForest

/-! ## Records -/

/-- A written field leaves to its slot what it holds. -/
theorem WrittenField.due {α : Type} {reads : Json → α → Prop} {default? : Option α} {x : α}
    {entries : Entries Json} {f : WrittenField} (h : f.In entries)
    (hreads : ∀ w, f.writes w → reads w x) (hdefault : f.omitted → default? = some x) :
    Due reads default? f.name x entries none := by
  obtain ⟨w, hw, hwrites⟩ | ⟨homitted, hnone⟩ := h
  · exact .inl ⟨w, hw, hreads w hwrites⟩
  · exact .inr ⟨hdefault homitted, hnone⟩

/-- An object with two written fields is read as the record of what they hold. -/
theorem readPair_of_written {α β : Type} {a : Component α} {b : Component β} {x : α} {y : β}
    {f g : WrittenField} {v : Json} (h : v.WritesFields [f, g])
    (hf : f.name = a.name) (hg : g.name = b.name) (hne : a.name ≠ b.name)
    (hx : ∀ w, f.writes w → a.Reads w x) (hx' : f.omitted → a.default? = some x)
    (hy : ∀ w, g.writes w → b.Reads w y) (hy' : g.omitted → b.default? = some y)
    (origin : Origin) (typeName : String) :
    readPair a b origin typeName (Draft.ofJson v) = .ok (x, y) := by
  obtain ⟨entries, rfl, hnodup, hfields⟩ := h
  rw [List.forall_mem_cons, List.forall_mem_singleton] at hfields
  refine readPair_of_due hnodup hne ?_ ?_ origin typeName
  · exact hf ▸ WrittenField.due hfields.1 hx hx'
  · exact hg ▸ WrittenField.due hfields.2 hy hy'

/-- Items that are each read are read as a list. -/
theorem readList_of_forall₂ {α : Type} {read : Draft → Except DecodeError α} {xs : List α}
    {items : List Json} (h : List.Forall₂ (fun x w => read (Draft.ofJson w) = .ok x) xs items) :
    readList read (Draft.ofJson (.array items)) = .ok xs := by
  suffices hitems : ∀ i, readItemsWith read i (Draft.ofItems items) = .ok xs from hitems 0
  induction h with
  | nil => exact fun _ => rfl
  | cons hx _ ih =>
    intro i
    rw [Draft.ofItems, readItemsWith, hx, ih (i + 1)]
    rfl

/-! ## Spans and comments -/

theorem readNatural_integer (n : Nat) : readNatural (Draft.ofJson (.integer n)) = .ok n := by
  rw [Draft.ofJson, readNatural, if_pos (Int.natCast_nonneg n), Int.toNat_natCast]

theorem Span.readSpan_of_written {s : Span} {v : Json} (h : s.Written v) (origin : Origin) :
    readSpan origin (Draft.ofJson v) = .ok s := by
  rw [readSpan, readPair_of_written h rfl rfl (by decide)
    (by rintro _ rfl; exact readNatural_integer s.start) False.elim
    (by rintro _ rfl; exact readNatural_integer s.stop) False.elim]
  rfl

theorem Comment.readComment_of_written {c : Comment} {v : Json} (h : c.Written v)
    (origin : Origin) : readComment origin (Draft.ofJson v) = .ok c := by
  have htext : ∀ w, Comment.TextWritten c.text w →
      readOptionalString (Draft.ofJson w) = .ok c.text := by
    intro w hw
    cases hc : c.text with
    | none => rw [hc] at hw; obtain rfl := hw; rfl
    | some text => rw [hc] at hw; obtain rfl := hw; rfl
  have hspan : ∀ w, c.span.Written w → readSpan origin (Draft.ofJson w) = .ok c.span :=
    fun w hw => Span.readSpan_of_written hw origin
  rw [readComment, readPair_of_written h rfl rfl (show "text" ≠ "span" by decide) htext
    (fun homitted => congrArg some (Eq.symm homitted)) hspan False.elim]
  rfl

/-! ## Nodes -/

/-- The value is an object with the tag of a variant and fields that make the node. -/
def Spelled (f : Family) (node : f.Carrier) (w : Json) : Prop :=
  ∃ entries kind v xs, w = .object entries ∧ (Entries.keys entries).Nodup ∧
    Entries.get? entries "type" = some (.string kind) ∧ f.variantOf kind = .ok v ∧
    Slots.Due entries v.fields (Slots.empty v.fields) xs ∧ v.build xs = node

namespace Spelled

variable {f : Family} {node : f.Carrier} {w : Json}

/-- Inside a node, the tag and the fields are looked up in the same object. -/
theorem ofNamed (h : Spelled f node w) :
    ∃ entries v, w = .object entries ∧ f.variantOfFields entries = .ok v ∧
      v.ofNamed (readNamed entries v.fields (Slots.empty v.fields)) = .ok node := by
  obtain ⟨entries, kind, v, xs, rfl, hnodup, htag, hv, hdue, rfl⟩ := h
  have hfields := (Family.fields_distinct (Family.mem_variants hv)).1
  exact ⟨entries, v, rfl, (Family.variantOfFields_of_tag hnodup htag).trans hv,
    Variant.ofNamed_of_due hfields hnodup hdue⟩

theorem readSort (h : Spelled f node w) : SchemaForest.readSort w (.node f) = .ok node := by
  obtain ⟨entries, v, rfl, hv, hnode⟩ := h.ofNamed
  rw [SchemaForest.readSort, hv]
  exact hnode

theorem readSort_optional (h : Spelled f node w) :
    SchemaForest.readSort w (.optionalNode f) = .ok (some node) := by
  obtain ⟨entries, v, rfl, hv, hnode⟩ := h.ofNamed
  rw [SchemaForest.readSort, hv]
  exact congrArg (Except.map some) hnode

/-- At the root, the tag is taken out before the fields are read. -/
theorem readNode (h : Spelled f node w) :
    SchemaForest.readNode f (Draft.ofJson w) = .ok node := by
  obtain ⟨entries, kind, v, xs, rfl, hnodup, htag, hv, hdue, rfl⟩ := h
  obtain ⟨hfields, htype⟩ := Family.fields_distinct (Family.mem_variants hv)
  have hdue' : Slots.Due (Entries.untagged entries) v.fields (Slots.empty v.fields) xs := by
    refine hdue.congr fun name hname => Entries.get?_untagged ?_
    rintro rfl
    exact htype hname
  have hnodup' : (Entries.keys (Entries.untagged entries)).Nodup :=
    List.Nodup.sublist (List.Sublist.map _ List.filter_sublist) hnodup
  rw [Draft.ofJson, SchemaForest.readNode, readTagged_of_tag hv hnodup htag]
  show ofShape (v.ofNamed (readNamed _ v.fields (Slots.empty v.fields))) = _
  rw [Variant.ofNamed_of_due hfields hnodup' hdue']
  rfl

end Spelled

/-- A written field holds the value of a field of the grammar. -/
structure WrittenField.Holds (f : WrittenField) (g : Field) (x : g.sort.Carrier) : Prop where
  name_eq : f.name = g.name
  reads : ∀ w, f.writes w → readSort w g.sort = .ok x
  default : f.omitted → g.default? = some x

/-- Written fields hold the values of the fields of the grammar one by one. -/
def Values.HeldBy : List WrittenField → (gs : List Field) → Values gs → Prop
  | [], [], _ => True
  | f :: fs, g :: gs, (x, xs) => f.Holds g x ∧ Values.HeldBy fs gs xs
  | _, _, _ => False

theorem Values.HeldBy.due {entries : Entries Json} :
    ∀ {fs : List WrittenField} {gs : List Field} {xs : Values gs}, Values.HeldBy fs gs xs →
      (∀ f ∈ fs, f.In entries) → Slots.Due entries gs (Slots.empty gs) xs
  | [], [], _, _, _ => trivial
  | f :: _, g :: _, (_, _), h, hwritten => by
    refine ⟨?_, due h.2 fun f' hf' => hwritten f' (List.mem_cons_of_mem _ hf')⟩
    rw [← h.1.name_eq]
    exact WrittenField.due (hwritten f List.mem_cons_self) h.1.reads h.1.default

/-- An object of a kind whose fields hold some values spells the node that these make. -/
theorem Spelled.of_written {f : Family} {node : f.Carrier} {kind : String}
    {fs : List WrittenField} {w : Json} (hw : w.WritesNode kind fs) {v : Variant f.Carrier}
    (hv : f.variantOf kind = .ok v) (xs : Values v.fields)
    (hxs : Values.HeldBy fs v.fields xs) (hnode : v.build xs = node) : Spelled f node w := by
  obtain ⟨entries, rfl, hnodup, hfields⟩ := hw
  rw [List.forall_mem_cons] at hfields
  obtain ⟨_, htag, rfl⟩ | ⟨hfalse, -⟩ := hfields.1
  · exact ⟨entries, kind, v, xs, rfl, hnodup, htag, hv, hxs.due hfields.2, hnode⟩
  · exact hfalse.elim

/-! ## Fields that hold no nodes -/

namespace WrittenField

variable {name : String} {omitted : Prop}

theorem holds_text (s : String) :
    Holds (.required name (· = .string s)) (.required name .text) s where
  name_eq := rfl
  reads := by rintro _ rfl; rfl
  default := False.elim

theorem holds_truth (b : Bool) :
    Holds (.required name (· = .bool b)) (.required name .truth) b where
  name_eq := rfl
  reads := by rintro _ rfl; rfl
  default := False.elim

theorem holds_number (x : Double) :
    Holds (.required name (Json.WritesNumber x)) (.required name .number) x where
  name_eq := rfl
  reads := by
    rintro _ (rfl | ⟨i, rfl, rfl⟩)
    · rfl
    · rfl
  default := False.elim

theorem holds_keyword (k : Keyword) :
    Holds (.required name (· = .string k.name)) (.required name .keyword) k where
  name_eq := rfl
  reads := by
    rintro _ rfl
    cases k <;> rfl
  default := False.elim

theorem holds_span {d : Option Span} (s : Span) (hdefault : omitted → d = some s) :
    Holds ⟨name, s.Written, omitted⟩ ⟨name, .span, d⟩ s where
  name_eq := rfl
  reads w hw := by
    have hplain : readSort w .span = readNodeSpan w := by
      obtain ⟨entries, rfl, -⟩ := hw
      rfl
    rw [hplain, readNodeSpan, Span.readSpan_of_written hw .node]
  default := hdefault

/-- A value other than `null` is kept. -/
theorem readSort_optionalJson {w : Json} (h : w ≠ .null) :
    readSort w .optionalJson = .ok (some w.collapse) := by
  cases w with
  | null => exact absurd rfl h
  | array items => cases items <;> rfl
  | _ => rfl

theorem holds_parameters (p : Option Json) :
    Holds ⟨name, Json.WritesOptional p, p = none⟩ ⟨name, .optionalJson, some none⟩ p where
  name_eq := rfl
  reads w hw := by
    cases p with
    | none => obtain rfl := hw; rfl
    | some v =>
      obtain ⟨rfl, hnull, hdistinct⟩ := hw
      rw [readSort_optionalJson hnull, Json.collapse_of_distinct hdistinct]
  default := fun h => congrArg some h.symm

/-! ## Fields that hold nodes -/

variable {f : Family} {writes : Json → Prop}

theorem holds_node {x : f.Carrier} (h : ∀ w, writes w → Spelled f x w) :
    Holds (.required name writes) (.required name (.node f)) x where
  name_eq := rfl
  reads w hw := (h w hw).readSort
  default := False.elim

theorem holds_some {x : f.Carrier} {d : Option (Option f.Carrier)}
    (h : ∀ w, writes w → Spelled f x w) :
    Holds (.required name writes) ⟨name, .optionalNode f, d⟩ (some x) where
  name_eq := rfl
  reads w hw := (h w hw).readSort_optional
  default := False.elim

theorem holds_none : Holds ⟨name, (· = .null), True⟩ ⟨name, .optionalNode f, some none⟩ none where
  name_eq := rfl
  reads := by rintro _ rfl; rfl
  default _ := rfl

theorem holds_nodes {xs : List f.Carrier} {all : List Json → Prop} {d : Option (List f.Carrier)}
    (h : ∀ items, all items → readAll items f = .ok xs) (hdefault : omitted → d = some xs) :
    Holds ⟨name, Json.WritesItems all, omitted⟩ ⟨name, .nodes f, d⟩ xs where
  name_eq := rfl
  reads := by
    rintro _ ⟨items, rfl, hall⟩
    have hitems : readSort (.array items) (.nodes f) = readAll items f := by cases items <;> rfl
    rw [hitems, h items hall]
  default := hdefault

end WrittenField

/-- The span of a node is held by its field. -/
theorem Span.holds_field (s : Span) : s.field.Holds Family.spanField s :=
  WrittenField.holds_span s False.elim

/-! ## Names and literals -/

open WrittenField

theorem Literal.spelled {l : Literal} {w : Json} (h : l.Written w) : Spelled .literal l w := by
  cases l with
  | string s => exact .of_written h rfl (s, ()) ⟨holds_text s, trivial⟩ rfl
  | number x => exact .of_written h rfl (x, ()) ⟨holds_number x, trivial⟩ rfl
  | boolean b => exact .of_written h rfl (b, ()) ⟨holds_truth b, trivial⟩ rfl
  | bigint s => exact .of_written h rfl (s, ()) ⟨holds_text s, trivial⟩ rfl
  | template => exact .of_written h rfl () trivial rfl

theorem TypeName.spelled {n : TypeName} {w : Json} (h : n.Written w) :
    Spelled .typeName n w := by
  induction n generalizing w with
  | identifier n => exact .of_written h rfl (n, ()) ⟨holds_text n, trivial⟩ rfl
  | qualified left right ih =>
    have hleft : ∀ w, left.Written w → Spelled .typeName left w := fun _ hleft => ih hleft
    exact .of_written h rfl (left, right, ()) ⟨holds_node hleft, holds_text right, trivial⟩ rfl

theorem PropertyKey.spelled {k : PropertyKey} {w : Json} (h : k.Written w) :
    Spelled .propertyKey k w := by
  cases k with
  | identifier n => exact .of_written h rfl (n, ()) ⟨holds_text n, trivial⟩ rfl
  | string s => exact .of_written h rfl (s, ()) ⟨holds_text s, trivial⟩ rfl
  | number x => exact .of_written h rfl (x, ()) ⟨holds_number x, trivial⟩ rfl
  | computed => exact .of_written h rfl () trivial rfl

/-! ## Types and members -/

mutual
theorem TypeNode.spelled : ∀ {t : TypeNode} {w : Json}, t.Written w → Spelled .typeNode t w
  | .keyword s k, _, h => by
    exact .of_written h rfl (s, k, ()) ⟨s.holds_field, holds_keyword k, trivial⟩ rfl
  | .array s element, _, h => by
    have helement : ∀ w, element.Written w → Spelled .typeNode element w :=
      fun _ helement => TypeNode.spelled helement
    exact .of_written h rfl (s, element, ()) ⟨s.holds_field, holds_node helement, trivial⟩ rfl
  | .object s members, _, h => by
    have hmembers : ∀ items, TypeMember.AllWritten members items →
        readAll items .typeMember = .ok members := fun _ hall => TypeMember.readAll_of_written hall
    exact .of_written h rfl (s, members, ())
      ⟨s.holds_field, holds_nodes hmembers fun hnil => congrArg some hnil.symm, trivial⟩ rfl
  | .union s arms, _, h => by
    have harms : ∀ items, TypeNode.AllWritten arms items → readAll items .typeNode = .ok arms :=
      fun _ hall => TypeNode.readAll_of_written hall
    exact .of_written h rfl (s, arms, ())
      ⟨s.holds_field, holds_nodes harms False.elim, trivial⟩ rfl
  | .intersection s parts, _, h => by
    have hparts : ∀ items, TypeNode.AllWritten parts items → readAll items .typeNode = .ok parts :=
      fun _ hall => TypeNode.readAll_of_written hall
    exact .of_written h rfl (s, parts, ())
      ⟨s.holds_field, holds_nodes hparts False.elim, trivial⟩ rfl
  | .parenthesized s inner, _, h => by
    have hinner : ∀ w, inner.Written w → Spelled .typeNode inner w :=
      fun _ hinner => TypeNode.spelled hinner
    exact .of_written h rfl (s, inner, ()) ⟨s.holds_field, holds_node hinner, trivial⟩ rfl
  | .literal s l, _, h => by
    exact .of_written h rfl (s, l, ())
      ⟨s.holds_field, holds_node fun _ hl => Literal.spelled hl, trivial⟩ rfl
  | .reference s n p, _, h => by
    exact .of_written h rfl (s, n, p, ())
      ⟨s.holds_field, holds_node fun _ hn => TypeName.spelled hn, holds_parameters p, trivial⟩ rfl
  | .foreign s kind, _, h => by
    have hkind : Family.variantOf .typeNode kind.kindName =
        .ok ⟨kind.kindName, [Family.spanField], fun (s, ()) => .foreign s kind⟩ := by
      cases kind <;> rfl
    exact .of_written h hkind (s, ()) ⟨s.holds_field, trivial⟩ rfl

theorem TypeNode.readAll_of_written : ∀ {ts : List TypeNode} {items : List Json},
    TypeNode.AllWritten ts items → readAll items .typeNode = .ok ts
  | [], [], _ => rfl
  | t :: ts, v :: vs, h => by
    rw [readAll, (TypeNode.spelled h.1).readSort, TypeNode.readAll_of_written h.2]
    rfl

theorem TypeMember.spelled : ∀ {m : TypeMember} {w : Json},
    m.Written w → Spelled .typeMember m w
  | .property s key none, _, h => by
    exact .of_written h rfl (s, key, none, ())
      ⟨s.holds_field, holds_node fun _ hkey => PropertyKey.spelled hkey, holds_none, trivial⟩ rfl
  | .property s key (some t), _, h => by
    have ht : ∀ w, t.Written w → Spelled .typeNode t w := fun _ ht => TypeNode.spelled ht
    exact .of_written h rfl (s, key, some t, ())
      ⟨s.holds_field, holds_node fun _ hkey => PropertyKey.spelled hkey, holds_some ht, trivial⟩
      rfl
  | .foreign s kind, _, h => by
    have hkind : Family.variantOf .typeMember kind.kindName =
        .ok ⟨kind.kindName, [Family.spanField], fun (s, ()) => .foreign s kind⟩ := by
      cases kind <;> rfl
    exact .of_written h hkind (s, ()) ⟨s.holds_field, trivial⟩ rfl

theorem TypeMember.readAll_of_written : ∀ {ms : List TypeMember} {items : List Json},
    TypeMember.AllWritten ms items → readAll items .typeMember = .ok ms
  | [], [], _ => rfl
  | m :: ms, v :: vs, h => by
    rw [readAll, (TypeMember.spelled h.1).readSort, TypeMember.readAll_of_written h.2]
    rfl
end

/-! ## Declarations and sources -/

theorem Declaration.spelled {d : Declaration} {w : Json} (h : d.Written w) :
    Spelled .declaration d w := by
  induction d generalizing w with
  | interface s n members =>
    have hmembers : ∀ items, TypeMember.AllWritten members items →
        readAll items .typeMember = .ok members := fun _ hall => TypeMember.readAll_of_written hall
    exact .of_written h rfl (s, n, members, ()) ⟨s.holds_field, holds_text n,
      holds_nodes hmembers fun hnil => congrArg some hnil.symm, trivial⟩ rfl
  | «alias» s n t =>
    exact .of_written h rfl (s, n, t, ()) ⟨s.holds_field, holds_text n,
      holds_node fun _ ht => TypeNode.spelled ht, trivial⟩ rfl
  | exported s inner ih =>
    have hinner : ∀ w, inner.Written w → Spelled .declaration inner w := fun _ hinner => ih hinner
    exact .of_written h rfl (s, inner, ()) ⟨holds_span s fun hzero => congrArg some hzero.symm,
      holds_node hinner, trivial⟩ rfl

/-- A document that writes a source is read as that source, whatever the order of its fields,
    whatever else its objects hold, and whichever defaults are left out.  A source with type parameters
    `some .null` is written by no document, because `null` stands for `none` there. -/
theorem SourceFile.ofJson_of_written {f : SourceFile} {v : Json} (h : f.Written v) :
    SourceFile.ofJson v = .ok f := by
  have hdeclarations : ∀ w, Json.WritesItems (List.Forall₂ Declaration.Written f.declarations) w →
      readList (readNode .declaration) (Draft.ofJson w) = .ok f.declarations := by
    rintro _ ⟨items, rfl, hall⟩
    exact readList_of_forall₂ (hall.imp fun _ _ hd => (Declaration.spelled hd).readNode)
  have hcomments : ∀ w, Json.WritesItems (List.Forall₂ Comment.Written f.comments) w →
      readList (readComment .value) (Draft.ofJson w) = .ok f.comments := by
    rintro _ ⟨items, rfl, hall⟩
    exact readList_of_forall₂ (hall.imp fun _ _ hc => Comment.readComment_of_written hc .value)
  rw [SourceFile.ofJson, readSource, readPair_of_written h rfl rfl
    (show "declarations" ≠ "comments" by decide) hdeclarations False.elim hcomments
    (fun hnil => congrArg some hnil.symm)]
  rfl

/-- An exported interface without a body whose tags come last, with the defaults of the export, the
    body and the text of a comment left out and a name that no source has. -/
theorem SourceFile.ofJson_of_written_shuffled :
    let start : Json := .object [("end", .integer 9), ("start", .integer 0)]
    let inner : Json := .object
      [("id", .string "A"), ("span", start), ("type", .string "TsInterfaceDeclaration")]
    let v : Json := .object
      [("version", .integer 2), ("comments", .array [.object [("span", start)]]),
        ("declarations", .array
          [.object [("declaration", inner), ("type", .string "ExportDeclaration")]])]
    let f : SourceFile := ⟨[.exported ⟨0, 0⟩ (.interface ⟨0, 9⟩ "A" [])], [⟨none, ⟨0, 9⟩⟩]⟩
    f.Written v ∧ SourceFile.ofJson v = .ok f := by
  intro start inner v f
  have hspan : Span.Written ⟨0, 9⟩ start := by
    refine ⟨_, rfl, by decide, ?_⟩
    rw [List.forall_mem_cons, List.forall_mem_singleton]
    exact ⟨.inl ⟨_, rfl, rfl⟩, .inl ⟨_, rfl, rfl⟩⟩
  have hinner : Declaration.Written (.interface ⟨0, 9⟩ "A" []) inner := by
    refine ⟨_, rfl, by decide, ?_⟩
    rw [List.forall_mem_cons, List.forall_mem_cons, List.forall_mem_cons, List.forall_mem_singleton]
    exact ⟨.inl ⟨_, rfl, rfl⟩, .inl ⟨_, rfl, hspan⟩, .inl ⟨_, rfl, rfl⟩, .inr ⟨rfl, rfl⟩⟩
  have houter : Declaration.Written (.exported ⟨0, 0⟩ (.interface ⟨0, 9⟩ "A" []))
      (.object [("declaration", inner), ("type", .string "ExportDeclaration")]) := by
    refine ⟨_, rfl, by decide, ?_⟩
    rw [List.forall_mem_cons, List.forall_mem_cons, List.forall_mem_singleton]
    exact ⟨.inl ⟨_, rfl, rfl⟩, .inr ⟨rfl, rfl⟩, .inl ⟨_, rfl, hinner⟩⟩
  have hcomment : Comment.Written ⟨none, ⟨0, 9⟩⟩ (.object [("span", start)]) := by
    refine ⟨_, rfl, by decide, ?_⟩
    rw [List.forall_mem_cons, List.forall_mem_singleton]
    exact ⟨.inr ⟨rfl, rfl⟩, .inl ⟨_, rfl, hspan⟩⟩
  have hfile : f.Written v := by
    refine ⟨_, rfl, by decide, ?_⟩
    rw [List.forall_mem_cons, List.forall_mem_singleton]
    exact ⟨.inl ⟨_, rfl, _, rfl, .cons houter .nil⟩, .inl ⟨_, rfl, _, rfl, .cons hcomment .nil⟩⟩
  exact ⟨hfile, SourceFile.ofJson_of_written hfile⟩

end SchemaForest
