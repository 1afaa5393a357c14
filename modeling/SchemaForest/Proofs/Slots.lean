import SchemaForest.Ast.Document
import SchemaForest.Proofs.DistinctNames

/-!
# Filling the slots of fields

A reader of fields goes along the entries of an object and fills one slot for each field.  Where names
differ, neither the order of the entries nor names that are no fields matter.

1. What is `Due` to a slot is the invariant of that walk: a filled slot holds what it should and its
   name does not come again; an open one will be filled by a later entry, or its default is right.
2. An entry does to the slot of its own name what `Due.fill` says and to all others what `Due.pass`
   says.
3. Records and nodes walk along the same entries, so the invariant serves both (`readPair_of_due`,
   `Variant.ofNamed_of_due`).
4. The tag of a node is one more entry.  Inside a node it is looked up and passed over, at the root it
   is taken out before the fields are read (`readTagged_of_tag`).
-/

namespace SchemaForest

/-! ## One slot -/

/-- What the entries still hold for a slot that has to end up with `x`. -/
def Due {α : Type} (reads : Json → α → Prop) (default? : Option α) (name : String) (x : α)
    (entries : Entries Json) : Option α → Prop
  | some z => z = x ∧ Entries.get? entries name = none
  | none => (∃ w, Entries.get? entries name = some w ∧ reads w x) ∨
      (default? = some x ∧ Entries.get? entries name = none)

namespace Due

variable {α : Type} {reads : Json → α → Prop} {default? : Option α} {name : String} {x : α}
  {slot : Option α}

/-- At the end of the entries the slot, or else the default, has the value. -/
theorem close (h : Due reads default? name x [] slot) : slot.or default? = some x := by
  cases slot with
  | some z => rw [h.1, Option.some_or]
  | none =>
    obtain ⟨w, hw, -⟩ | ⟨hdefault, -⟩ := h
    · cases hw
    · rw [Option.none_or, hdefault]

/-- Only what stands under the name counts. -/
theorem congr {entries entries' : Entries Json}
    (hname : Entries.get? entries' name = Entries.get? entries name)
    (h : Due reads default? name x entries slot) : Due reads default? name x entries' slot := by
  cases slot <;> simpa only [Due, hname] using h

/-- An entry of another name changes nothing. -/
theorem pass {key : String} {w : Json} {rest : Entries Json} (hne : name ≠ key)
    (h : Due reads default? name x ((key, w) :: rest) slot) :
    Due reads default? name x rest slot := by
  have hrest : Entries.get? ((key, w) :: rest) name = Entries.get? rest name := by
    rw [Entries.get?_cons, if_neg hne]
  exact h.congr hrest.symm

/-- The entry of the slot's own name finds it open and fills it. -/
theorem fill {w : Json} {rest : Entries Json} (hnew : name ∉ Entries.keys rest)
    (h : Due reads default? name x ((name, w) :: rest) slot) :
    slot = none ∧ reads w x ∧ Due reads default? name x rest (some x) := by
  have hhere : Entries.get? ((name, w) :: rest) name = some w := by
    rw [Entries.get?_cons, if_pos rfl]
  cases slot with
  | some z => exact absurd (hhere.symm.trans h.2) (Option.some_ne_none w)
  | none =>
    obtain ⟨w', hw', hread⟩ | ⟨-, hnone⟩ := h
    · obtain rfl : w = w' := Option.some.inj (hhere.symm.trans hw')
      exact ⟨rfl, hread, rfl, Entries.get?_eq_none_iff.2 hnew⟩
    · exact absurd (hhere.symm.trans hnone) (Option.some_ne_none w)

end Due

/-! ## Records -/

/-- The component reads a value as `x`. -/
abbrev Component.Reads {α : Type} (c : Component α) (w : Json) (x : α) : Prop :=
  c.read (Draft.ofJson w) = .ok x

section Pair

variable {α β : Type} {a : Component α} {b : Component β} {x : α} {y : β}

/-- Along the entries, both slots of a record get what is due to them. -/
theorem pairFields_of_due {entries : Entries Json} (hnodup : (Entries.keys entries).Nodup)
    (hne : a.name ≠ b.name) {x? : Option α} {y? : Option β}
    (hx : Due a.Reads a.default? a.name x entries x?)
    (hy : Due b.Reads b.default? b.name y entries y?) :
    ∃ x' y', pairFields a b x? y? (Draft.ofFields entries) = .ok (x', y') ∧
      x'.or a.default? = some x ∧ y'.or b.default? = some y := by
  induction entries generalizing x? y? with
  | nil => exact ⟨x?, y?, rfl, hx.close, hy.close⟩
  | cons p rest ih =>
    obtain ⟨name, w⟩ := p
    obtain ⟨hnew, hrest⟩ := List.nodup_cons.1 hnodup
    rw [Draft.ofFields, pairFields]
    by_cases ha : name = a.name
    · subst ha
      obtain ⟨rfl, hread, hx'⟩ := hx.fill hnew
      rw [if_pos rfl, Option.isSome_none, if_neg Bool.false_ne_true, hread]
      exact ih hrest hx' (hy.pass (Ne.symm hne))
    · rw [if_neg ha]
      have hx' := hx.pass (Ne.symm ha)
      by_cases hb : name = b.name
      · subst hb
        obtain ⟨rfl, hread, hy'⟩ := hy.fill hnew
        rw [if_pos rfl, Option.isSome_none, if_neg Bool.false_ne_true, hread]
        exact ih hrest hx' hy'
      · rw [if_neg hb]
        exact ih hrest hx' (hy.pass (Ne.symm hb))

theorem readPair_of_due {entries : Entries Json} (hnodup : (Entries.keys entries).Nodup)
    (hne : a.name ≠ b.name) (hx : Due a.Reads a.default? a.name x entries none)
    (hy : Due b.Reads b.default? b.name y entries none) (origin : Origin) (typeName : String) :
    readPair a b origin typeName (Draft.ofJson (.object entries)) = .ok (x, y) := by
  obtain ⟨x', y', hread, hx', hy'⟩ := pairFields_of_due hnodup hne hx hy
  rw [Draft.ofJson, readPair, hread]
  show (orDefault a _ x' >>= fun x => orDefault b _ y' >>= fun y => Except.ok (x, y)) = _
  rw [orDefault, hx', orDefault, hy']
  rfl

end Pair

/-! ## The fields of a node -/

/-- What the entries still hold for the slots that have to end up with `xs`. -/
def Slots.Due (entries : Entries Json) : (fs : List Field) → Slots fs → Values fs → Prop
  | [], _, _ => True
  | f :: fs, (slot, slots), (x, xs) =>
    SchemaForest.Due (fun w x => readSort w f.sort = .ok x) f.default? f.name x entries slot ∧
      Slots.Due entries fs slots xs

namespace Slots.Due

theorem close : ∀ {fs : List Field} {slots : Slots fs} {xs : Values fs},
    Slots.Due [] fs slots xs → ∀ (missing : Nat → String → ShapeError) (place : Nat),
    slots.complete missing place fs = .ok xs
  | [], _, _, _, _, _ => rfl
  | _ :: _, (_, _), (_, _), h, missing, place => by
    rw [Slots.complete, h.1.close]
    show (Slots.complete missing (place + 1) _ _).map _ = _
    rw [close h.2 missing (place + 1)]
    rfl

/-- An entry that is none of the fields changes nothing. -/
theorem pass {name : String} {w : Json} {rest : Entries Json} :
    ∀ {fs : List Field} {slots : Slots fs} {xs : Values fs}, name ∉ fs.map Field.name →
      Slots.Due ((name, w) :: rest) fs slots xs → Slots.Due rest fs slots xs
  | [], _, _, _, _ => trivial
  | _ :: _, (_, _), (_, _), hnew, h => by
    rw [List.map_cons, List.mem_cons, not_or] at hnew
    exact ⟨h.1.pass (Ne.symm hnew.1), pass hnew.2 h.2⟩

/-- Only what stands under the names of the fields counts. -/
theorem congr {entries entries' : Entries Json} :
    ∀ {fs : List Field} {slots : Slots fs} {xs : Values fs},
      (∀ name ∈ fs.map Field.name, Entries.get? entries' name = Entries.get? entries name) →
      Slots.Due entries fs slots xs → Slots.Due entries' fs slots xs
  | [], _, _, _, _ => trivial
  | _ :: _, (_, _), (_, _), hnames, h =>
    ⟨h.1.congr (hnames _ List.mem_cons_self),
      congr (fun name hname => hnames name (List.mem_cons_of_mem _ hname)) h.2⟩

/-- An entry is offered to the slots with success. -/
theorem offer {name : String} {w : Json} {rest : Entries Json}
    (hnew : name ∉ Entries.keys rest) :
    ∀ {fs : List Field} {slots : Slots fs} {xs : Values fs}, (fs.map Field.name).Nodup →
      Slots.Due ((name, w) :: rest) fs slots xs →
      ∃ slots', Slots.offer (fun s => readSort w s) name fs slots = .ok slots' ∧
        Slots.Due rest fs slots' xs
  | [], _, _, _, _ => ⟨(), rfl, trivial⟩
  | f :: fs, (slot, slots), (x, xs), hnodup, h => by
    obtain ⟨hf, hfs⟩ := List.nodup_cons.1 hnodup
    by_cases hname : f.name = name
    · subst hname
      obtain ⟨rfl, hread, hslot⟩ := h.1.fill hnew
      refine ⟨(some x, slots), ?_, hslot, h.2.pass hf⟩
      show (if f.name = f.name then (readSort w f.sort).map _ else _) = _
      rw [if_pos rfl, hread]
      rfl
    · obtain ⟨slots', hoffer, hdue⟩ := offer hnew hfs h.2
      refine ⟨(slot, slots'), ?_, h.1.pass hname, hdue⟩
      show (if f.name = name then _ else (Slots.offer _ name fs slots).map _) = _
      rw [if_neg hname, hoffer]
      rfl

end Slots.Due

/-- Along the entries, all slots of a node get what is due to them. -/
theorem readNamed_of_due {fs : List Field} (hfs : (fs.map Field.name).Nodup) {xs : Values fs}
    {entries : Entries Json} (hnodup : (Entries.keys entries).Nodup) {slots : Slots fs}
    (h : Slots.Due entries fs slots xs) :
    ∃ slots', readNamed entries fs slots = .ok slots' ∧
      ∀ missing place, slots'.complete missing place fs = .ok xs := by
  induction entries generalizing slots with
  | nil => exact ⟨slots, by rw [readNamed], h.close⟩
  | cons p rest ih =>
    obtain ⟨name, w⟩ := p
    obtain ⟨hnew, hrest⟩ := List.nodup_cons.1 hnodup
    obtain ⟨slots', hoffer, hdue⟩ := h.offer hnew hfs
    rw [readNamed, hoffer]
    exact ih hrest hdue

/-! ## Variants and tags -/

theorem Family.mem_variants {f : Family} {kind : String} {v : Variant f.Carrier}
    (h : f.variantOf kind = .ok v) : v ∈ f.variants := by
  rw [Family.variantOf] at h
  cases hfind : f.variants.find? (·.name == kind) with
  | none => rw [hfind] at h; cases h
  | some u =>
    rw [hfind] at h
    obtain rfl := Except.ok.inj h
    exact List.mem_of_find?_eq_some hfind

/-- The fields of a variant have different names, and none has the name of the tag. -/
theorem Family.fields_distinct {f : Family} {v : Variant f.Carrier} (hv : v ∈ f.variants) :
    (v.fields.map Field.name).Nodup ∧ "type" ∉ v.fields.map Field.name := by
  revert v
  cases f <;> decide

/-- The only tag of an object decides its variant. -/
theorem Family.variantOfFields_of_tag {f : Family} {entries : Entries Json}
    (hnodup : (Entries.keys entries).Nodup) {kind : String}
    (htag : Entries.get? entries "type" = some (.string kind)) :
    f.variantOfFields entries = f.variantOf kind := by
  rw [Family.variantOfFields, Entries.filter_key hnodup htag]
  rfl

/-- The entries that are not the tag. -/
def Entries.untagged (m : Entries Json) : Entries Json := m.filter (·.1 != "type")

theorem Entries.get?_untagged {m : Entries Json} {name : String} (hname : name ≠ "type") :
    Entries.get? (Entries.untagged m) name = Entries.get? m name := by
  induction m with
  | nil => rfl
  | cons p rest ih =>
    obtain ⟨key, w⟩ := p
    rw [Entries.get?_cons]
    by_cases hkey : key = "type"
    · have hne : name ≠ key := fun heq => hname (heq.trans hkey)
      rw [if_neg hne, ← ih, Entries.untagged, List.filter_cons_of_neg (by simp [hkey])]
      rfl
    · rw [Entries.untagged, List.filter_cons_of_pos (by simp [hkey]), Entries.get?_cons]
      show (if name = key then _ else Entries.get? (Entries.untagged rest) name) = _
      rw [ih]

/-- Behind the tag, the other fields are taken as they are. -/
theorem readTagged_some {f : Family} {v : Variant f.Carrier} {entries : Entries Json}
    (h : "type" ∉ Entries.keys entries) :
    readTagged f (some v) (Draft.ofFields entries) = .ok (some v, entries) := by
  induction entries with
  | nil => rfl
  | cons p rest ih =>
    obtain ⟨name, w⟩ := p
    rw [Entries.keys, List.map_cons, List.mem_cons, not_or] at h
    rw [Draft.ofFields, readTagged, if_neg (Ne.symm h.1), Draft.content_ofJson,
      readTagged.liftSyntax, ih h.2]
    rfl

/-- The tag of an object and its other fields. -/
theorem readTagged_of_tag {f : Family} {kind : String} {v : Variant f.Carrier}
    (hv : f.variantOf kind = .ok v) {entries : Entries Json}
    (hnodup : (Entries.keys entries).Nodup)
    (h : Entries.get? entries "type" = some (.string kind)) :
    readTagged f none (Draft.ofFields entries) = .ok (some v, Entries.untagged entries) := by
  induction entries with
  | nil => cases h
  | cons p rest ih =>
    obtain ⟨name, w⟩ := p
    obtain ⟨hnew, hrest⟩ := List.nodup_cons.1 hnodup
    rw [Entries.get?_cons] at h
    rw [Draft.ofFields, readTagged]
    by_cases hname : "type" = name
    · subst hname
      rw [if_pos rfl] at h
      obtain rfl := Option.some.inj h
      have huntagged : Entries.untagged (("type", Json.string kind) :: rest) = rest := by
        rw [Entries.untagged, List.filter_cons_of_neg (by simp), List.filter_eq_self]
        intro q hq
        exact bne_iff_ne.2 fun heq => hnew (List.mem_map.2 ⟨q, hq, heq⟩)
      rw [if_pos rfl, Option.isSome_none, if_neg Bool.false_ne_true, Draft.ofJson, readRootTag, hv,
        huntagged]
      exact readTagged_some hnew
    · rw [if_neg hname] at h
      have huntagged : Entries.untagged ((name, w) :: rest) = (name, w) :: Entries.untagged rest :=
        List.filter_cons_of_pos (bne_iff_ne.2 (Ne.symm hname))
      rw [if_neg (Ne.symm hname), Draft.content_ofJson, readTagged.liftSyntax, ih hrest h,
        huntagged]
      rfl

/-- A variant whose slots are due the values of a node is read as that node. -/
theorem Variant.ofNamed_of_due {α : Type} {v : Variant α} (hv : (v.fields.map Field.name).Nodup)
    {entries : Entries Json} (hnodup : (Entries.keys entries).Nodup) {xs : Values v.fields}
    (h : Slots.Due entries v.fields (Slots.empty v.fields) xs) :
    v.ofNamed (readNamed entries v.fields (Slots.empty v.fields)) = .ok (v.build xs) := by
  obtain ⟨slots, hread, hcomplete⟩ := readNamed_of_due hv hnodup h
  rw [hread, Variant.ofNamed]
  show (Slots.complete _ 0 v.fields slots >>= fun values => Except.ok (v.build values)) = _
  rw [hcomplete]
  rfl

end SchemaForest
