import SchemaForest.Proofs.Fallible
import SchemaForest.Proofs.Reading

/-!
# Documents element by element

A document has two lists, and decoding it is decoding their elements, each as if it stood alone.

1. **Elements** are judged by `elementFault?`, which decodes one value and looks at nothing around it.
   `FirstFault` tells the first element that fails from these judgements: the names of the object in
   their order, and the elements of a list in theirs.
2. **Readers stop there.**  A list stops at its first element that cannot be read
   (`readItemsWith_of_fault`), and a record at its first such field (`pairFields_of_fault`).  Both put
   one step in front of the place that the fault has in the element, and change nothing else of it.
3. **Either there is a first fault or there is none** (`exists_firstFault`), and without one the fields
   are due their lists, whatever the order of the names.
-/

namespace SchemaForest

open Fallible

/-- The comment that a value describes. -/
def Comment.ofJson (v : Json) : Except DecodeError Comment := readComment .value (Draft.ofJson v)

/-- Why an element of the list under a name cannot be decoded on its own, if it cannot. -/
def elementFault? (key : String) (v : Json) : Option DecodeError :=
  if key = "declarations" then error? (Family.declaration.ofJson v)
  else if key = "comments" then error? (Comment.ofJson v)
  else none

/-- The `i`-th element under a name is the first that cannot be decoded: all lists under the names in
    front are in order, and so are the elements in front of it. -/
inductive FirstFault (fields : Entries Json) (key : String) (i : Nat) (fault : DecodeError) : Prop
  | intro {front back : Entries Json} {items before after : List Json} {v : Json}
    (split : fields = front ++ (key, .array items) :: back)
    (front_ok : ∀ name ws, (name, Json.array ws) ∈ front → ∀ w ∈ ws, elementFault? name w = none)
    (split_items : items = before ++ v :: after) (length_before : before.length = i)
    (before_ok : ∀ w ∈ before, elementFault? key w = none)
    (fault_v : elementFault? key v = some fault)

/-- Why the first element of the list under a name that cannot be decoded cannot. -/
def listFault? : String × Json → Option DecodeError
  | (name, .array items) => items.findSome? (elementFault? name)
  | _ => none

theorem listFault?_eq_none_iff {name : String} {items : List Json} :
    listFault? (name, .array items) = none ↔ ∀ v ∈ items, elementFault? name v = none :=
  List.findSome?_eq_none_iff

/-- If not all elements under some names can be decoded, there is a first one that cannot. -/
theorem exists_firstFault {fields : Entries Json}
    (h : ¬ ∀ name ws, (name, Json.array ws) ∈ fields → ∀ w ∈ ws, elementFault? name w = none) :
    ∃ key i fault, FirstFault fields key i fault := by
  cases hfields : fields.findSome? listFault? with
  | none =>
    rw [List.findSome?_eq_none_iff] at hfields
    exact absurd (fun name ws hmem => listFault?_eq_none_iff.1 (hfields _ hmem)) h
  | some fault =>
    obtain ⟨front, ⟨key, value⟩, back, hsplit, hvalue, hfront⟩ :=
      List.findSome?_eq_some_iff.1 hfields
    cases value with
    | array items =>
      obtain ⟨before, v, after, hitems, hv, hbefore⟩ := List.findSome?_eq_some_iff.1 hvalue
      exact ⟨key, before.length, fault, .intro hsplit
        (fun name ws hmem => listFault?_eq_none_iff.1 (hfront _ hmem)) hitems rfl hbefore hv⟩
    | _ => cases hvalue

/-! ## Readers up to a fault -/

/-- A list stops at its first element that cannot be read. -/
theorem readItemsWith_of_fault {α : Type} {read : Draft → Except DecodeError α} {before : List Json}
    {v : Json} {fault : DecodeError} (hbefore : ∀ w ∈ before, ∃ x, read (Draft.ofJson w) = .ok x)
    (hv : read (Draft.ofJson v) = .error fault) (after : List Json) (i : Nat) :
    readItemsWith read i (Draft.ofItems (before ++ v :: after)) =
      .error ⟨.index (i + before.length) :: fault.path, fault.cause⟩ := by
  induction before generalizing i with
  | nil =>
    rw [List.nil_append, Draft.ofItems, readItemsWith, hv]
    rfl
  | cons w before ih =>
    obtain ⟨⟨x, hx⟩, hrest⟩ := List.forall_mem_cons.1 hbefore
    rw [List.cons_append, Draft.ofItems, readItemsWith, hx, ih hrest (i + 1), List.length_cons,
      Nat.add_comm before.length, ← Nat.add_assoc]
    rfl

section Pair

variable {α β : Type} {a : Component α} {b : Component β}

/-- A record stops at its first field that cannot be read, if names differ and the slots of what is to
    come are open. -/
theorem pairFields_of_fault {front back : Entries Json} {key : String} {w : Json}
    {fault : DecodeError} (hne : a.name ≠ b.name)
    (hnodup : (Entries.keys (front ++ (key, w) :: back)).Nodup)
    (ha : ∀ u, (a.name, u) ∈ front → ∃ x, a.Reads u x)
    (hb : ∀ u, (b.name, u) ∈ front → ∃ y, b.Reads u y)
    (hfault : key = a.name ∧ a.read (Draft.ofJson w) = .error fault ∨
      key = b.name ∧ b.read (Draft.ofJson w) = .error fault)
    {x? : Option α} {y? : Option β}
    (hx : a.name ∈ Entries.keys (front ++ (key, w) :: back) → x? = none)
    (hy : b.name ∈ Entries.keys (front ++ (key, w) :: back) → y? = none) :
    pairFields a b x? y? (Draft.ofFields (front ++ (key, w) :: back)) =
      .error ⟨.key key :: fault.path, fault.cause⟩ := by
  induction front generalizing x? y? with
  | nil =>
    rw [List.nil_append] at hx hy ⊢
    rw [Draft.ofFields, pairFields]
    rcases hfault with ⟨rfl, hread⟩ | ⟨rfl, hread⟩
    · rw [if_pos rfl, hx List.mem_cons_self, Option.isSome_none, if_neg Bool.false_ne_true, hread]
      rfl
    · rw [if_neg (Ne.symm hne), if_pos rfl, hy List.mem_cons_self, Option.isSome_none,
        if_neg Bool.false_ne_true, hread]
      rfl
  | cons p front ih =>
    obtain ⟨name, u⟩ := p
    obtain ⟨hnew, hrest⟩ := List.nodup_cons.1 hnodup
    have ha' : ∀ u, (a.name, u) ∈ front → ∃ x, a.Reads u x := fun u hu =>
      ha u (List.mem_cons_of_mem _ hu)
    have hb' : ∀ u, (b.name, u) ∈ front → ∃ y, b.Reads u y := fun u hu =>
      hb u (List.mem_cons_of_mem _ hu)
    have hx' : a.name ∈ Entries.keys (front ++ (key, w) :: back) → x? = none := fun hmem =>
      hx (List.mem_cons_of_mem _ hmem)
    have hy' : b.name ∈ Entries.keys (front ++ (key, w) :: back) → y? = none := fun hmem =>
      hy (List.mem_cons_of_mem _ hmem)
    rw [List.cons_append, Draft.ofFields, pairFields]
    by_cases hname : name = a.name
    · subst hname
      obtain ⟨x, hread⟩ := ha u List.mem_cons_self
      rw [if_pos rfl, hx List.mem_cons_self, Option.isSome_none, if_neg Bool.false_ne_true, hread]
      exact ih hrest ha' hb' (fun hmem => absurd hmem hnew) hy'
    · rw [if_neg hname]
      by_cases hname' : name = b.name
      · subst hname'
        obtain ⟨y, hread⟩ := hb u List.mem_cons_self
        rw [if_pos rfl, hy List.mem_cons_self, Option.isSome_none, if_neg Bool.false_ne_true, hread]
        exact ih hrest ha' hb' hx' fun hmem => absurd hmem hnew
      · rw [if_neg hname']
        exact ih hrest ha' hb' hx' hy'

end Pair

/-- Elements that can each be read are read as a list. -/
theorem exists_readList {α : Type} {read : Draft → Except DecodeError α} {items : List Json}
    (h : ∀ w ∈ items, error? (read (Draft.ofJson w)) = none) :
    ∃ xs, readList read (Draft.ofJson (.array items)) = .ok xs := by
  obtain ⟨xs, hxs⟩ := exists_forall₂ fun w hw => error?_eq_none_iff.1 (h w hw)
  exact ⟨xs, readList_of_forall₂ hxs.flip⟩

theorem readList_of_fault {α : Type} {read : Draft → Except DecodeError α} {before : List Json}
    {v : Json} {fault : DecodeError} (hbefore : ∀ w ∈ before, error? (read (Draft.ofJson w)) = none)
    (hv : error? (read (Draft.ofJson v)) = some fault) (after : List Json) :
    readList read (Draft.ofJson (.array (before ++ v :: after))) =
      .error ⟨.index before.length :: fault.path, fault.cause⟩ := by
  have hitems := readItemsWith_of_fault (fun w hw => error?_eq_none_iff.1 (hbefore w hw))
    (error?_eq_some_iff.1 hv) after 0
  rwa [Nat.zero_add] at hitems

/-! ## Documents -/

theorem elementFault?_declarations (v : Json) :
    elementFault? "declarations" v = error? (Family.declaration.ofJson v) := if_pos rfl

theorem elementFault?_comments (v : Json) :
    elementFault? "comments" v = error? (Comment.ofJson v) := rfl

/-- Only elements of the two lists are judged. -/
theorem key_of_elementFault? {key : String} {v : Json} {fault : DecodeError}
    (h : elementFault? key v = some fault) : key = "declarations" ∨ key = "comments" := by
  unfold elementFault? at h
  split_ifs at h with hdeclarations hcomments
  · exact .inl hdeclarations
  · exact .inr hcomments

/-- The text of a path that leads to an element of a list under a name. -/
theorem Path.text_key_index (key : String) (i : Nat) (p : Path) :
    Path.text (.key key :: .index i :: p) =
      key ++ "[" ++ toString i ++ "]" ++ Path.steps false p := by
  rw [text, if_neg (List.cons_ne_nil _ _), steps, steps, if_pos rfl, String.empty_append]
  simp only [String.append_assoc]

/-- The object has a list of declarations, and a list of comments or none. -/
structure HoldsLists (fields : Entries Json) (declarations : List Json)
    (comments : Option (List Json)) : Prop where
  nodup : (Entries.keys fields).Nodup
  get?_declarations : Entries.get? fields "declarations" = some (.array declarations)
  get?_comments : Entries.get? fields "comments" = comments.map .array

/-- Each element of two lists can be decoded on its own. -/
def AllDecodable (declarations comments : List Json) : Prop :=
  (∀ v ∈ declarations, ∃ d, Family.declaration.ofJson v = .ok d) ∧
    ∀ v ∈ comments, ∃ c, Comment.ofJson v = .ok c

/-- The source has what the elements of two lists are decoded as, in their order. -/
def SourceFile.HasElements (file : SourceFile) (declarations comments : List Json) : Prop :=
  List.Forall₂ (fun v d => Family.declaration.ofJson v = .ok d) declarations file.declarations ∧
    List.Forall₂ (fun v c => Comment.ofJson v = .ok c) comments file.comments

theorem AllDecodable.exists_hasElements {declarations comments : List Json}
    (h : AllDecodable declarations comments) :
    ∃ file : SourceFile, file.HasElements declarations comments := by
  obtain ⟨ds, hds⟩ := exists_forall₂ h.1
  obtain ⟨cs, hcs⟩ := exists_forall₂ h.2
  exact ⟨⟨ds, cs⟩, hds, hcs⟩

namespace HoldsLists

variable {fields : Entries Json} {declarations : List Json} {comments : Option (List Json)}

/-- If all elements under some names can be decoded, so can those of the two lists. -/
theorem allDecodable (h : HoldsLists fields declarations comments)
    (hall : ∀ name ws, (name, Json.array ws) ∈ fields → ∀ w ∈ ws, elementFault? name w = none) :
    AllDecodable declarations (comments.getD []) := by
  constructor
  · intro v hv
    have hfault := hall _ _ (Entries.mem_of_get? h.get?_declarations) v hv
    exact error?_eq_none_iff.1 (elementFault?_declarations v ▸ hfault)
  · intro v hv
    have hget := h.get?_comments
    cases comments with
    | none => cases hv
    | some items =>
      have hfault := hall _ _ (Entries.mem_of_get? hget) v hv
      exact error?_eq_none_iff.1 (elementFault?_comments v ▸ hfault)

/-- Where all elements are decoded the document is, with the results in order. -/
theorem ofJson_eq_ok (h : HoldsLists fields declarations comments) {file : SourceFile}
    (hfile : file.HasElements declarations (comments.getD [])) :
    SourceFile.ofJson (.object fields) = .ok file := by
  have hdeclarations : Due (Component.Reads
      ⟨"declarations", readList (readNode .declaration), none⟩) none "declarations"
      file.declarations fields none :=
    .inl ⟨_, h.get?_declarations, readList_of_forall₂ hfile.1.flip⟩
  have hcomments : Due (Component.Reads
      ⟨"comments", readList (readComment .value), some []⟩) (some []) "comments"
      file.comments fields none := by
    have hget := h.get?_comments
    cases comments with
    | none => exact .inr ⟨congrArg some (List.forall₂_nil_left_iff.1 hfile.2).symm, hget⟩
    | some items => exact .inl ⟨_, hget, readList_of_forall₂ hfile.2.flip⟩
  rw [SourceFile.ofJson, readSource,
    readPair_of_due h.nodup (by decide) hdeclarations hcomments]
  rfl

/-- The first element that cannot be decoded decides the error, and its place is that of the element
    and then that of the fault in it. -/
theorem ofJson_eq_error (h : HoldsLists fields declarations comments) {key : String} {i : Nat}
    {fault : DecodeError} (hfirst : FirstFault fields key i fault) :
    SourceFile.ofJson (.object fields) =
      .error ⟨.key key :: .index i :: fault.path, fault.cause⟩ := by
  obtain @⟨front, back, items, before, after, v, rfl, hfront, rfl, rfl, hbefore, hv⟩ := hfirst
  have hget : ∀ {name u}, (name, u) ∈ front → Entries.get? _ name = some u := fun hu =>
    Entries.get?_of_mem h.nodup (List.mem_append_left _ hu)
  have hds : ∀ u, ("declarations", u) ∈ front →
      ∃ ds, readList (readNode .declaration) (Draft.ofJson u) = .ok ds := by
    intro u hu
    obtain rfl := Option.some.inj (h.get?_declarations.symm.trans (hget hu))
    exact exists_readList fun w hw => elementFault?_declarations w ▸ hfront _ _ hu w hw
  have hcs : ∀ u, ("comments", u) ∈ front →
      ∃ cs, readList (readComment .value) (Draft.ofJson u) = .ok cs := by
    intro u hu
    obtain ⟨items, -, rfl⟩ := Option.map_eq_some_iff.1 (h.get?_comments.symm.trans (hget hu))
    exact exists_readList fun w hw => hfront _ _ hu w hw
  have hread : ∀ {β : Type} {read : Draft → Except DecodeError β},
      (∀ w, elementFault? key w = error? (read (Draft.ofJson w))) →
      readList read (Draft.ofJson (.array (before ++ v :: after))) =
        .error ⟨.index before.length :: fault.path, fault.cause⟩ := fun helement =>
    readList_of_fault (fun w hw => helement w ▸ hbefore w hw) (helement v ▸ hv) after
  have hfault := (key_of_elementFault? hv).imp
    (fun hkey => And.intro hkey (hread fun w => hkey ▸ elementFault?_declarations w))
    fun hkey => And.intro hkey (hread fun w => hkey ▸ elementFault?_comments w)
  rw [SourceFile.ofJson, readSource, Draft.ofJson, readPair,
    pairFields_of_fault (by decide) h.nodup hds hcs hfault (fun _ => rfl) fun _ => rfl]
  rfl

/-- Nothing stands in front of an error but elements that can be decoded. -/
theorem exists_firstFault_or (h : HoldsLists fields declarations comments) :
    AllDecodable declarations (comments.getD []) ∨ ∃ key i fault, FirstFault fields key i fault := by
  by_cases hall : ∀ name ws, (name, Json.array ws) ∈ fields → ∀ w ∈ ws, elementFault? name w = none
  · exact .inl (h.allDecodable hall)
  · exact .inr (exists_firstFault hall)

end HoldsLists

namespace SourceFile

variable {fields : Entries Json} {declarations : List Json} {comments : Option (List Json)}

/-- An object with a list of declarations, and with or without a list of comments, is a document if and
    only if each element of the lists can be decoded on its own; the results stand in the order of the
    elements.  Otherwise the error is that of the first such element that cannot, where the name that
    comes first in the object comes first, and its path begins with that name and the place of the
    element. -/
theorem ofJson_elementwise (h : HoldsLists fields declarations comments) :
    ((∃ file, ofJson (.object fields) = .ok file) ↔
      AllDecodable declarations (comments.getD [])) ∧
    (∀ file, ofJson (.object fields) = .ok file ↔
      file.HasElements declarations (comments.getD [])) ∧
    ∀ e, ofJson (.object fields) = .error e →
      ∃ key i fault, (key = "declarations" ∨ key = "comments") ∧ FirstFault fields key i fault ∧
        e = ⟨.key key :: .index i :: fault.path, fault.cause⟩ ∧
        e.path.text = key ++ "[" ++ toString i ++ "]" ++ Path.steps false fault.path := by
  rcases h.exists_firstFault_or with hall | ⟨key, i, fault, hfirst⟩
  · obtain ⟨file, hfile⟩ := hall.exists_hasElements
    have hok := h.ofJson_eq_ok hfile
    refine ⟨iff_of_true ⟨file, hok⟩ hall, fun file' => ⟨fun h' => ?_, h.ofJson_eq_ok⟩, fun e he => ?_⟩
    · obtain rfl := Except.ok.inj (hok.symm.trans h')
      exact hfile
    · cases hok.symm.trans he
  · have herror := h.ofJson_eq_error hfirst
    have hnone : ∀ file, ofJson (.object fields) ≠ .ok file := fun file hok => by
      cases herror.symm.trans hok
    refine ⟨iff_of_false (fun ⟨file, hok⟩ => hnone file hok) fun hall => ?_, fun file =>
      iff_of_false (hnone file) fun hfile => hnone file (h.ofJson_eq_ok hfile), fun e he => ?_⟩
    · obtain ⟨file, hfile⟩ := hall.exists_hasElements
      exact hnone file (h.ofJson_eq_ok hfile)
    · obtain rfl := Except.error.inj (herror.symm.trans he)
      refine ⟨key, i, fault, ?_, hfirst, rfl, Path.text_key_index key i fault.path⟩
      obtain ⟨-, -, -, -, -, hv⟩ := hfirst
      exact key_of_elementFault? hv

/-- Two comments stand in front of a bad declaration.  The text of the second is a number, and that is the
    error, two steps from the root to the comment and one more to its text. -/
theorem ofJson_elementwise_comment :
    let span : Json := .array [.integer 0, .integer 4]
    let comments := [Json.array [.null, span], .object [("text", .integer 7), ("span", span)]]
    let fields : Entries Json :=
      [("version", .null), ("comments", .array comments), ("declarations", .array [.null])]
    let e : DecodeError := ⟨[.key "comments", .index 1, .key "text"],
      .ofShape (.wrongType (.integer 7) "a string")⟩
    HoldsLists fields [.null] (some comments) ∧ ofJson (.object fields) = .error e ∧
      ¬ AllDecodable [.null] comments ∧
      ∃ key i fault, (key = "declarations" ∨ key = "comments") ∧ FirstFault fields key i fault ∧
        e = ⟨.key key :: .index i :: fault.path, fault.cause⟩ ∧
        e.path.text = key ++ "[" ++ toString i ++ "]" ++ Path.steps false fault.path := by
  intro span comments fields e
  have hlists : HoldsLists fields [.null] (some comments) := ⟨by decide, rfl, rfl⟩
  have herror : ofJson (.object fields) = .error e := rfl
  obtain ⟨hiff, -, hfirst⟩ := ofJson_elementwise hlists
  refine ⟨hlists, herror, fun hall => ?_, hfirst e herror⟩
  obtain ⟨file, hok⟩ := hiff.2 hall
  cases herror.symm.trans hok

end SourceFile

end SchemaForest
