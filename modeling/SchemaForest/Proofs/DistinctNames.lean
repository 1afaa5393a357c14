import SchemaForest.Json.Basic

/-!
# Values without repeated names

A value in which no object repeats a name (`Json.Distinct`) is one that a map can hold.  Looking up a
name in its fields does not depend on their order, and there is nothing to collapse
(`Json.collapse_of_distinct`).
-/

namespace SchemaForest

namespace Entries

variable {α : Type}

theorem get?_cons (key name : String) (value : α) (rest : Entries α) :
    get? ((name, value) :: rest) key = if key = name then some value else get? rest key := by
  rw [get?, List.lookup_cons]
  by_cases h : key = name
  · rw [if_pos h, h, beq_self_eq_true]
  · rw [if_neg h, beq_false_of_ne h]
    rfl

/-- What is found is one of the entries. -/
theorem mem_of_get? {m : Entries α} {key : String} {value : α} (h : get? m key = some value) :
    (key, value) ∈ m := by
  induction m with
  | nil => cases h
  | cons p rest ih =>
    obtain ⟨name, value'⟩ := p
    rw [get?_cons] at h
    by_cases hname : key = name
    · rw [if_pos hname] at h
      obtain rfl := Option.some.inj h
      rw [hname]
      exact List.mem_cons_self
    · rw [if_neg hname] at h
      exact List.mem_cons_of_mem _ (ih h)

/-- Nothing is found under a name exactly if no entry has it. -/
theorem get?_eq_none_iff {m : Entries α} {key : String} : get? m key = none ↔ key ∉ keys m := by
  induction m with
  | nil => exact ⟨fun _ => List.not_mem_nil, fun _ => rfl⟩
  | cons p rest ih =>
    obtain ⟨name, value⟩ := p
    rw [get?_cons, keys, List.map_cons, List.mem_cons, not_or]
    by_cases h : key = name
    · rw [if_pos h]
      exact iff_of_false (Option.some_ne_none _) fun hne => hne.1 h
    · rw [if_neg h, ih]
      exact ⟨fun hrest => ⟨h, hrest⟩, And.right⟩

/-- Where names differ, one entry has a name that is found. -/
theorem filter_key {m : Entries α} (hnodup : (keys m).Nodup) {key : String} {value : α}
    (h : get? m key = some value) : m.filter (·.1 == key) = [(key, value)] := by
  induction m with
  | nil => cases h
  | cons p rest ih =>
    obtain ⟨name, value'⟩ := p
    obtain ⟨hnew, hrest⟩ := List.nodup_cons.1 hnodup
    rw [get?_cons] at h
    by_cases hname : key = name
    · subst hname
      rw [if_pos rfl] at h
      obtain rfl := Option.some.inj h
      have hnone : rest.filter (·.1 == key) = [] := by
        rw [List.filter_eq_nil_iff]
        intro q hq heq
        exact hnew (List.mem_map.2 ⟨q, hq, eq_of_beq heq⟩)
      rw [List.filter_cons, if_pos (beq_self_eq_true key), hnone]
    · rw [if_neg hname] at h
      have hne : ¬((name == key) = true) := fun heq => hname (eq_of_beq heq).symm
      rw [List.filter_cons, if_neg hne]
      exact ih hrest h

/-- Setting pairs whose names are new and differ puts them behind. -/
theorem setAll_of_nodup {m pairs : Entries α} (h : (keys (m ++ pairs)).Nodup) :
    setAll m pairs = m ++ pairs := by
  induction pairs generalizing m with
  | nil => exact (List.append_nil m).symm
  | cons p rest ih =>
    obtain ⟨name, value⟩ := p
    have hnew : name ∉ keys m := by
      rw [keys, List.map_append, List.map_cons] at h
      intro hmem
      exact (List.nodup_append.1 h).2.2 name hmem name List.mem_cons_self rfl
    have hrest : m ++ [(name, value)] ++ rest = m ++ (name, value) :: rest := by simp
    rw [setAll, List.foldl_cons, set_of_not_mem hnew, ← hrest]
    exact ih (by rwa [hrest])

/-- Setting a name changes what is found under that name and nothing else. -/
theorem get?_set (name key : String) (value : α) (m : Entries α) :
    get? (set name value m) key = if key = name then some value else get? m key := by
  induction m with
  | nil => exact get?_cons key name value []
  | cons p rest ih =>
    obtain ⟨k, v⟩ := p
    rw [set, get?_cons]
    by_cases hk : k = name
    · subst hk
      rw [if_pos rfl, get?_cons]
      split <;> rfl
    · rw [if_neg hk, get?_cons, ih]
      by_cases hkey : key = k
      · subst hkey
        rw [if_pos rfl, if_pos rfl, if_neg hk]
      · rw [if_neg hkey, if_neg hkey]

/-- After setting pairs one after the other, the last of a name counts. -/
theorem get?_setAll (m pairs : Entries α) (key : String) :
    get? (setAll m pairs) key = (get? pairs.reverse key).or (get? m key) := by
  induction pairs generalizing m with
  | nil => rfl
  | cons p rest ih =>
    obtain ⟨name, value⟩ := p
    rw [setAll, List.foldl_cons, ← setAll, ih, get?_set, List.reverse_cons, get?_append, Option.or_assoc,
      get?_cons]
    by_cases h : key = name
    · rw [if_pos h, if_pos h]
      rfl
    · rw [if_neg h, if_neg h]
      rfl

theorem get?_ofPairs (pairs : Entries α) (key : String) :
    get? (ofPairs pairs) key = get? pairs.reverse key :=
  (get?_setAll [] pairs key).trans (Option.or_none ..)

/-- Names that are set one after the other come behind those that are there, in the order in which
    they first came. -/
theorem keys_setAll (m pairs : Entries α) :
    keys (setAll m pairs) = keys m ++ ((keys pairs).removeAll (keys m)).eraseDups := by
  induction pairs generalizing m with
  | nil => exact (List.append_nil _).symm
  | cons p rest ih =>
    obtain ⟨name, value⟩ := p
    rw [setAll, List.foldl_cons, ← setAll, ih, keys_set]
    show _ = keys m ++ (List.filter _ (name :: keys rest)).eraseDups
    split
    · rename_i hold
      rw [List.filter_cons, if_neg (by simpa using hold)]
      rfl
    · rename_i hnew
      rw [List.filter_cons, if_pos (by simpa using hnew), List.eraseDups_cons, List.filter_filter,
        List.append_assoc]
      refine congrArg (fun names => keys m ++ name :: List.eraseDups names) ?_
      refine List.filter_congr fun other _ => ?_
      simp only [List.elem_eq_contains, List.contains_append, List.contains_cons,
        List.contains_nil, Bool.or_false, Bool.not_or]
      exact Bool.and_comm _ _

theorem keys_ofPairs (pairs : Entries α) : keys (ofPairs pairs) = (keys pairs).eraseDups := by
  rw [ofPairs, keys_setAll, List.removeAll]
  exact congrArg List.eraseDups (List.filter_eq_self.2 fun _ _ => rfl)

theorem ofPairs_of_nodup {pairs : Entries α} (h : (keys pairs).Nodup) : ofPairs pairs = pairs :=
  setAll_of_nodup (m := []) h

end Entries

namespace Json

mutual
/-- No object of the value repeats a name. -/
def Distinct : Json → Prop
  | .array items => AllDistinct items
  | .object fields => (Entries.keys fields).Nodup ∧ FieldsDistinct fields
  | _ => True

def AllDistinct : List Json → Prop
  | [] => True
  | v :: rest => v.Distinct ∧ AllDistinct rest

def FieldsDistinct : List (String × Json) → Prop
  | [] => True
  | (_, v) :: rest => v.Distinct ∧ FieldsDistinct rest
end

mutual
/-- There is nothing to collapse where no object repeats a name. -/
theorem collapse_of_distinct : ∀ {v : Json}, v.Distinct → v.collapse = v
  | .null, _ | .bool _, _ | .integer _, _ | .float _, _ | .string _, _ => by rw [collapse]
  | .array items, h => by
    rw [Distinct] at h
    rw [collapse, collapseItems_of_distinct h]
  | .object fields, h => by
    rw [Distinct] at h
    rw [collapse, collapseFields_of_distinct h.2, Entries.ofPairs_of_nodup h.1]

theorem collapseItems_of_distinct : ∀ {items : List Json},
    AllDistinct items → collapseItems items = items
  | [], _ => rfl
  | v :: rest, h => by
    rw [AllDistinct] at h
    rw [collapseItems, collapse_of_distinct h.1, collapseItems_of_distinct h.2]

theorem collapseFields_of_distinct : ∀ {fields : List (String × Json)},
    FieldsDistinct fields → collapseFields fields = fields
  | [], _ => rfl
  | (_, v) :: rest, h => by
    rw [FieldsDistinct] at h
    rw [collapseFields, collapse_of_distinct h.1, collapseFields_of_distinct h.2]
end

end Json

end SchemaForest
