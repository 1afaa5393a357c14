/-!
# Entries

Named values in the order in which the names first came.  Setting a name that is there keeps its
place and replaces its value, so the names stay distinct and the last value counts.
-/

namespace SchemaForest

/-- Named values in order. -/
abbrev Entries (α : Type) := List (String × α)

namespace Entries

variable {α : Type}

/-- The value under a name. -/
def get? (m : Entries α) (key : String) : Option α := List.lookup key m

/-- Gives a name a value: in its place if the name is there, at the end otherwise. -/
def set (key : String) (value : α) : Entries α → Entries α
  | [] => [(key, value)]
  | (k, v) :: rest => if k = key then (key, value) :: rest else (k, v) :: set key value rest

/-- The names in order. -/
def keys (m : Entries α) : List String := m.map Prod.fst

/-- Sets the pairs of a list one after the other. -/
def setAll (m : Entries α) (pairs : List (String × α)) : Entries α :=
  pairs.foldl (fun m p => set p.1 p.2 m) m

/-- The entries that a list of pairs leaves: the first place and the last value of each name. -/
def ofPairs (pairs : List (String × α)) : Entries α := setAll [] pairs

/-- Where names differ, every value is found under its name. -/
theorem get?_of_mem {m : Entries α} (hnodup : (keys m).Nodup) {key : String} {value : α}
    (h : (key, value) ∈ m) : get? m key = some value := by
  induction m with
  | nil => cases h
  | cons p rest ih =>
    obtain ⟨hnew, hrest⟩ := List.nodup_cons.1 hnodup
    rw [get?, List.lookup_cons]
    rcases List.mem_cons.1 h with heq | hmem
    · obtain rfl := heq
      rw [beq_self_eq_true]
    · have hne : key ≠ p.1 := fun heq => hnew (heq ▸ List.mem_map_of_mem hmem)
      rw [beq_false_of_ne hne]
      exact ih hrest hmem

/-- Where names differ, entries are their names in order with what is found under them. -/
theorem eq_map_keys {m : Entries α} (hnodup : (keys m).Nodup) (value : α) :
    m = (keys m).map fun key => (key, (get? m key).getD value) := by
  rw [keys, List.map_map]
  refine (List.map_id m).symm.trans (List.map_congr_left fun p hp => ?_)
  rw [Function.comp, get?_of_mem hnodup hp]
  rfl

theorem get?_append (xs ys : Entries α) (key : String) :
    get? (xs ++ ys) key = (get? xs key).or (get? ys key) := List.lookup_append

/-- A field that need not be there holds its value under its own name and nothing under others. -/
theorem get?_optional {β : Type} (value : Option β) (f : β → α) (name key : String) :
    get? (value.toList.map fun v => (name, f v)) key = if key = name then value.map f else none := by
  cases value with
  | none => exact (ite_self none).symm
  | some v =>
    show List.lookup key [(name, f v)] = _
    rw [List.lookup_cons]
    by_cases h : key = name
    · rw [if_pos h, h, beq_self_eq_true]
      rfl
    · rw [if_neg h, beq_false_of_ne h]
      rfl

theorem get?_optional_self (value : Option α) (name key : String) :
    get? (value.toList.map (Prod.mk name)) key = if key = name then value else none := by
  have h := get?_optional value id name key
  rwa [Option.map_id, id_eq] at h

theorem keys_set (key : String) (value : α) (m : Entries α) :
    keys (set key value m) = if key ∈ keys m then keys m else keys m ++ [key] := by
  induction m with
  | nil => simp [set, keys]
  | cons p rest ih =>
    obtain ⟨k, v⟩ := p
    by_cases h : k = key
    · subst h; simp [set, keys]
    · have h' : key ≠ k := fun e => h e.symm
      simp only [set, h, if_false, keys, List.map_cons, List.mem_cons, h', false_or]
      simp only [keys] at ih
      rw [ih]
      by_cases hm : key ∈ List.map Prod.fst rest <;> simp [hm]

/-- A new name comes at the end. -/
theorem set_of_not_mem {key : String} {m : Entries α} (h : key ∉ keys m) (value : α) :
    set key value m = m ++ [(key, value)] := by
  induction m with
  | nil => rfl
  | cons p rest ih =>
    obtain ⟨hne, hrest⟩ := not_or.1 fun hor => h (List.mem_cons.2 hor)
    rw [set, if_neg (Ne.symm hne), ih hrest, List.cons_append]

theorem nodup_keys_set {key : String} {value : α} {m : Entries α} (h : (keys m).Nodup) :
    (keys (set key value m)).Nodup := by
  rw [keys_set]
  split
  · exact h
  · rename_i hk
    rw [List.nodup_append]
    refine ⟨h, by simp, ?_⟩
    intro a ha b hb
    rw [List.mem_singleton] at hb
    subst hb
    exact fun e => hk (e ▸ ha)

end Entries

end SchemaForest
