import SchemaForest.Proofs.DistinctNames

/-!
# Entries over entries

Setting pairs one after the other keeps the first place and the last value of each name.  So pairs
behind other pairs act as a whole: what they leave by themselves overrides what the others leave
(`Entries.ofPairs_append`).  Both sides have the same names in the same order, and the same is found
under each of them, which is all there is to entries with distinct names (`ext_of_get?`).
-/

namespace SchemaForest.Entries

variable {α β : Type}

/-! ## Looking up -/

/-- Entries with distinct names are known by their names in order and by what is found under each. -/
theorem ext_of_get? {m m' : Entries α} (hnodup : (keys m).Nodup) (hkeys : keys m = keys m')
    (hget : ∀ key, get? m key = get? m' key) : m = m' := by
  cases m with
  | nil => exact (List.map_eq_nil_iff.1 hkeys.symm).symm
  | cons p rest =>
    have hnodup' : (keys m').Nodup := hkeys ▸ hnodup
    calc p :: rest = (keys (p :: rest)).map fun key => (key, (get? (p :: rest) key).getD p.2) :=
          eq_map_keys hnodup p.2
      _ = (keys m').map fun key => (key, (get? m' key).getD p.2) := by
          rw [hkeys]
          exact List.map_congr_left fun key _ => by rw [hget]
      _ = m' := (eq_map_keys hnodup' p.2).symm

/-- A function of the values changes what is found, and not where. -/
theorem get?_mapValues (f : String → α → β) (m : Entries α) (key : String) :
    get? (m.map fun p => (p.1, f p.1 p.2)) key = (get? m key).map (f key) := by
  induction m with
  | nil => rfl
  | cons p rest ih =>
    rw [List.map_cons, get?_cons, get?_cons, ih]
    by_cases h : key = p.1
    · rw [if_pos h, if_pos h, h]
      rfl
    · rw [if_neg h, if_neg h]

theorem get?_filterKeys (p : String → Bool) (m : Entries α) (key : String) :
    get? (m.filter fun q => p q.1) key = if p key then get? m key else none := by
  induction m with
  | nil => exact (ite_self none).symm
  | cons q rest ih =>
    rw [List.filter_cons, get?_cons]
    by_cases hkey : key = q.1
    · subst hkey
      by_cases hp : p q.1 = true
      · rw [if_pos hp, if_pos hp, get?_cons, if_pos rfl, if_pos rfl]
      · rw [if_neg hp, ih, if_neg hp, if_neg hp]
    · rw [if_neg hkey, ← ih]
      split
      · rw [get?_cons, if_neg hkey]
      · rfl

/-- The first pair from behind with a name is the last one that has it. -/
theorem get?_reverse_eq_some_iff {m : Entries α} {key : String} {value : α} :
    get? m.reverse key = some value ↔
      ∃ front back, m = front ++ (key, value) :: back ∧ key ∉ keys back := by
  rw [get?, List.lookup_eq_some_iff]
  constructor
  · rintro ⟨back, front, h, hnew⟩
    refine ⟨front.reverse, back.reverse, ?_, ?_⟩
    · rw [← List.reverse_reverse m, h]
      simp
    · intro hmem
      obtain ⟨p, hp, rfl⟩ := List.mem_map.1 hmem
      exact absurd rfl (bne_iff_ne.1 (hnew p (List.mem_reverse.1 hp)))
  · rintro ⟨front, back, rfl, hnew⟩
    refine ⟨back.reverse, front.reverse, by simp, fun p hp => bne_iff_ne.2 ?_⟩
    rintro rfl
    exact hnew (List.mem_map_of_mem (List.mem_reverse.1 hp))

/-! ## First places -/

/-- Which names are left out does not change where the others first come. -/
theorem eraseDups_filter (p : String → Bool) : ∀ names : List String,
    (names.filter p).eraseDups = names.eraseDups.filter p
  | [] => rfl
  | name :: rest => by
    have hcomm : (rest.filter p).filter (fun other => !other == name) =
        (rest.filter fun other => !other == name).filter p := by
      rw [List.filter_filter, List.filter_filter]
      exact List.filter_congr fun _ _ => Bool.and_comm _ _
    have ih := eraseDups_filter p (rest.filter fun other => !other == name)
    rw [List.eraseDups_cons, List.filter_cons, List.filter_cons]
    by_cases hp : p name = true
    · rw [if_pos hp, if_pos hp, List.eraseDups_cons, hcomm, ih]
    · have hrest : (rest.filter p).filter (fun other => !other == name) = rest.filter p := by
        rw [List.filter_eq_self]
        intro other hother
        have hne : other ≠ name := fun h => hp (h ▸ (List.mem_filter.1 hother).2)
        simpa using hne
      rw [if_neg hp, if_neg hp, ← ih, ← hcomm, hrest]
termination_by names => names.length
decreasing_by exact Nat.lt_succ_of_le (List.length_filter_le _ _)

theorem nodup_keys_ofPairs (pairs : Entries α) : (keys (ofPairs pairs)).Nodup := by
  suffices h : ∀ m : Entries α, (keys m).Nodup → (keys (setAll m pairs)).Nodup from
    h [] List.nodup_nil
  induction pairs with
  | nil => exact fun _ h => h
  | cons p rest ih => exact fun m h => ih _ (nodup_keys_set h)

/-! ## Overriding -/

/-- Entries overridden by others: names that are there keep their places and take the new values, and
    new names come behind in their order. -/
def override (m other : Entries α) : Entries α :=
  (m.map fun p => (p.1, (get? other p.1).getD p.2)) ++ other.filter fun p => p.1 ∉ keys m

theorem keys_override (m other : Entries α) :
    keys (override m other) = keys m ++ (keys other).filter (· ∉ keys m) := by
  have hnew : keys (other.filter fun p => p.1 ∉ keys m) =
      (other.map Prod.fst).filter (· ∉ keys m) := by
    rw [List.filter_map]
    rfl
  rw [override, keys, List.map_append, List.map_map]
  exact congrArg (keys m ++ ·) hnew

/-- Under an overridden name the new value is found, and under others the old one. -/
theorem get?_override (m other : Entries α) (key : String) :
    get? (override m other) key = (get? other key).or (get? m key) := by
  rw [override, get?_append, get?_mapValues fun key value => (get? other key).getD value,
    get?_filterKeys fun key => key ∉ keys m]
  cases hm : get? m key with
  | none =>
    have hnew : key ∉ keys m := get?_eq_none_iff.1 hm
    rw [if_pos (decide_eq_true hnew), Option.or_none]
    rfl
  | some value =>
    cases get? other key <;> rfl

/-- Pairs behind other pairs override what those leave. -/
theorem ofPairs_append (xs ys : Entries α) :
    ofPairs (xs ++ ys) = (ofPairs xs).override (ofPairs ys) := by
  have hset : ofPairs (xs ++ ys) = setAll (ofPairs xs) ys := List.foldl_append
  refine ext_of_get? (nodup_keys_ofPairs _) ?_ fun key => ?_
  · rw [keys_override, hset, keys_setAll, keys_ofPairs ys, ← eraseDups_filter]
    refine congrArg (fun names => keys (ofPairs xs) ++ List.eraseDups names) ?_
    exact List.filter_congr fun name _ => by simp
  · rw [get?_override, hset, get?_setAll, get?_ofPairs ys]

end SchemaForest.Entries
