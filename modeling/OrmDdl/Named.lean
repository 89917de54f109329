/-!
# Lists of named values

Putting a value under a name, in the place of an earlier one of that name.
-/

namespace OrmDdl.Named

variable {α : Type}

/-- Puts a value in the place of its name, or at the end if the name is new. -/
def put (name : String) (value : α) : List (String × α) → List (String × α)
  | [] => [(name, value)]
  | (k, v) :: r => if k = name then (k, value) :: r else (k, v) :: put name value r

/-- A name that is present keeps its place, a new one goes to the end. -/
theorem map_fst_put (name : String) (value : α) (l : List (String × α)) :
    (put name value l).map Prod.fst =
      if name ∈ l.map Prod.fst then l.map Prod.fst else l.map Prod.fst ++ [name] := by
  induction l with
  | nil => simp [put]
  | cons p r ih =>
    obtain ⟨k, v⟩ := p
    by_cases h : k = name
    · simp [put, h]
    · have h' : ¬name = k := fun e => h e.symm
      simp only [put, h, if_false, List.map_cons, ih, List.mem_cons, h', false_or]
      split <;> simp

theorem nodup_map_fst_put (name : String) (value : α) {l : List (String × α)}
    (h : (l.map Prod.fst).Nodup) : ((put name value l).map Prod.fst).Nodup := by
  rw [map_fst_put]
  split
  · exact h
  · rename_i hn
    simp only [List.nodup_append, List.nodup_cons, List.not_mem_nil, not_false_eq_true,
      List.nodup_nil, and_self, List.mem_cons, or_false, true_and]
    exact ⟨h, fun a ha b hb hab => hn (hb ▸ hab ▸ ha)⟩

theorem put_of_not_mem {name : String} (value : α) {l : List (String × α)}
    (h : name ∉ l.map Prod.fst) : put name value l = l ++ [(name, value)] := by
  induction l with
  | nil => rfl
  | cons p r ih =>
    obtain ⟨k, v⟩ := p
    rw [List.map_cons, List.mem_cons, not_or] at h
    show (if k = name then _ else (k, v) :: put name value r) = _
    rw [if_neg (Ne.symm h.1), ih h.2]
    rfl

theorem lookup_cons (other name : String) (value : α) (l : List (String × α)) :
    ((name, value) :: l).lookup other = if other = name then some value else l.lookup other := by
  rw [List.lookup_cons]
  by_cases h : other = name
  · simp [h]
  · rw [if_neg h, beq_eq_false_iff_ne.2 h]

theorem lookup_put_self (name : String) (value : α) (l : List (String × α)) :
    (put name value l).lookup name = some value := by
  induction l with
  | nil => simp [put]
  | cons p r ih =>
    obtain ⟨k, v⟩ := p
    by_cases h : k = name
    · simp [put, h]
    · simp [put, h, Ne.symm h, lookup_cons, ih]

theorem lookup_put_of_ne {name other : String} (h : other ≠ name) (value : α)
    (l : List (String × α)) : (put name value l).lookup other = l.lookup other := by
  induction l with
  | nil => simp [put, lookup_cons, h]
  | cons p r ih =>
    obtain ⟨k, v⟩ := p
    by_cases hk : k = name
    · simp [put, hk, lookup_cons, h]
    · simp [put, hk, lookup_cons, ih]

/-- What is found under a name is its entry, where names are distinct. -/
theorem lookup_eq_some_iff_mem {name : String} {value : α} {l : List (String × α)}
    (h : (l.map Prod.fst).Nodup) : l.lookup name = some value ↔ (name, value) ∈ l := by
  induction l with
  | nil => simp
  | cons p r ih =>
    obtain ⟨k, v⟩ := p
    rw [List.map_cons, List.nodup_cons] at h
    rw [lookup_cons, List.mem_cons, Prod.mk.injEq]
    by_cases hk : name = k
    · subst hk
      have hr : (name, value) ∉ r := fun hmem => h.1 (List.mem_map.2 ⟨_, hmem, rfl⟩)
      simp [hr, eq_comm]
    · simp [hk, ih h.2]

end OrmDdl.Named
