import OrmDdl.Json.Basic
/-!
# Normal values

`normalize_of_isNormal`: a value whose objects hold each name once, in ascending order, is its own
normal form. A name greater than all others goes to the end of an object (`insertMember_of_lt`), so
sorting members that are sorted already rebuilds them.
-/

namespace OrmDdl

namespace Json

theorem insertMember_of_lt {name : String} (value : Json) {ms : List (String × Json)}
    (h : ∀ m ∈ ms, m.1 < name) : insertMember name value ms = ms ++ [(name, value)] := by
  induction ms with
  | nil => rfl
  | cons m r ih =>
    obtain ⟨k, v⟩ := m
    have hk : k < name := h (k, v) (List.mem_cons_self ..)
    have hlt : ¬name < k := fun hn => String.lt_irrefl k (String.lt_trans hk hn)
    have hne : ¬name = k := by
      rintro rfl
      exact String.lt_irrefl name hk
    show (if name < k then _ else if name = k then _ else (k, v) :: insertMember name value r) = _
    rw [if_neg hlt, if_neg hne, ih fun m hm => h m (List.mem_cons_of_mem _ hm)]
    rfl

theorem foldl_insertMember (ms : List (String × Json)) : ∀ sorted : List (String × Json),
    ((sorted ++ ms).map Prod.fst).Pairwise (· < ·) →
      ms.foldl (fun sorted m => insertMember m.1 m.2 sorted) sorted = sorted ++ ms := by
  induction ms with
  | nil =>
    intro sorted _
    rw [List.append_nil]
    rfl
  | cons m r ih =>
    intro sorted h
    have hm : ∀ p ∈ sorted, p.1 < m.1 := by
      intro p hp
      rw [List.map_append, List.pairwise_append] at h
      exact h.2.2 p.1 (List.mem_map_of_mem hp) m.1 (by simp)
    rw [List.foldl_cons, insertMember_of_lt m.2 hm, ih]
    · rw [List.append_assoc]
      rfl
    · rw [List.append_assoc]
      exact h

theorem sortMembers_of_sorted {ms : List (String × Json)}
    (h : (ms.map Prod.fst).Pairwise (· < ·)) : sortMembers ms = ms :=
  foldl_insertMember ms [] h

mutual

theorem normalize_of_isNormal : ∀ j : Json, j.isNormal = true → j.normalize = j
  | null, _ | bool _, _ | number _, _ | string _, _ => by simp [normalize]
  | array items, h => by
    rw [normalize, normalizeItems_of_areNormal items h]
  | object members, h => by
    rw [isNormal, Bool.and_eq_true, decide_eq_true_eq] at h
    rw [normalize, normalizeMembers_of_areNormal members h.2, sortMembers_of_sorted h.1]

theorem normalizeItems_of_areNormal : ∀ items : List Json, areNormal items = true →
    normalizeItems items = items
  | [], _ => rfl
  | j :: r, h => by
    rw [areNormal, Bool.and_eq_true] at h
    rw [normalizeItems, normalize_of_isNormal j h.1, normalizeItems_of_areNormal r h.2]

theorem normalizeMembers_of_areNormal : ∀ members : List (String × Json),
    areNormalMembers members = true → normalizeMembers members = members
  | [], _ => rfl
  | (k, j) :: r, h => by
    rw [areNormalMembers, Bool.and_eq_true] at h
    rw [normalizeMembers, normalize_of_isNormal j h.1, normalizeMembers_of_areNormal r h.2]

end

end Json

/-- A literal is what the text of its value means. -/
theorem Literal.ofJson_value (l : Literal) : Literal.ofJson l.value = l := by
  obtain ⟨value, normal⟩ := l
  unfold Literal.ofJson
  congr
  exact Json.normalize_of_isNormal value normal

end OrmDdl
