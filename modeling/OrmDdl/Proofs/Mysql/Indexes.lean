import OrmDdl.Proofs.Mysql.Acceptance
/-!
# Index targets of a batch

The set of targets that a batch leaves behind is the set it started from, followed by the columns
of all relations that are new to it, each where it first occurs (`convertFrom_eq_ok`). Different
targets have different statements (`IndexTarget.sql_injective`), although they may share a name:
the statement repeats the table and the column with another separator between them.
-/

namespace OrmDdl

/-! ## First occurrences -/

namespace Outcome

variable {α : Type} [DecidableEq α]

/-- Dropping elements commutes with dropping repetitions. -/
theorem eraseDups_filter (p : α → Bool) (l : List α) :
    (l.filter p).eraseDups = l.eraseDups.filter p := by
  induction hn : l.length using Nat.strongRecOn generalizing l with
  | ind n ih =>
    cases l with
    | nil => rfl
    | cons a as =>
      have hlen : (as.filter fun b => !b == a).length < n := by
        have hle := List.length_filter_le (fun b => !b == a) as
        rw [← hn, List.length_cons]
        omega
      have has := ih _ hlen (as.filter fun b => !b == a) rfl
      rw [List.eraseDups_cons]
      by_cases ha : p a = true
      · have hcomm : (as.filter p).filter (fun b => !b == a) =
            (as.filter fun b => !b == a).filter p := by
          simp only [List.filter_filter, Bool.and_comm]
        rw [List.filter_cons_of_pos ha, List.filter_cons_of_pos ha, List.eraseDups_cons, hcomm, has]
      · have hsame : (as.filter fun b => !b == a).filter p = as.filter p := by
          rw [List.filter_filter]
          refine List.filter_congr fun b _ => ?_
          by_cases hb : b = a
          · simp [hb, ha]
          · simp [hb]
        rw [List.filter_cons_of_neg ha, List.filter_cons_of_neg ha, ← has, hsame]

end Outcome

namespace Mysql

open Outcome

namespace IndexSet

theorem mem_insert {s : IndexSet} {t u : IndexTarget} : u ∈ s.insert t ↔ u ∈ s ∨ u = t := by
  rw [mem_iff, targets_insert]
  by_cases h : t ∈ s
  · rw [if_pos h]
    constructor
    · exact .inl
    · rintro (hu | rfl)
      · exact hu
      · exact h
  · rw [if_neg h, List.mem_append, List.mem_singleton]
    rfl

/-- Inserting targets appends those that are new, each where it first occurs. -/
theorem targets_insertAll (ts : List IndexTarget) : ∀ s : IndexSet,
    (s.insertAll ts).targets = s.targets ++ ts.eraseDups.filter (· ∉ s) := by
  induction ts with
  | nil =>
    intro s
    rw [List.eraseDups_nil, List.filter_nil, List.append_nil]
    rfl
  | cons t ts ih =>
    intro s
    have hcons : (ts.filter fun u => !u == t).eraseDups = ts.eraseDups.filter fun u => !u == t :=
      eraseDups_filter _ ts
    show ((s.insert t).insertAll ts).targets = _
    have hnew : ∀ u : IndexTarget, decide (u ∉ s.insert t) = (decide (u ∉ s) && !u == t) := by
      intro u
      by_cases hu : u = t
      · simp [mem_insert, hu]
      · simp [mem_insert, hu]
    rw [ih, targets_insert, List.eraseDups_cons, hcons]
    simp only [hnew, ← List.filter_filter]
    by_cases ht : t ∈ s
    · rw [if_pos ht, List.filter_cons_of_neg (by simpa using ht)]
    · rw [if_neg ht, List.filter_cons_of_pos (by simpa using ht), List.append_assoc]
      rfl

/-- The targets of a new set are those inserted, each where it first occurs. -/
theorem targets_insertAll_empty (ts : List IndexTarget) :
    ((∅ : IndexSet).insertAll ts).targets = ts.eraseDups := by
  have hnew : ∀ t ∈ ts.eraseDups, decide (t ∉ (∅ : IndexSet)) = true := by
    intro t _
    rw [decide_eq_true_eq]
    exact List.not_mem_nil
  rw [targets_insertAll, List.filter_eq_self.2 hnew]
  rfl

end IndexSet

/-! ## Statements -/

/-- Two ways to split a text after equally long fronts agree if other characters follow them. -/
theorem eq_of_append_cons {a b : Char} (hne : a ≠ b) (s : List Char) :
    ∀ {t u u' v v' : List Char}, s ++ a :: u = t ++ a :: u' → s ++ b :: v = t ++ b :: v' →
      s = t := by
  induction s with
  | nil =>
    intro t u u' v v' hu hv
    cases t with
    | nil => rfl
    | cons d t =>
      have ha : a = d := (List.cons.inj hu).1
      have hb : b = d := (List.cons.inj hv).1
      exact absurd (ha.trans hb.symm) hne
  | cons c s ih =>
    intro t u u' v v' hu hv
    cases t with
    | nil =>
      have ha : c = a := (List.cons.inj hu).1
      have hb : c = b := (List.cons.inj hv).1
      exact absurd (ha.symm.trans hb) hne
    | cons d t =>
      have hc : c = d := (List.cons.inj hu).1
      rw [hc, ih (List.cons.inj hu).2 (List.cons.inj hv).2]

namespace IndexTarget

/-- The table and the column with a separator between them. -/
def joined (t : IndexTarget) (separator : String) : List Char :=
  t.table.toList ++ (separator.toList ++ t.column.toList)

theorem toList_sql (t : IndexTarget) : t.sql.toList =
    "CREATE INDEX index_".toList ++ (t.joined "__" ++ (" ON ".toList ++
      (t.joined " (" ++ ");".toList))) := by
  unfold sql name joined
  simp only [String.toList_append, List.append_assoc]
  rfl

/-- Different targets have different statements. -/
theorem sql_injective {t u : IndexTarget} (h : t.sql = u.sql) : t = u := by
  have hchars := congrArg String.toList h
  rw [toList_sql, toList_sql] at hchars
  have hrest := List.append_cancel_left hchars
  have hlen : (t.joined "__").length = (u.joined "__").length := by
    have h := congrArg List.length hrest
    simp only [joined, List.length_append] at h ⊢
    have : "__".toList.length = " (".toList.length := rfl
    omega
  obtain ⟨hname, hplace⟩ := List.append_inj hrest hlen
  have hplace := List.append_cancel_right (List.append_cancel_left hplace)
  -- the two separators start differently, so the tables end at the same place
  have htable : t.table.toList = u.table.toList :=
    eq_of_append_cons (a := '_') (b := ' ') (by decide) _ hname hplace
  have hcolumn : t.column.toList = u.column.toList := by
    unfold joined at hname
    rw [htable] at hname
    exact List.append_cancel_left (List.append_cancel_left hname)
  obtain ⟨table, column⟩ := t
  obtain ⟨table', column'⟩ := u
  rw [String.toList_inj] at htable hcolumn
  cases htable
  cases hcolumn
  rfl

/-- Different targets on one table have different names. -/
theorem name_injective {t u : IndexTarget} (htable : t.table = u.table) (h : t.name = u.name) :
    t = u := by
  obtain ⟨table, column⟩ := t
  obtain ⟨table', column'⟩ := u
  cases htable
  have hchars := congrArg String.toList h
  unfold name at hchars
  simp only [String.toList_append] at hchars
  have hcolumn := List.append_cancel_left hchars
  rw [String.toList_inj] at hcolumn
  cases hcolumn
  rfl

end IndexTarget

/-! ## Targets -/

/-- The columns that a relation points at: the key of the child, that of the parent, or the two of
a junction. -/
def relationColumns (r : Relation) : List IndexTarget :=
  match r.mode with
  | .child | .children => [⟨r.b.table, r.bKey⟩]
  | .parent => [⟨r.a.table, r.aKey⟩]
  | .through =>
    (r.via.bind fun via => r.viaAKey.map fun viaAKey => ⟨via.table, viaAKey⟩).toList
      ++ [⟨r.b.table, r.bKey⟩]

/-- The columns of all relations, model by model and relation by relation. -/
def batchColumns (models : List Model) : List IndexTarget :=
  models.flatMap fun m => m.relations.entries.flatMap fun r => relationColumns r.2

/-- The columns that are indexed for a batch, if any are. -/
def indexedColumns (switches : Switches) (models : List Model) : List IndexTarget :=
  if switches.autoIndexes then batchColumns models else []

theorem indexedColumns_append (switches : Switches) (xs ys : List Model) :
    indexedColumns switches (xs ++ ys) =
      indexedColumns switches xs ++ indexedColumns switches ys := by
  unfold indexedColumns
  by_cases h : switches.autoIndexes = true
  · rw [if_pos h, if_pos h, if_pos h]
    exact List.flatMap_append
  · rw [if_neg h, if_neg h, if_neg h]
    rfl

theorem relationTargets_eq_ok {r : Relation} {targets : List IndexTarget}
    (h : relationTargets r = .ok targets) : targets = relationColumns r := by
  unfold relationTargets at h
  unfold relationColumns
  cases hmode : r.mode with
  | child | children | parent =>
    rw [hmode] at h
    cases h
    rfl
  | through =>
    rw [hmode] at h
    cases hvia : r.via with
    | none =>
      rw [hvia] at h
      cases h
    | some via =>
      cases hkey : r.viaAKey with
      | none =>
        rw [hvia, hkey] at h
        cases h
      | some key =>
        rw [hvia, hkey] at h
        cases h
        rfl

theorem insertAll_append (s : IndexSet) (ts us : List IndexTarget) :
    s.insertAll (ts ++ us) = (s.insertAll ts).insertAll us := List.foldl_append

theorem gather_eq_insertAll {model : String} (relations : List (String × Relation)) :
    ∀ s : IndexSet, (gather model relations s).1 = none →
      (gather model relations s).2 =
        s.insertAll (relations.flatMap fun r => relationColumns r.2) := by
  induction relations with
  | nil => intro s _; rfl
  | cons r rest ih =>
    intro s h
    obtain ⟨name, r⟩ := r
    rw [gather] at h ⊢
    cases ht : relationTargets r with
    | error defect =>
      rw [ht] at h
      cases h
    | ok targets =>
      rw [ht] at h
      have hr := relationTargets_eq_ok ht
      rw [List.flatMap_cons, insertAll_append, ← hr]
      exact ih _ h

theorem addIndexes_eq_ok {switches : Switches} {model : Model} {indexes s : IndexSet}
    (h : addIndexes switches model indexes = .ok s) :
    s = indexes.insertAll (indexedColumns switches [model]) := by
  unfold addIndexes collectIndexes at h
  unfold indexedColumns
  by_cases hauto : switches.autoIndexes = true
  · rw [if_pos hauto] at h ⊢
    have hbatch : batchColumns [model] =
        model.relations.entries.flatMap fun r => relationColumns r.2 := List.append_nil _
    rw [hbatch]
    cases hgather : gather model.name model.relations.entries indexes with
    | mk fault s' =>
      rw [hgather] at h
      cases fault with
      | some e => cases h
      | none =>
        cases h
        have hnone : (gather model.name model.relations.entries indexes).1 = none := by
          rw [hgather]
        rw [← gather_eq_insertAll _ _ hnone, hgather]
  · rw [if_neg hauto] at h ⊢
    cases h
    rfl

/-- What a batch that is translated comes to: the table of every model, and the columns of all
relations that are new, each where it first occurs. -/
theorem convertFrom_eq_ok {switches : Switches} (models : List Model) :
    ∀ {indexes : IndexSet} {x : List String × IndexSet},
      convertFrom switches models indexes = .ok x →
        models.map (createTable switches) = x.1.map .ok ∧
          x.2 = indexes.insertAll (indexedColumns switches models) := by
  induction models with
  | nil =>
    intro indexes x h
    cases h
    refine ⟨rfl, ?_⟩
    unfold indexedColumns
    split <;> rfl
  | cons m r ih =>
    intro indexes x h
    obtain ⟨table, htable, h⟩ := bind_eq_ok.1 h
    obtain ⟨s, hs, h⟩ := bind_eq_ok.1 h
    obtain ⟨rest, hrest, h⟩ := bind_eq_ok.1 h
    cases h
    obtain ⟨htables, hset⟩ := ih hrest
    constructor
    · rw [List.map_cons, List.map_cons, htable, htables]
    · have hcons : indexedColumns switches (m :: r) =
          indexedColumns switches [m] ++ indexedColumns switches r :=
        indexedColumns_append switches [m] r
      rw [hcons, insertAll_append, ← addIndexes_eq_ok hs]
      exact hset

end Mysql

end OrmDdl
