import Mathlib.Control.Monad.Basic
import OrmDdl.Proofs.Mysql.Indexes
/-!
# Statements of a batch

`convert_indexes`: behind the tables stand the indexes of all columns that relations point at, each
once. `convert_append`: a batch in two parts gives the tables of both, and of the indexes of the
second part those that the first part does not have already.
-/

namespace OrmDdl.Mysql

open Outcome

/-- The statements of a batch are its tables and its indexes. -/
theorem convert_eq_ok {switches : Switches} {models : List Model} {statements : List String}
    (h : convert switches models = .ok statements) :
    ∃ tables, models.map (createTable switches) = tables.map .ok ∧
      statements = tables ++ (indexedColumns switches models).eraseDups.map IndexTarget.sql := by
  obtain ⟨x, hx, h⟩ := bind_eq_ok.1 h
  cases h
  obtain ⟨htables, hset⟩ := convertFrom_eq_ok models hx
  refine ⟨x.1, htables, ?_⟩
  rw [hset]
  unfold IndexSet.sql
  rw [IndexSet.targets_insertAll_empty]

theorem mem_map_sql {t : IndexTarget} {l : List IndexTarget} :
    t.sql ∈ l.map IndexTarget.sql ↔ t ∈ l := by
  constructor
  · intro h
    obtain ⟨u, hu, heq⟩ := List.mem_map.1 h
    rw [← IndexTarget.sql_injective heq]
    exact hu
  · exact List.mem_map_of_mem

/-- The indexes of two lists of columns are those of the first, and those of the second without
the statements that the first has already. -/
theorem map_sql_eraseDups_append (ts us : List IndexTarget) :
    (ts ++ us).eraseDups.map IndexTarget.sql = ts.eraseDups.map IndexTarget.sql ++
      (us.eraseDups.map IndexTarget.sql).filter (· ∉ ts.eraseDups.map IndexTarget.sql) := by
  have hremove : us.removeAll ts = us.filter (· ∉ ts) := by
    refine List.filter_congr fun u _ => ?_
    by_cases hu : u ∈ ts
    · simp [hu]
    · simp [hu]
  have hsql : (fun t : IndexTarget => decide (t.sql ∉ ts.eraseDups.map IndexTarget.sql)) =
      fun t => decide (t ∉ ts) := by
    funext t
    rw [decide_eq_decide, mem_map_sql, List.mem_eraseDups]
  rw [List.eraseDups_append, List.map_append, hremove, eraseDups_filter, List.filter_map]
  unfold Function.comp
  rw [hsql]

theorem length_tables {models : List Model} {switches : Switches} {tables : List String}
    (h : models.map (createTable switches) = tables.map .ok) : models.length = tables.length := by
  simpa using congrArg List.length h

theorem take_tables {models : List Model} {switches : Switches} {tables : List String}
    (h : models.map (createTable switches) = tables.map .ok) (rest : List String) :
    (tables ++ rest).take models.length = tables ∧ (tables ++ rest).drop models.length = rest := by
  rw [length_tables h]
  exact ⟨List.take_left, List.drop_left⟩

/-- No table of a batch is missing. -/
theorem length_le_of_convert {models : List Model} {switches : Switches} {statements : List String}
    (h : convert switches models = .ok statements) : models.length ≤ statements.length := by
  obtain ⟨tables, htables, rfl⟩ := convert_eq_ok h
  rw [length_tables htables, List.length_append]
  exact Nat.le_add_right _ _

/-- A batch in two parts fails where the first part fails, else where the second does. Otherwise it
gives the tables of both, the indexes of the first, and those of the second that are new. -/
theorem convert_parts (switches : Switches) (xs ys : List Model) :
    convert switches (xs ++ ys) = do
      let x ← convert switches xs
      let y ← convert switches ys
      return x.take xs.length ++ y.take ys.length ++ x.drop xs.length ++
        (y.drop ys.length).filter (· ∉ x.drop xs.length) := by
  cases hx : convert switches xs with
  | error e =>
    obtain ⟨m, hm, hfault⟩ := convert_eq_error.1 hx
    exact convert_eq_error.2 ⟨m, (first_append xs ys).2 (.inl hm), hfault⟩
  | ok x =>
    have hxs := exists_convert.1 ⟨x, hx⟩
    cases hy : convert switches ys with
    | error e =>
      obtain ⟨m, hm, hfault⟩ := convert_eq_error.1 hy
      have hpass : ∀ m ∈ xs, ¬¬Compiles switches m := fun m hm => not_not_intro (hxs m hm)
      exact convert_eq_error.2 ⟨m, (first_append xs ys).2 (.inr ⟨hpass, hm⟩), hfault⟩
    | ok y =>
      have hys := exists_convert.1 ⟨y, hy⟩
      obtain ⟨q, hq⟩ := exists_convert.2 (List.forall_mem_append.2 ⟨hxs, hys⟩)
      rw [hq]
      obtain ⟨tx, htx, rfl⟩ := convert_eq_ok hx
      obtain ⟨ty, hty, rfl⟩ := convert_eq_ok hy
      obtain ⟨t, ht, rfl⟩ := convert_eq_ok hq
      have htables : tx ++ ty = t := by
        rw [List.map_append, htx, hty, ← List.map_append] at ht
        exact (List.map_inj_right fun _ _ => Except.ok.inj).1 ht
      show Except.ok _ = Except.ok _
      rw [(take_tables htx _).1, (take_tables htx _).2, (take_tables hty _).1,
        (take_tables hty _).2, indexedColumns_append, map_sql_eraseDups_append, ← htables,
        List.append_assoc (tx ++ ty)]

/-- A batch in two parts is translated part by part: of each part the tables come first, one a
model. Nothing is indexed twice: a batch that is repeated adds no index. -/
theorem convert_append (switches : Switches) (xs ys : List Model) :
    (convert switches (xs ++ ys) = do
      let x ← convert switches xs
      let y ← convert switches ys
      return x.take xs.length ++ y.take ys.length ++ x.drop xs.length ++
        (y.drop ys.length).filter (· ∉ x.drop xs.length)) ∧
    (convert switches (xs ++ xs) = do
      let x ← convert switches xs
      return x.take xs.length ++ x) ∧
    ∀ x, convert switches xs = .ok x → xs.length ≤ x.length := by
  refine ⟨convert_parts switches xs ys, ?_, fun x => length_le_of_convert⟩
  rw [convert_parts]
  cases convert switches xs with
  | error e => rfl
  | ok x =>
    have hnone : (x.drop xs.length).filter (· ∉ x.drop xs.length) = [] := by
      rw [List.filter_eq_nil_iff]
      intro q hq
      simpa using hq
    show Except.ok _ = Except.ok _
    rw [hnone, List.append_nil, List.append_assoc, List.take_append_drop]

/-- A guest points at a house by a column of its own. -/
def guest (name table : String) : Model :=
  ({ name, table } : Model)
    |>.withField "id" { types := .single .integer }
    |>.withRelation "house" {
        mode := .parent, a := ⟨name, table⟩, b := ⟨"House", "houses"⟩
        aKey := "house_id", bKey := "id" }

example : let cat := guest "Cat" "cats"
    let dog := guest "Dog" "dogs"
    convert ⟨false, true, true⟩ [cat] = .ok [
      "CREATE TABLE cats (id INT(11) NOT NULL AUTO_INCREMENT, PRIMARY KEY (id));",
      "CREATE INDEX index_cats__house_id ON cats (house_id);"] ∧
    convert ⟨false, true, true⟩ [dog, cat] = .ok [
      "CREATE TABLE dogs (id INT(11) NOT NULL AUTO_INCREMENT, PRIMARY KEY (id));",
      "CREATE TABLE cats (id INT(11) NOT NULL AUTO_INCREMENT, PRIMARY KEY (id));",
      "CREATE INDEX index_dogs__house_id ON dogs (house_id);",
      "CREATE INDEX index_cats__house_id ON cats (house_id);"] ∧
    convert ⟨false, true, true⟩ ([cat] ++ [dog, cat]) = .ok [
      "CREATE TABLE cats (id INT(11) NOT NULL AUTO_INCREMENT, PRIMARY KEY (id));",
      "CREATE TABLE dogs (id INT(11) NOT NULL AUTO_INCREMENT, PRIMARY KEY (id));",
      "CREATE TABLE cats (id INT(11) NOT NULL AUTO_INCREMENT, PRIMARY KEY (id));",
      "CREATE INDEX index_cats__house_id ON cats (house_id);",
      "CREATE INDEX index_dogs__house_id ON dogs (house_id);"] := by
  decide +kernel

/-- Behind the tables stand the indexes of all columns that relations point at, in the order in
which they first occur. No statement stands twice, and no name stands twice on one table. -/
theorem convert_indexes {switches : Switches} {models : List Model} {statements : List String}
    (hindexed : switches.autoIndexes = true) (h : convert switches models = .ok statements) :
    models.length ≤ statements.length ∧
      statements.drop models.length = (batchColumns models).eraseDups.map IndexTarget.sql ∧
      (statements.drop models.length).Nodup ∧
      ∀ t u : IndexTarget, t ≠ u → t.table = u.table → t.name ≠ u.name := by
  refine ⟨length_le_of_convert h, ?_⟩
  obtain ⟨tables, htables, rfl⟩ := convert_eq_ok h
  have hcolumns : indexedColumns switches models = batchColumns models := if_pos hindexed
  rw [(take_tables htables _).2, hcolumns]
  refine ⟨rfl, ?_, ?_⟩
  · have hnodup := ((∅ : IndexSet).insertAll (batchColumns models)).nodup
    rw [IndexSet.targets_insertAll_empty] at hnodup
    exact List.pairwise_map.2 (hnodup.imp fun hne heq => hne (IndexTarget.sql_injective heq))
  · intro t u hne htable hname
    exact hne (IndexTarget.name_injective htable hname)

/-- A model whose relations point at two columns that share a name of an index, and at names that
look like parts of a statement. -/
def crossing : Model :=
  let a : ModelRef := ⟨"A", "a__b"⟩
  let b : ModelRef := ⟨"B", "a"⟩
  ({ name := "A", table := "a__b" } : Model)
    |>.withField "id" { types := .single .integer }
    |>.withRelation "up" { mode := .parent, a := a, b := b, aKey := "c", bKey := "id" }
    |>.withRelation "down" { mode := .child, a := a, b := b, aKey := "id", bKey := "b__c" }
    |>.withRelation "across" {
        mode := .through, a := a, b := b, aKey := "id", bKey := "b__c"
        via := some ⟨"J", "j ON k ("⟩, viaAKey := some ")" }

theorem convert_indexes_crossing : ∃ statements,
    convert ⟨false, true, true⟩ [crossing, crossing] = .ok statements ∧ statements.length = 5 ∧
      2 ≤ statements.length ∧
      statements.drop 2 = (batchColumns [crossing, crossing]).eraseDups.map IndexTarget.sql ∧
      (statements.drop 2).Nodup ∧
      ∀ t u : IndexTarget, t ≠ u → t.table = u.table → t.name ≠ u.name := by
  have h : convert ⟨false, true, true⟩ [crossing, crossing] = .ok
      ["CREATE TABLE a__b (id INT(11) NOT NULL AUTO_INCREMENT, PRIMARY KEY (id));",
       "CREATE TABLE a__b (id INT(11) NOT NULL AUTO_INCREMENT, PRIMARY KEY (id));",
       "CREATE INDEX index_a__b__c ON a__b (c);",
       "CREATE INDEX index_a__b__c ON a (b__c);",
       "CREATE INDEX index_j ON k (__) ON j ON k ( ());"] := by decide +kernel
  exact ⟨_, h, rfl, convert_indexes rfl h⟩

end OrmDdl.Mysql
