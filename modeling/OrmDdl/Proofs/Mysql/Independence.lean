import OrmDdl.Proofs.Mysql.Batch
/-!
# Switches are independent

`convert_switches`: comments and the layout change neither the outcome of a batch nor its indexes,
and asking for indexes changes no table. It can only make a batch fail that would not, or earlier
than it would, and then for a relation. Where a batch fails is told by its fronts (`FailsAt`).
-/

namespace OrmDdl.Mysql

open Outcome

/-! ## The place of a failure -/

/-- A batch fails at the model in a place: the models before it are translated, and with it they
are not. -/
structure FailsAt (switches : Switches) (models : List Model) (i : Nat) (e : SchemaError) :
    Prop where
  inBatch : i < models.length
  before : ∃ statements, convert switches (models.take i) = .ok statements
  fails : convert switches (models.take (i + 1)) = .error e

theorem failsAt_iff {switches : Switches} {models : List Model} {i : Nat} {e : SchemaError} :
    FailsAt switches models i e ↔ ∃ m, models[i]? = some m ∧
      (∀ n ∈ models.take i, Compiles switches n) ∧ ModelFault switches m e := by
  constructor
  · rintro ⟨hi, hbefore, hfails⟩
    have hcompiles := exists_convert.1 hbefore
    refine ⟨models[i], List.getElem?_eq_getElem hi, hcompiles, ?_⟩
    obtain ⟨m, hfirst, hfault⟩ := convert_eq_error.1 hfails
    rw [List.take_add_one, List.getElem?_eq_getElem hi, Option.toList_some, first_append] at hfirst
    rcases hfirst with ⟨before, after, hsplit, hm, -⟩ | ⟨-, hfirst⟩
    · exact absurd (hcompiles m (by rw [hsplit]; simp)) hm
    · rcases first_cons.1 hfirst with ⟨-, rfl⟩ | ⟨-, hnone⟩
      · exact hfault
      · exact absurd hnone not_first_nil
  · rintro ⟨m, hm, hcompiles, hfault⟩
    obtain ⟨hi, -⟩ := List.getElem?_eq_some_iff.1 hm
    have hpass : ∀ n ∈ models.take i, ¬¬Compiles switches n :=
      fun n hn => not_not_intro (hcompiles n hn)
    refine ⟨hi, exists_convert.2 hcompiles, convert_eq_error.2 ⟨m, ?_, hfault⟩⟩
    rw [List.take_add_one, hm, Option.toList_some, first_append]
    exact .inr ⟨hpass, first_cons.2 (.inl ⟨hfault.not_compiles, rfl⟩)⟩

/-- A batch that fails does so in some place. -/
theorem convert_eq_error_iff_failsAt {switches : Switches} {models : List Model}
    {e : SchemaError} :
    convert switches models = .error e ↔ ∃ i, FailsAt switches models i e := by
  rw [convert_eq_error]
  simp only [failsAt_iff]
  constructor
  · rintro ⟨m, hfirst, hfault⟩
    obtain ⟨i, hi, -, hpass⟩ := first_iff_take.1 hfirst
    exact ⟨i, m, hi, fun n hn => Classical.not_not.1 (hpass n hn), hfault⟩
  · rintro ⟨i, m, hi, hcompiles, hfault⟩
    refine ⟨m, first_iff_take.2 ⟨i, hi, hfault.not_compiles, ?_⟩, hfault⟩
    exact fun n hn => not_not_intro (hcompiles n hn)

/-- What a front of a batch fails at, the batch fails at. -/
theorem FailsAt.of_take {switches : Switches} {models : List Model} {i j : Nat} {e : SchemaError}
    (h : FailsAt switches (models.take j) i e) : i < j ∧ FailsAt switches models i e := by
  obtain ⟨hi, hbefore, hfails⟩ := h
  rw [List.length_take] at hi
  have hij : i < j := by omega
  have hfront : min i j = i := by omega
  have hwith : min (i + 1) j = i + 1 := by omega
  rw [List.take_take, hfront] at hbefore
  rw [List.take_take, hwith] at hfails
  exact ⟨hij, by omega, hbefore, hfails⟩

/-! ## Switches that ask for the same -/

theorem Compiles.congr {s t : Switches} (h : s.autoIndexes = t.autoIndexes) {m : Model}
    (hm : Compiles s m) : Compiles t m where
  hasField := hm.hasField
  mappable := hm.mappable
  joined := by
    rw [← h]
    exact hm.joined

theorem ModelFault.congr {s t : Switches} (h : s.autoIndexes = t.autoIndexes) {m : Model}
    {e : SchemaError} (hm : ModelFault s m e) : ModelFault t m e := by
  cases hm with
  | table hm => exact .table hm
  | relation indexed hasField mappable hm => exact .relation (h ▸ indexed) hasField mappable hm

theorem convert_error_congr {s t : Switches} (h : s.autoIndexes = t.autoIndexes)
    {models : List Model} {e : SchemaError} (he : convert s models = .error e) :
    convert t models = .error e := by
  obtain ⟨m, ⟨before, after, hsplit, hm, hpass⟩, hfault⟩ := convert_eq_error.1 he
  refine convert_eq_error.2 ⟨m, ⟨before, after, hsplit, ?_, ?_⟩, hfault.congr h⟩
  · exact fun hc => hm (hc.congr h.symm)
  · exact fun n hn hc => hpass n hn fun hn => hc (hn.congr h)

theorem indexedColumns_congr {s t : Switches} (h : s.autoIndexes = t.autoIndexes)
    (models : List Model) : indexedColumns s models = indexedColumns t models := by
  unfold indexedColumns
  rw [h]

/-- Comments and the layout change neither the outcome nor the indexes. -/
theorem convert_congr {s t : Switches} (h : s.autoIndexes = t.autoIndexes) (models : List Model) :
    (∃ e, convert s models = .error e ∧ convert t models = .error e) ∨
      ∃ x y, convert s models = .ok x ∧ convert t models = .ok y ∧ x.length = y.length ∧
        x.drop models.length = y.drop models.length := by
  cases hs : convert s models with
  | error e => exact .inl ⟨e, rfl, convert_error_congr h hs⟩
  | ok x =>
    cases ht : convert t models with
    | error e =>
      rw [convert_error_congr h.symm ht] at hs
      cases hs
    | ok y =>
      refine .inr ⟨x, y, rfl, rfl, ?_⟩
      obtain ⟨tx, htx, rfl⟩ := convert_eq_ok hs
      obtain ⟨ty, hty, rfl⟩ := convert_eq_ok ht
      rw [(take_tables htx _).2, (take_tables hty _).2, indexedColumns_congr h, List.length_append,
        List.length_append, ← length_tables htx, ← length_tables hty]
      exact ⟨rfl, rfl⟩

/-! ## With and without indexes -/

section

variable {s : Switches} {models : List Model}

/-- A model that compiles with indexes compiles without. -/
theorem Compiles.unindexed {m : Model} (h : Compiles s m) :
    Compiles { s with autoIndexes := false } m :=
  ⟨h.hasField, h.mappable, fun h => nomatch h⟩

/-- Without indexes a model is refused for its table only, and so it is with indexes. -/
theorem ModelFault.indexed {m : Model} {e : SchemaError}
    (h : ModelFault { s with autoIndexes := false } m e) :
    ModelFault { s with autoIndexes := true } m e := by
  cases h with
  | table h => exact .table h
  | relation indexed _ _ _ => exact nomatch indexed

/-- What only indexes make fail, a relation makes fail. -/
theorem ModelFault.relation_of_unindexed {m : Model} {e : SchemaError}
    (hm : Compiles { s with autoIndexes := false } m)
    (h : ModelFault { s with autoIndexes := true } m e) :
    ∃ relation defect, e = .malformedRelation m.name relation defect := by
  cases h with
  | table h => exact absurd hm (ModelFault.table h).not_compiles
  | relation _ _ _ h =>
    obtain ⟨r, -, defect, -, rfl⟩ := h
    exact ⟨r.1, defect, rfl⟩

theorem convert_unindexed {x : List String}
    (h : convert { s with autoIndexes := true } models = .ok x) :
    convert { s with autoIndexes := false } models = .ok (x.take models.length) := by
  have hcompiles := exists_convert.1 ⟨x, h⟩
  obtain ⟨y, hy⟩ := exists_convert.2 fun m hm => (hcompiles m hm).unindexed
  obtain ⟨tx, htx, rfl⟩ := convert_eq_ok h
  obtain ⟨ty, hty, rfl⟩ := convert_eq_ok hy
  have htables : tx.map Except.ok = ty.map Except.ok := htx.symm.trans hty
  have heq : tx = ty := (List.map_inj_right fun _ _ => Except.ok.inj).1 htables
  have hnone : indexedColumns { s with autoIndexes := false } models = [] :=
    if_neg Bool.false_ne_true
  rw [(take_tables htx _).1, heq, hy, hnone, List.eraseDups_nil, List.map_nil, List.append_nil]

/-- A batch that only indexes make fail fails at a relation. -/
theorem FailsAt.relation {x : List String} {e : SchemaError} {i : Nat}
    (hx : convert { s with autoIndexes := false } models = .ok x)
    (h : FailsAt { s with autoIndexes := true } models i e) : ∃ m ∈ models[i]?,
      ∃ relation defect, e = .malformedRelation m.name relation defect := by
  obtain ⟨m, hm, -, hfault⟩ := failsAt_iff.1 h
  have hcompiles := exists_convert.1 ⟨x, hx⟩ m (List.mem_of_getElem? hm)
  exact ⟨m, hm, hfault.relation_of_unindexed hcompiles⟩

/-- A failure without indexes is one with them, unless a relation of an earlier model fails. -/
theorem FailsAt.indexed {i : Nat} {e : SchemaError}
    (h : FailsAt { s with autoIndexes := false } models i e) :
    FailsAt { s with autoIndexes := true } models i e ∨
      ∃ j < i, ∃ m ∈ models[j]?, ∃ relation defect,
        FailsAt { s with autoIndexes := true } models j
          (.malformedRelation m.name relation defect) := by
  obtain ⟨m, hm, hcompiles, hfault⟩ := failsAt_iff.1 h
  cases hfront : convert { s with autoIndexes := true } (models.take i) with
  | ok x => exact .inl (failsAt_iff.2 ⟨m, hm, exists_convert.1 ⟨x, hfront⟩, hfault.indexed⟩)
  | error d =>
    obtain ⟨j, hj⟩ := convert_eq_error_iff_failsAt.1 hfront
    obtain ⟨x, hx⟩ := h.before
    obtain ⟨n, hn, relation, defect, rfl⟩ := hj.relation hx
    obtain ⟨hlt, hfails⟩ := hj.of_take
    rw [List.getElem?_take_of_lt hlt] at hn
    exact .inr ⟨j, hlt, n, hn, relation, defect, hfails⟩

end

/-- Comments and the layout change neither the outcome of a batch nor its indexes. Indexes change no
table: they are added behind the tables, or else a relation fails before anything else does. -/
theorem convert_switches (models : List Model) :
    (∀ s t : Switches, s.autoIndexes = t.autoIndexes →
      (∃ e, convert s models = .error e ∧ convert t models = .error e) ∨
        ∃ x y, convert s models = .ok x ∧ convert t models = .ok y ∧ x.length = y.length ∧
          x.drop models.length = y.drop models.length) ∧
    ∀ s : Switches,
      (∀ x, convert { s with autoIndexes := true } models = .ok x →
        convert { s with autoIndexes := false } models = .ok (x.take models.length)) ∧
      (∀ x e, convert { s with autoIndexes := false } models = .ok x →
        convert { s with autoIndexes := true } models = .error e →
          ∃ model relation defect, e = .malformedRelation model relation defect) ∧
      (∀ e, convert { s with autoIndexes := false } models = .error e ↔
        ∃ i, FailsAt { s with autoIndexes := false } models i e) ∧
      ∀ i e, FailsAt { s with autoIndexes := false } models i e →
        convert { s with autoIndexes := true } models = .error e ∨
          ∃ j < i, ∃ m ∈ models[j]?, ∃ relation defect,
            FailsAt { s with autoIndexes := true } models j
                (.malformedRelation m.name relation defect) ∧
              convert { s with autoIndexes := true } models =
                .error (.malformedRelation m.name relation defect) := by
  refine ⟨fun s t h => convert_congr h models, fun s => ⟨fun x => convert_unindexed, ?_,
    fun e => convert_eq_error_iff_failsAt, ?_⟩⟩
  · intro x e hx he
    obtain ⟨i, hi⟩ := convert_eq_error_iff_failsAt.1 he
    obtain ⟨m, -, relation, defect, rfl⟩ := hi.relation hx
    exact ⟨m.name, relation, defect, rfl⟩
  · intro i e h
    rcases h.indexed with hsame | ⟨j, hj, m, hm, relation, defect, hfails⟩
    · exact .inl (convert_eq_error_iff_failsAt.2 ⟨i, hsame⟩)
    · exact .inr ⟨j, hj, m, hm, relation, defect, hfails,
        convert_eq_error_iff_failsAt.2 ⟨j, hfails⟩⟩

example : let cat := guest "Cat" "cats"
    convert ⟨true, false, true⟩ [cat] = .ok [
      "# Create table \"cats\" for model \"Cat\"\n\nCREATE TABLE cats (\n" ++
        "\tid INT(11) NOT NULL AUTO_INCREMENT,\n\tPRIMARY KEY (id)\n);",
      "CREATE INDEX index_cats__house_id ON cats (house_id);"] ∧
    convert ⟨false, true, true⟩ [cat] = .ok [
      "CREATE TABLE cats (id INT(11) NOT NULL AUTO_INCREMENT, PRIMARY KEY (id));",
      "CREATE INDEX index_cats__house_id ON cats (house_id);"] ∧
    convert ⟨false, true, false⟩ [cat] = .ok [
      "CREATE TABLE cats (id INT(11) NOT NULL AUTO_INCREMENT, PRIMARY KEY (id));"] := by
  decide +kernel

/-- An ox under a yoke, of which no model is known. -/
def ox : Model :=
  guest "Ox" "oxen"
    |>.withRelation "yoke" {
        mode := .through, a := ⟨"Ox", "oxen"⟩, b := ⟨"Ox", "oxen"⟩, aKey := "id", bKey := "id" }

example : let hare : Model := { name := "Hare", table := "hares" }
    convert ⟨false, true, false⟩ [ox, hare] = .error (.emptyModel "Hare") ∧
    convert ⟨false, true, true⟩ [ox, hare] =
      .error (.malformedRelation "Ox" "yoke" .noJunction) := by
  decide +kernel

end OrmDdl.Mysql
