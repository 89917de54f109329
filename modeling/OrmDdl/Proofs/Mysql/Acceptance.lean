import OrmDdl.Mysql.Translator
import OrmDdl.Proofs.Outcome
/-!
# Which models are translated

`convert_spec`: a batch is translated if and only if all its models compile, and otherwise the error
is the fault of the first one that does not. What compiles (`Compiles`) and what a model is refused
for (`ModelFault`) is said in terms of the model alone; the faults exclude one another, so they also
say which of several is named.
-/

namespace OrmDdl.Mysql

open Outcome

/-! ## Fields -/

/-- A field that has a column: a type besides `null`, no negative minimum if it is the key, and a
default of `null` only where the column takes one. -/
structure Mappable (model : Model) (name : String) (rule : FieldRule) : Prop where
  typed : ∃ t ∈ rule.types, t ≠ .null
  keyMin : name = model.idKey → ∀ min ∈ rule.min, ¬min < Double.zero
  nullDefault : (∃ v ∈ rule.defaultValue, v.value = .null) →
    .boolean ∈ rule.types ∨ .null ∈ rule.types

/-- The defect that a field is refused for, the first in this order. -/
inductive FieldFault (model : Model) (name : String) (rule : FieldRule) : FieldDefect → Prop
  | noColumnType (untyped : ∀ t ∈ rule.types, t = .null) :
      FieldFault model name rule (.noColumnType rule.types)
  | negativeKeyMinimum (typed : ∃ t ∈ rule.types, t ≠ .null) (isKey : name = model.idKey)
      (negative : ∃ min ∈ rule.min, min < Double.zero) :
      FieldFault model name rule .negativeKeyMinimum
  | nullDefault (typed : ∃ t ∈ rule.types, t ≠ .null)
      (keyMin : name = model.idKey → ∀ min ∈ rule.min, ¬min < Double.zero)
      (isNull : ∃ v ∈ rule.defaultValue, v.value = .null)
      (refused : .boolean ∉ rule.types ∧ .null ∉ rule.types) :
      FieldFault model name rule .nullDefault

theorem typed_iff {rule : FieldRule} :
    (∃ t ∈ rule.types, t ≠ .null) ↔ ¬∀ t ∈ rule.types, t = .null := by
  constructor
  · rintro ⟨t, ht, hne⟩ h
    exact hne (h t ht)
  · intro h
    apply Classical.byContradiction
    intro hn
    exact h fun t ht => Classical.byContradiction fun hne => hn ⟨t, ht, hne⟩

theorem mappable_iff {model : Model} {name : String} {rule : FieldRule} :
    Mappable model name rule ↔ ∀ defect, ¬FieldFault model name rule defect := by
  constructor
  · rintro ⟨htyped, hkey, hnull⟩ defect hfault
    cases hfault with
    | noColumnType untyped => exact typed_iff.1 htyped untyped
    | negativeKeyMinimum _ isKey negative =>
      obtain ⟨min, hmin, hneg⟩ := negative
      exact hkey isKey min hmin hneg
    | nullDefault _ _ isNull refused => exact (hnull isNull).elim refused.1 refused.2
  · intro h
    have htyped : ∃ t ∈ rule.types, t ≠ .null :=
      typed_iff.2 fun untyped => h _ (.noColumnType untyped)
    have hkey : name = model.idKey → ∀ min ∈ rule.min, ¬min < Double.zero :=
      fun isKey min hmin hneg => h _ (.negativeKeyMinimum htyped isKey ⟨min, hmin, hneg⟩)
    refine ⟨htyped, hkey, fun isNull => ?_⟩
    apply Classical.byContradiction
    intro hn
    exact h _ (.nullDefault htyped hkey isNull (not_or.1 hn))

theorem ofRule?_eq_none {rule : FieldRule} :
    ColumnType.ofRule? rule = none ↔ ∀ t ∈ rule.types, t = .null := by
  unfold ColumnType.ofRule?
  constructor
  · intro h t ht
    iterate 5
      split at h
      · cases h
    cases t <;> simp_all
  · intro h
    have hno : ∀ t : TypeTag, t ≠ .null → t ∉ rule.types := fun t hne ht => hne (h t ht)
    simp [hno]

theorem ofString_ne_boolean (rule : FieldRule) : ColumnType.ofString rule ≠ .boolean := by
  unfold ColumnType.ofString
  repeat' split
  all_goals simp

theorem ofRule?_eq_boolean {rule : FieldRule} :
    ColumnType.ofRule? rule = some .boolean ↔ .boolean ∈ rule.types := by
  unfold ColumnType.ofRule?
  by_cases hb : TypeTag.boolean ∈ rule.types
  · simp [hb]
  · rw [if_neg hb]
    refine ⟨fun h => ?_, fun h => absurd h hb⟩
    repeat' split at h
    all_goals simp [ofString_ne_boolean] at h

theorem hasNegativeMin_iff {rule : FieldRule} :
    rule.hasNegativeMin = true ↔ ∃ min ∈ rule.min, min < Double.zero := by
  unfold FieldRule.hasNegativeMin
  cases rule.min with
  | none => simp
  | some min => simp

theorem defaultOf_eq_error {rule : FieldRule} {type : ColumnType} {defect : FieldDefect}
    (h : ColumnType.ofRule? rule = some type) :
    Column.defaultOf type rule = .error defect ↔ defect = .nullDefault ∧
      (∃ v ∈ rule.defaultValue, v.value = .null) ∧ .boolean ∉ rule.types ∧ .null ∉ rule.types := by
  have hb : type = .boolean ↔ .boolean ∈ rule.types := by
    rw [← ofRule?_eq_boolean, h, Option.some_inj]
  have hnullable : rule.IsNullable ↔ .null ∈ rule.types := Iff.rfl
  unfold Column.defaultOf
  cases rule.defaultValue with
  | none => simp
  | some v =>
    obtain ⟨value, normal⟩ := v
    by_cases hbool : .boolean ∈ rule.types
    · simp [hb, hbool]
    · by_cases hnull : .null ∈ rule.types
      · cases value <;> simp [hb, hbool, hnullable, hnull]
      · cases value <;> simp [hb, hbool, hnullable, hnull, eq_comm]

theorem keyMinimum_iff {model : Model} {name : String} {rule : FieldRule} :
    (model.isIdKey name && rule.hasNegativeMin) = true ↔
      name = model.idKey ∧ ∃ min ∈ rule.min, min < Double.zero := by
  rw [Bool.and_eq_true, hasNegativeMin_iff]
  unfold Model.isIdKey
  rw [beq_iff_eq, eq_comm]

theorem fieldFault_of_untyped {model : Model} {name : String} {rule : FieldRule}
    {defect : FieldDefect} (huntyped : ∀ t ∈ rule.types, t = .null) :
    FieldFault model name rule defect ↔ defect = .noColumnType rule.types := by
  constructor
  · intro h
    cases h with
    | noColumnType _ => rfl
    | negativeKeyMinimum typed _ _ | nullDefault typed _ _ _ =>
      exact absurd huntyped (typed_iff.1 typed)
  · rintro rfl
    exact .noColumnType huntyped

theorem fieldFault_of_negative {model : Model} {name : String} {rule : FieldRule}
    {defect : FieldDefect} (htyped : ∃ t ∈ rule.types, t ≠ .null) (hkey : name = model.idKey)
    (hnegative : ∃ min ∈ rule.min, min < Double.zero) :
    FieldFault model name rule defect ↔ defect = .negativeKeyMinimum := by
  constructor
  · intro h
    cases h with
    | noColumnType untyped => exact absurd untyped (typed_iff.1 htyped)
    | negativeKeyMinimum _ _ _ => rfl
    | nullDefault _ keyMin _ _ =>
      obtain ⟨min, hmin, hneg⟩ := hnegative
      exact absurd hneg (keyMin hkey min hmin)
  · rintro rfl
    exact .negativeKeyMinimum htyped hkey hnegative

theorem fieldFault_of_keyMin {model : Model} {name : String} {rule : FieldRule}
    {defect : FieldDefect} (htyped : ∃ t ∈ rule.types, t ≠ .null)
    (hkey : ¬(name = model.idKey ∧ ∃ min ∈ rule.min, min < Double.zero)) :
    FieldFault model name rule defect ↔ defect = .nullDefault ∧
      (∃ v ∈ rule.defaultValue, v.value = .null) ∧ .boolean ∉ rule.types ∧ .null ∉ rule.types := by
  constructor
  · intro h
    cases h with
    | noColumnType untyped => exact absurd untyped (typed_iff.1 htyped)
    | negativeKeyMinimum _ isKey negative => exact absurd ⟨isKey, negative⟩ hkey
    | nullDefault _ _ isNull refused => exact ⟨rfl, isNull, refused⟩
  · rintro ⟨rfl, isNull, refused⟩
    have keyMin : name = model.idKey → ∀ min ∈ rule.min, ¬min < Double.zero :=
      fun isKey min hmin hneg => hkey ⟨isKey, min, hmin, hneg⟩
    exact .nullDefault htyped keyMin isNull refused

/-- The column of a field is refused for its fault, and for nothing else. -/
theorem ofRule_eq_error {model : Model} {name : String} {rule : FieldRule} {defect : FieldDefect} :
    Column.ofRule (model.isIdKey name) name rule = .error defect ↔
      FieldFault model name rule defect := by
  unfold Column.ofRule
  cases htype : ColumnType.ofRule? rule with
  | none =>
    rw [fieldFault_of_untyped (ofRule?_eq_none.1 htype), Except.error.injEq, eq_comm]
  | some type =>
    have htyped : ∃ t ∈ rule.types, t ≠ .null := by
      rw [typed_iff, ← ofRule?_eq_none, htype]
      simp
    dsimp only
    by_cases hkey : (model.isIdKey name && rule.hasNegativeMin) = true
    · obtain ⟨isKey, negative⟩ := keyMinimum_iff.1 hkey
      rw [if_pos hkey, fieldFault_of_negative htyped isKey negative, Except.error.injEq, eq_comm]
    · rw [if_neg hkey, fieldFault_of_keyMin htyped (mt keyMinimum_iff.2 hkey),
        ← defaultOf_eq_error htype]
      cases Column.defaultOf type rule with
      | error d =>
        constructor
        · rintro ⟨⟩
          rfl
        · rintro ⟨⟩
          rfl
      | ok clause =>
        constructor
        · rintro ⟨⟩
        · rintro ⟨⟩

theorem ofField_eq_error {model : Model} {name : String} {rule : FieldRule} {e : SchemaError} :
    Column.ofField model name rule = .error e ↔
      ∃ defect, FieldFault model name rule defect ∧ e = .malformedField model.name name defect := by
  unfold Column.ofField
  rw [mapError_eq_error]
  simp only [ofRule_eq_error]

theorem exists_ofField {model : Model} {name : String} {rule : FieldRule} :
    (∃ c, Column.ofField model name rule = .ok c) ↔ Mappable model name rule := by
  rw [exists_ok_iff, mappable_iff]
  constructor
  · intro h defect hfault
    exact h _ (ofField_eq_error.2 ⟨defect, hfault, rfl⟩)
  · intro h e he
    obtain ⟨defect, hfault, -⟩ := ofField_eq_error.1 he
    exact h defect hfault

/-! ## Tables -/

/-- The error for the first field that cannot be mapped. -/
def Unmappable (model : Model) (fields : List (String × FieldRule)) (e : SchemaError) : Prop :=
  ∃ f, First (fun f => ¬Mappable model f.1 f.2) fields f ∧
    ∃ defect, FieldFault model f.1 f.2 defect ∧ e = .malformedField model.name f.1 defect

theorem columnsOf_eq_error {model : Model} {e : SchemaError} (fields : List (String × FieldRule)) :
    Table.columnsOf model fields = .error e ↔ Unmappable model fields e := by
  unfold Unmappable
  induction fields with
  | nil =>
    constructor
    · rintro ⟨⟩
    · rintro ⟨f, hf, -⟩
      exact absurd hf not_first_nil
  | cons f r ih =>
    rw [Table.columnsOf, bind_eq_error_iff fun _ _ => bind_pure_eq_error, ih, exists_first_cons, exists_ofField,
      ofField_eq_error, Classical.not_not]
    refine or_congr_left ⟨fun h => ⟨fun hm => ?_, h⟩, And.right⟩
    obtain ⟨defect, hfault, -⟩ := h
    exact mappable_iff.1 hm defect hfault

theorem exists_columnsOf {model : Model} (fields : List (String × FieldRule)) :
    (∃ columns, Table.columnsOf model fields = .ok columns) ↔
      ∀ f ∈ fields, Mappable model f.1 f.2 := by
  induction fields with
  | nil => simp [Table.columnsOf]
  | cons f r ih =>
    rw [Table.columnsOf, exists_bind_eq_ok fun _ _ => exists_bind_pure, exists_ofField, ih,
      List.forall_mem_cons]

/-- The error that no table is made for: a model without fields, then the first field without types,
then the first field that cannot be mapped. -/
inductive TableFault (model : Model) : SchemaError → Prop
  | empty (noFields : model.fields.entries = []) : TableFault model (.emptyModel model.name)
  | untyped {name : String} {rule : FieldRule}
      (first : First (fun f => f.2.types.tags = []) model.fields.entries (name, rule)) :
      TableFault model (.malformedField model.name name .noTypes)
  | unmappable {e : SchemaError} (typed : ∀ f ∈ model.fields.entries, f.2.types.tags ≠ [])
      (h : Unmappable model model.fields.entries e) : TableFault model e

theorem find?_untyped {fields : List (String × FieldRule)} {f : String × FieldRule} :
    fields.find? (·.2.types.isEmpty) = some f ↔ First (fun f => f.2.types.tags = []) fields f := by
  rw [find?_eq_some_iff_first]
  simp [TypeSet.isEmpty]

theorem validate_eq_error {model : Model} {e : SchemaError} :
    model.validate = .error e ↔ (model.fields.entries = [] ∧ e = .emptyModel model.name) ∨
      ∃ f, First (fun f => f.2.types.tags = []) model.fields.entries f ∧
        e = .malformedField model.name f.1 .noTypes := by
  unfold Model.validate Model.firstUntyped? NameMap.isEmpty
  simp only [List.isEmpty_iff]
  by_cases hempty : model.fields.entries = []
  · rw [if_pos hempty]
    constructor
    · rintro ⟨⟩
      exact .inl ⟨hempty, rfl⟩
    · rintro (⟨-, rfl⟩ | ⟨f, hf, -⟩)
      · rfl
      · rw [hempty] at hf
        exact absurd hf not_first_nil
  · rw [if_neg hempty]
    cases hfind : model.fields.entries.find? (·.2.types.isEmpty) with
    | none =>
      constructor
      · rintro ⟨⟩
      · rintro (⟨h, -⟩ | ⟨f, hf, -⟩)
        · exact absurd h hempty
        · rw [← find?_untyped, hfind] at hf
          cases hf
    | some f =>
      constructor
      · rintro ⟨⟩
        exact .inr ⟨f, find?_untyped.1 hfind, rfl⟩
      · rintro (⟨h, -⟩ | ⟨g, hg, rfl⟩)
        · exact absurd h hempty
        · rw [← find?_untyped, hfind] at hg
          cases hg
          rfl

theorem validate_eq_ok {model : Model} : model.validate = .ok () ↔
    model.fields.entries ≠ [] ∧ ∀ f ∈ model.fields.entries, f.2.types.tags ≠ [] := by
  unfold Model.validate Model.firstUntyped? NameMap.isEmpty
  simp only [List.isEmpty_iff]
  by_cases hempty : model.fields.entries = []
  · simp [hempty]
  · rw [if_neg hempty]
    cases hfind : model.fields.entries.find? (·.2.types.isEmpty) with
    | none =>
      rw [List.find?_eq_none] at hfind
      refine ⟨fun _ => ⟨hempty, fun f hf htags => hfind f hf ?_⟩, fun _ => rfl⟩
      simp [TypeSet.isEmpty, htags]
    | some f =>
      refine ⟨fun h => (nomatch h), fun ⟨_, h⟩ => ?_⟩
      have htags : f.2.types.tags = [] := by simpa [TypeSet.isEmpty] using List.find?_some hfind
      exact absurd htags (h f (List.mem_of_find?_eq_some hfind))

theorem createTable_eq_error {switches : Switches} {model : Model} {e : SchemaError} :
    createTable switches model = .error e ↔ TableFault model e := by
  unfold createTable Table.ofModel
  rw [map_eq_pure_bind, bind_pure_eq_error, bind_eq_error_iff fun _ _ => bind_pure_eq_error,
    validate_eq_error, columnsOf_eq_error]
  constructor
  · rintro ((⟨hempty, rfl⟩ | ⟨f, hf, rfl⟩) | ⟨⟨_, hvalid⟩, h⟩)
    · exact .empty hempty
    · exact .untyped hf
    · exact .unmappable (validate_eq_ok.1 hvalid).2 h
  · intro h
    cases h with
    | empty hempty => exact .inl (.inl ⟨hempty, rfl⟩)
    | @untyped name rule hf => exact .inl (.inr ⟨(name, rule), hf, rfl⟩)
    | unmappable typed h =>
      refine .inr ⟨⟨(), validate_eq_ok.2 ⟨?_, typed⟩⟩, h⟩
      intro hempty
      obtain ⟨f, hf, -⟩ := h
      rw [hempty] at hf
      exact not_first_nil hf

theorem Mappable.tags_ne_nil {model : Model} {name : String} {rule : FieldRule}
    (h : Mappable model name rule) : rule.types.tags ≠ [] := by
  obtain ⟨t, ht, -⟩ := h.typed
  rw [TypeSet.mem_iff] at ht
  exact List.ne_nil_of_mem ht

theorem exists_createTable {switches : Switches} {model : Model} :
    (∃ table, createTable switches model = .ok table) ↔
      model.fields.entries ≠ [] ∧ ∀ f ∈ model.fields.entries, Mappable model f.1 f.2 := by
  unfold createTable Table.ofModel
  rw [map_eq_pure_bind, exists_bind_pure, exists_bind_eq_ok fun _ _ => exists_bind_pure,
    exists_columnsOf]
  constructor
  · rintro ⟨⟨_, hvalid⟩, hmappable⟩
    exact ⟨(validate_eq_ok.1 hvalid).1, hmappable⟩
  · rintro ⟨hempty, hmappable⟩
    exact ⟨⟨(), validate_eq_ok.2 ⟨hempty, fun f hf => (hmappable f hf).tags_ne_nil⟩⟩, hmappable⟩

/-! ## Relations -/

/-- A relation through a junction has the model of the junction and its key. -/
def Joined (r : Relation) : Prop := r.mode = .through → r.via.isSome ∧ r.viaAKey.isSome

/-- The defect that a relation is refused for, the first in this order. -/
inductive RelationFault (r : Relation) : RelationDefect → Prop
  | noJunction (through : r.mode = .through) (via : r.via = none) : RelationFault r .noJunction
  | noJunctionKey (through : r.mode = .through) (via : r.via.isSome) (viaAKey : r.viaAKey = none) :
      RelationFault r .noJunctionKey

theorem joined_iff {r : Relation} : Joined r ↔ ∀ defect, ¬RelationFault r defect := by
  constructor
  · intro h defect hfault
    cases hfault with
    | noJunction through via => simpa [via] using (h through).1
    | noJunctionKey through _ viaAKey => simpa [viaAKey] using (h through).2
  · intro h through
    cases hvia : r.via with
    | none => exact absurd (.noJunction through hvia) (h _)
    | some via =>
      cases hkey : r.viaAKey with
      | none => exact absurd (.noJunctionKey through (by rw [hvia]; rfl) hkey) (h _)
      | some key => exact ⟨rfl, rfl⟩

theorem relationTargets_eq_error {r : Relation} {defect : RelationDefect} :
    relationTargets r = .error defect ↔ RelationFault r defect := by
  unfold relationTargets
  constructor
  · intro h
    split at h
    · cases h
    · cases h
    · cases h
    · rename_i hmode
      split at h
      · rename_i hvia
        cases h
        exact .noJunction hmode hvia
      · rename_i hvia hkey
        cases h
        exact .noJunctionKey hmode (by rw [hvia]; rfl) hkey
      · cases h
  · intro h
    cases h with
    | noJunction through via => rw [through, via]
    | noJunctionKey through via viaAKey =>
      obtain ⟨m, hm⟩ := Option.isSome_iff_exists.1 via
      rw [through, hm, viaAKey]

theorem exists_relationTargets {r : Relation} :
    (∃ targets, relationTargets r = .ok targets) ↔ Joined r := by
  rw [exists_ok_iff, joined_iff]
  simp only [ne_eq, relationTargets_eq_error]

/-- The error for the first relation that lacks a part of its junction. -/
def Unjoined (model : Model) (relations : List (String × Relation)) (e : SchemaError) : Prop :=
  ∃ r, First (fun r => ¬Joined r.2) relations r ∧
    ∃ defect, RelationFault r.2 defect ∧ e = .malformedRelation model.name r.1 defect

theorem gather_eq_some {model : Model} {e : SchemaError} (relations : List (String × Relation)) :
    ∀ s : IndexSet, (gather model.name relations s).1 = some e ↔ Unjoined model relations e := by
  unfold Unjoined
  induction relations with
  | nil =>
    intro s
    constructor
    · rintro ⟨⟩
    · rintro ⟨r, hr, -⟩
      exact absurd hr not_first_nil
  | cons r rest ih =>
    intro s
    obtain ⟨name, r⟩ := r
    rw [exists_first_cons, gather]
    cases ht : relationTargets r with
    | error defect =>
      have hfault := relationTargets_eq_error.1 ht
      have hr : ¬Joined r := fun h => joined_iff.1 h _ hfault
      constructor
      · rintro ⟨⟩
        exact .inl ⟨hr, defect, hfault, rfl⟩
      · rintro (⟨-, d, hd, rfl⟩ | ⟨h, -⟩)
        · rw [← relationTargets_eq_error, ht] at hd
          cases hd
          rfl
        · exact absurd hr h
    | ok targets =>
      have hr : Joined r := exists_relationTargets.1 ⟨targets, ht⟩
      rw [ih]
      constructor
      · exact fun h => .inr ⟨not_not_intro hr, h⟩
      · rintro (⟨h, -⟩ | ⟨-, h⟩)
        · exact absurd hr h
        · exact h

theorem gather_eq_none {model : Model} (relations : List (String × Relation)) :
    ∀ s : IndexSet, (gather model.name relations s).1 = none ↔ ∀ r ∈ relations, Joined r.2 := by
  induction relations with
  | nil => intro s; simp [gather]
  | cons r rest ih =>
    intro s
    obtain ⟨name, r⟩ := r
    rw [gather, List.forall_mem_cons]
    cases ht : relationTargets r with
    | error defect =>
      have hr : ¬Joined r := fun h => joined_iff.1 h _ (relationTargets_eq_error.1 ht)
      simp [hr]
    | ok targets =>
      have hr : Joined r := exists_relationTargets.1 ⟨targets, ht⟩
      simp [hr, ih]

/-! ## Models -/

/-- A model that is translated: it has fields, all of them columns, and where indexes are asked for
all its relations are complete. -/
structure Compiles (switches : Switches) (model : Model) : Prop where
  hasField : model.fields.entries ≠ []
  mappable : ∀ f ∈ model.fields.entries, Mappable model f.1 f.2
  joined : switches.autoIndexes = true → ∀ r ∈ model.relations.entries, Joined r.2

/-- The error that a model is refused for; relations count once there is a table. -/
inductive ModelFault (switches : Switches) (model : Model) : SchemaError → Prop
  | table {e : SchemaError} (h : TableFault model e) : ModelFault switches model e
  | relation {e : SchemaError} (indexed : switches.autoIndexes = true)
      (hasField : model.fields.entries ≠ [])
      (mappable : ∀ f ∈ model.fields.entries, Mappable model f.1 f.2)
      (h : Unjoined model model.relations.entries e) : ModelFault switches model e

theorem addIndexes_eq_error {switches : Switches} {model : Model} {indexes : IndexSet}
    {e : SchemaError} : addIndexes switches model indexes = .error e ↔
      switches.autoIndexes = true ∧ Unjoined model model.relations.entries e := by
  unfold addIndexes collectIndexes
  rw [← gather_eq_some model.relations.entries indexes]
  cases switches.autoIndexes with
  | false => simp
  | true =>
    rw [if_pos rfl]
    obtain ⟨fault, s⟩ := gather model.name model.relations.entries indexes
    cases fault <;> simp

theorem exists_addIndexes {switches : Switches} {model : Model} {indexes : IndexSet} :
    (∃ s, addIndexes switches model indexes = .ok s) ↔
      (switches.autoIndexes = true → ∀ r ∈ model.relations.entries, Joined r.2) := by
  unfold addIndexes collectIndexes
  rw [← gather_eq_none model.relations.entries indexes]
  cases switches.autoIndexes with
  | false => simp
  | true =>
    rw [if_pos rfl]
    obtain ⟨fault, s⟩ := gather model.name model.relations.entries indexes
    cases fault <;> simp

theorem ModelFault.not_compiles {switches : Switches} {model : Model} {e : SchemaError}
    (h : ModelFault switches model e) : ¬Compiles switches model := by
  intro hc
  cases h with
  | table h =>
    have hcreate : ∃ table, createTable switches model = .ok table :=
      exists_createTable.2 ⟨hc.hasField, hc.mappable⟩
    obtain ⟨table, htable⟩ := hcreate
    rw [createTable_eq_error.2 h] at htable
    cases htable
  | relation indexed _ _ h =>
    obtain ⟨r, ⟨before, after, hr, hbad, -⟩, -⟩ := h
    exact hbad (hc.joined indexed r (by rw [hr]; simp))

/-- The first model fails, or the rest does after it has succeeded. -/
theorem convertFrom_cons_eq_error {switches : Switches} {model : Model} {models : List Model}
    {e : SchemaError} {q : Prop} (hrest : ∀ s, convertFrom switches models s = .error e ↔ q)
    (indexes : IndexSet) : convertFrom switches (model :: models) indexes = .error e ↔
      ModelFault switches model e ∨ Compiles switches model ∧ q := by
  rw [convertFrom, bind_eq_error_iff fun _ _ => bind_eq_error_iff fun s _ =>
    bind_pure_eq_error.trans (hrest s), createTable_eq_error, exists_createTable,
    addIndexes_eq_error, exists_addIndexes]
  constructor
  · rintro (h | ⟨⟨hfield, hmappable⟩, ⟨hindexed, h⟩ | ⟨hjoined, hq⟩⟩)
    · exact .inl (.table h)
    · exact .inl (.relation hindexed hfield hmappable h)
    · exact .inr ⟨⟨hfield, hmappable, hjoined⟩, hq⟩
  · rintro (h | ⟨⟨hfield, hmappable, hjoined⟩, hq⟩)
    · cases h with
      | table h => exact .inl h
      | relation indexed hfield hmappable h => exact .inr ⟨⟨hfield, hmappable⟩, .inl ⟨indexed, h⟩⟩
    · exact .inr ⟨⟨hfield, hmappable⟩, .inr ⟨hjoined, hq⟩⟩

theorem convertFrom_eq_error {switches : Switches} {e : SchemaError} (models : List Model) :
    ∀ indexes : IndexSet, convertFrom switches models indexes = .error e ↔
      ∃ m, First (fun m => ¬Compiles switches m) models m ∧ ModelFault switches m e := by
  induction models with
  | nil =>
    intro indexes
    constructor
    · rintro ⟨⟩
    · rintro ⟨m, hm, -⟩
      exact absurd hm not_first_nil
  | cons m r ih =>
    intro indexes
    rw [convertFrom_cons_eq_error ih, exists_first_cons, Classical.not_not]
    exact or_congr_left ⟨fun h => ⟨h.not_compiles, h⟩, And.right⟩

theorem exists_convertFrom {switches : Switches} (models : List Model) : ∀ indexes : IndexSet,
    (∃ x, convertFrom switches models indexes = .ok x) ↔ ∀ m ∈ models, Compiles switches m := by
  induction models with
  | nil => intro indexes; simp [convertFrom]
  | cons m r ih =>
    intro indexes
    rw [convertFrom, exists_bind_eq_ok fun _ _ => exists_bind_eq_ok fun s _ =>
      exists_bind_pure.trans (ih s), exists_createTable, exists_addIndexes, List.forall_mem_cons]
    constructor
    · rintro ⟨⟨hfield, hmappable⟩, hjoined, hrest⟩
      exact ⟨⟨hfield, hmappable, hjoined⟩, hrest⟩
    · rintro ⟨⟨hfield, hmappable, hjoined⟩, hrest⟩
      exact ⟨⟨hfield, hmappable⟩, hjoined, hrest⟩

theorem ModelFault.isInputError {switches : Switches} {model : Model} {e : SchemaError}
    (h : ModelFault switches model e) : e.isInputError = true := by
  cases h with
  | table h =>
    cases h with
    | empty _ => rfl
    | untyped _ => rfl
    | unmappable _ h =>
      obtain ⟨f, -, defect, -, rfl⟩ := h
      rfl
  | relation _ _ _ h =>
    obtain ⟨r, -, defect, -, rfl⟩ := h
    rfl

theorem convert_eq_error {switches : Switches} {models : List Model} {e : SchemaError} :
    convert switches models = .error e ↔
      ∃ m, First (fun m => ¬Compiles switches m) models m ∧ ModelFault switches m e := by
  unfold convert
  rw [bind_pure_eq_error, convertFrom_eq_error]

theorem exists_convert {switches : Switches} {models : List Model} :
    (∃ statements, convert switches models = .ok statements) ↔
      ∀ m ∈ models, Compiles switches m := by
  unfold convert
  rw [exists_bind_pure, exists_convertFrom]

/-- A batch is translated if and only if all its models compile; otherwise the error is a fault of
the input, that of the first model that does not. -/
theorem convert_spec (switches : Switches) (models : List Model) :
    ((∃ statements, convert switches models = .ok statements) ↔
        ∀ m ∈ models, Compiles switches m) ∧
      ∀ e, convert switches models = .error e ↔ e.isInputError = true ∧
        ∃ m, First (fun m => ¬Compiles switches m) models m ∧ ModelFault switches m e := by
  refine ⟨exists_convert, fun e => ?_⟩
  rw [convert_eq_error]
  constructor
  · rintro ⟨m, hm, hfault⟩
    exact ⟨hfault.isInputError, m, hm, hfault⟩
  · exact And.right

end OrmDdl.Mysql
