import OrmDdl.Proofs.Mysql.Acceptance
import OrmDdl.Proofs.Mysql.TableTokens
/-!
# Tables are read back

`read_createTable`: from either layout of the statement for a model, a reader recovers the table, a
column for every field in order, and the key. What is read about a column (`Describes`) is what the
rule of its field asks for.
-/

namespace OrmDdl.Mysql

open Outcome

/-! ## Columns -/

/-- The default of a column, by the rule of its field. -/
inductive DescribesDefault (rule : FieldRule) : Option DefaultClause → Prop
  | absent (absent : rule.defaultValue = none) (required : ¬rule.IsNullable) :
      DescribesDefault rule none
  | implied (absent : rule.defaultValue = none) (nullable : rule.IsNullable) :
      DescribesDefault rule (some .null)
  | flag {v : Literal} (given : rule.defaultValue = some v) (boolean : .boolean ∈ rule.types) :
      DescribesDefault rule (some (.flag (isTruthy v.value)))
  | null {v : Literal} (given : rule.defaultValue = some v) (other : .boolean ∉ rule.types)
      (isNull : v.value = .null) (nullable : rule.IsNullable) : DescribesDefault rule (some .null)
  | text {v : Literal} (given : rule.defaultValue = some v) (other : .boolean ∉ rule.types)
      (notNull : v.value ≠ .null) : DescribesDefault rule (some (.text (literalText v.value)))

/-- What a statement says about a column is what the field asks for. -/
structure Describes (model : Model) (field : String × FieldRule) (c : ColumnText) : Prop where
  name : c.name = field.1
  type : ∃ type, ColumnType.ofRule? field.2 = some type ∧ c.type = type.sql
  notNull : c.notNull = true ↔ ¬field.2.IsNullable
  defaultClause : DescribesDefault field.2 c.defaultClause
  autoIncrement : c.autoIncrement = true ↔ field.1 = model.idKey

theorem describesDefault_of_defaultOf {rule : FieldRule} {type : ColumnType}
    {d : Option DefaultClause} (htype : ColumnType.ofRule? rule = some type)
    (h : Column.defaultOf type rule = .ok d) : DescribesDefault rule d := by
  have hbool : type = .boolean ↔ .boolean ∈ rule.types := by
    rw [← ofRule?_eq_boolean, htype, Option.some_inj]
  unfold Column.defaultOf at h
  cases hvalue : rule.defaultValue with
  | none =>
    rw [hvalue] at h
    dsimp only at h
    split at h
    · cases h
      exact .implied hvalue ‹_›
    · cases h
      exact .absent hvalue ‹_›
  | some v =>
    obtain ⟨value, normal⟩ := v
    rw [hvalue] at h
    dsimp only at h
    by_cases hboolean : type = .boolean
    · rw [if_pos hboolean] at h
      cases h
      exact .flag hvalue (hbool.1 hboolean)
    · have hother : .boolean ∉ rule.types := mt hbool.2 hboolean
      rw [if_neg hboolean] at h
      split at h
      · split at h
        · cases h
          exact .null hvalue hother rfl ‹_›
        · cases h
      · rename_i hne
        cases h
        refine .text hvalue hother ?_
        rintro rfl
        exact hne normal rfl HEq.rfl

/-- The parts of a column, by the rule of its field. -/
theorem ofField_eq_ok {model : Model} {name : String} {rule : FieldRule} {c : Column}
    (h : Column.ofField model name rule = .ok c) :
    ColumnType.ofRule? rule = some c.type ∧ Column.defaultOf c.type rule = .ok c.defaultClause ∧
      c.name = name ∧ c.notNull = !decide rule.IsNullable ∧
      c.autoIncrement = model.isIdKey name := by
  unfold Column.ofField at h
  rw [mapError_eq_ok] at h
  unfold Column.ofRule at h
  cases htype : ColumnType.ofRule? rule with
  | none =>
    rw [htype] at h
    cases h
  | some type =>
    rw [htype] at h
    dsimp only at h
    split at h
    · cases h
    · cases hdefault : Column.defaultOf type rule with
      | error defect =>
        rw [hdefault] at h
        cases h
      | ok d =>
        rw [hdefault] at h
        cases h
        exact ⟨rfl, hdefault, rfl, rfl, rfl⟩

theorem describes_of_ofField {model : Model} {field : String × FieldRule} {c : Column}
    (h : Column.ofField model field.1 field.2 = .ok c) : Describes model field c.text := by
  obtain ⟨htype, hdefault, hname, hnotNull, hkey⟩ := ofField_eq_ok h
  refine ⟨hname, ⟨c.type, htype, rfl⟩, ?_, describesDefault_of_defaultOf htype hdefault, ?_⟩
  · show c.notNull = true ↔ _
    simp [hnotNull]
  · show c.autoIncrement = true ↔ _
    rw [hkey, Model.isIdKey, beq_iff_eq, eq_comm]

theorem columnsOf_eq_ok {model : Model} {fields : List (String × FieldRule)} :
    ∀ {columns : List Column}, Table.columnsOf model fields = .ok columns →
      List.Forall₂ (fun f c => Column.ofField model f.1 f.2 = .ok c) fields columns := by
  induction fields with
  | nil =>
    rintro columns ⟨⟩
    exact .nil
  | cons f r ih =>
    intro columns h
    rw [Table.columnsOf, bind_eq_ok] at h
    obtain ⟨c, hc, h⟩ := h
    rw [bind_eq_ok] at h
    obtain ⟨cs, hcs, ⟨⟩⟩ := h
    exact .cons hc (ih hcs)

/-! ## Models -/

theorem ofModel_eq_ok {model : Model} {t : Table} (h : Table.ofModel model = .ok t) :
    t.name = model.table ∧ t.key = model.idKey ∧
      List.Forall₂ (fun f c => Column.ofField model f.1 f.2 = .ok c) model.fields.entries
        t.columns := by
  unfold Table.ofModel at h
  rw [bind_eq_ok] at h
  obtain ⟨-, -, h⟩ := h
  rw [bind_eq_ok] at h
  obtain ⟨columns, hcolumns, ⟨⟩⟩ := h
  exact ⟨rfl, rfl, columnsOf_eq_ok hcolumns⟩

theorem map_name_columns {model : Model} {fields : List (String × FieldRule)}
    {columns : List Column}
    (h : List.Forall₂ (fun f c => Column.ofField model f.1 f.2 = .ok c) fields columns) :
    columns.map Column.name = fields.map Prod.fst := by
  rw [← List.forall₂_eq_eq_eq, List.forall₂_map_left_iff, List.forall₂_map_right_iff]
  exact h.flip.imp fun _ _ hcolumn => (describes_of_ofField hcolumn).name

/-- From the statement of a table its name, its key, and for every field the column that the rule
asks for are read back, whatever stands in defaults, and from both layouts alike. -/
theorem read_createTable {model : Model} (htable : IsName model.table) (hkey : IsName model.idKey)
    (hfields : ∀ f ∈ model.fields.entries, IsName f.1)
    (haccepted : ∃ switches text, createTable switches model = .ok text) :
    ∃ columns, List.Forall₂ (Describes model) model.fields.entries columns ∧
      ∀ switches : Switches, switches.comments = false →
        ∃ text, createTable switches model = .ok text ∧
          TableText.read text = some ⟨model.table, columns, model.idKey⟩ ∧ EndsOnce text := by
  obtain ⟨switches, text, h⟩ := haccepted
  unfold createTable at h
  rw [map_eq_pure_bind, bind_eq_ok] at h
  obtain ⟨t, ht, -⟩ := h
  obtain ⟨hname, hidKey, hcolumns⟩ := ofModel_eq_ok ht
  have hworded : t.Worded := by
    refine ⟨hname ▸ htable.isWord, hidKey ▸ hkey.isWord, fun c hc => ?_⟩
    have hmem : c.name ∈ model.fields.entries.map Prod.fst :=
      map_name_columns hcolumns ▸ List.mem_map_of_mem hc
    obtain ⟨f, hf, hfc⟩ := List.mem_map.1 hmem
    exact hfc ▸ (hfields f hf).isWord
  refine ⟨t.columns.map Column.text, ?_, fun switches hcomments => ?_⟩
  · rw [List.forall₂_map_right_iff]
    exact hcolumns.imp fun _ _ => describes_of_ofField
  · refine ⟨t.sql switches, ?_, ?_⟩
    · unfold createTable
      rw [ht]
      rfl
    · rw [← hname, ← hidKey]
      exact Table.read_sql hworded hcomments

/-- A model with defaults that hold quotes, separators, and the end of a statement. -/
def stall : Model :=
  ({ name := "Stall", table := "stalls", idKey := "id" } : Model)
    |>.withField "id" { types := .single .integer, min := some .zero }
    |>.withField "motto" {
        types := .single .string
        max := some (.ofNat 40)
        defaultValue := some (.ofJson (.string "it's, (\n'');\\'")) }
    |>.withField "open_at" { types := ⟨[.boolean, .null]⟩, defaultValue := some (.ofJson .null) }
    |>.withField "Tags" { types := ⟨[.array, .null]⟩ }
    |>.withField "map_2" {
        types := .single .object
        defaultValue := some (.ofJson (.object [("a,b", .string "','"), ("c", .array [])])) }

theorem read_createTable_stall :
    (∃ text, createTable { oneLine := true } stall = .ok text) ∧
      ∃ columns, List.Forall₂ (Describes stall) stall.fields.entries columns ∧
        ∀ switches : Switches, switches.comments = false →
          ∃ text, createTable switches stall = .ok text ∧
            TableText.read text = some ⟨"stalls", columns, "id"⟩ ∧ EndsOnce text := by
  have hok : (createTable { oneLine := true } stall).isOk = true := by decide +kernel
  have haccepted : ∃ text, createTable { oneLine := true } stall = .ok text := by
    cases h : createTable { oneLine := true } stall with
    | error e =>
      rw [h] at hok
      cases hok
    | ok text => exact ⟨text, rfl⟩
  exact ⟨haccepted, read_createTable (by decide) (by decide) (by decide) ⟨_, haccepted⟩⟩

end OrmDdl.Mysql
