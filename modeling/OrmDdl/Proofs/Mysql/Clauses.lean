import OrmDdl.Proofs.Mysql.IntegerRange
import OrmDdl.Proofs.Mysql.ReadTable
import OrmDdl.Proofs.Mysql.TableParts
/-!
# Clauses that agree

Whether a column takes `NULL`, what its default is, whether it counts up and whether it has a sign
are decided apart from one another. `ofField_coherent`: the definition of a column never contradicts
itself, and which of its clauses are there follows from the rule and the name of its field.
-/

namespace OrmDdl.Mysql

open Outcome

/-- The clauses of a definition and how they depend on one another and on the field. -/
structure Coherent (model : Model) (name : String) (rule : FieldRule) (type : ColumnType)
    (default? : Option String) (definition : String) : Prop where
  text : definition = name ++ " " ++ type.sql ++ (if rule.IsNullable then "" else " NOT NULL") ++
    (default?.elim "" fun clause => " " ++ clause) ++
    (if name = model.idKey then " AUTO_INCREMENT" else "")
  typed : ColumnType.ofRule? rule = some type
  /-- `DEFAULT NULL` never stands beside `NOT NULL`. -/
  acceptsNull : default? = some "DEFAULT NULL" → rule.IsNullable
  nullable : rule.IsNullable → default?.isSome
  required : ¬rule.IsNullable → default?.isSome = rule.defaultValue.isSome
  /-- A column that takes `NULL` has it for a default where none is declared. -/
  implied : rule.defaultValue = none → rule.IsNullable → default? = some "DEFAULT NULL"
  flag : type = .boolean → ∀ v ∈ rule.defaultValue,
    default? = some (if isTruthy v.value then "DEFAULT 1" else "DEFAULT 0")
  literal : type ≠ .boolean → ∀ v ∈ rule.defaultValue,
    (v.value = .null ∧ default? = some "DEFAULT NULL") ∨
      (v.value ≠ .null ∧ default? = some ("DEFAULT " ++ quoteLiteral (literalText v.value)))
  /-- What counts up from a declared minimum has no sign. -/
  unsigned : name = model.idKey → rule.min.isSome → .integer ∈ rule.types →
    " UNSIGNED".toList <:+ type.sql.toList ∧ ∀ width u, type = .integer width u → u = true

/-! ## Defaults -/

theorem DefaultClause.sql_flag (on : Bool) :
    (flag on).sql = if on then "DEFAULT 1" else "DEFAULT 0" := by
  cases on <;> rfl

theorem DefaultClause.sql_eq_null {d : DefaultClause} : d.sql = "DEFAULT NULL" ↔ d = .null := by
  constructor
  · intro h
    cases d with
    | null => rfl
    | flag on =>
      rw [sql_flag] at h
      cases on <;> exact absurd h (by decide)
    | text value =>
      -- a literal begins with a quote, where `NULL` has its first letter
      have hchars := congrArg String.toList h
      simp [sql, quoteLiteral] at hchars
  · rintro rfl
    rfl

variable {model : Model} {name : String} {rule : FieldRule}

namespace DescribesDefault

variable {d : Option DefaultClause} (h : DescribesDefault rule d)

include h

theorem isNullable_of_null (hd : d = some .null) : rule.IsNullable := by
  cases h with
  | absent | flag | text => cases hd
  | implied _ nullable => exact nullable
  | null _ _ _ nullable => exact nullable

theorem isSome_of_nullable (hnullable : rule.IsNullable) : d.isSome := by
  cases h with
  | absent _ required => exact absurd hnullable required
  | implied | flag | null | text => rfl

theorem isSome_eq (hrequired : ¬rule.IsNullable) : d.isSome = rule.defaultValue.isSome := by
  cases h with
  | absent absent _ => rw [absent, Option.isSome_none, Option.isSome_none]
  | implied _ nullable => exact absurd nullable hrequired
  | flag given _ => rw [given, Option.isSome_some, Option.isSome_some]
  | null given _ _ _ => rw [given, Option.isSome_some, Option.isSome_some]
  | text given _ _ => rw [given, Option.isSome_some, Option.isSome_some]

theorem eq_null (habsent : rule.defaultValue = none) (hnullable : rule.IsNullable) :
    d = some .null := by
  cases h with
  | absent _ required => exact absurd hnullable required
  | implied => rfl
  | flag given | null given | text given => exact nomatch given.symm.trans habsent

/-- A declared default, by whether the column is boolean. -/
theorem cases_given {v : Literal} (hv : v ∈ rule.defaultValue) :
    (.boolean ∈ rule.types ∧ d = some (.flag (isTruthy v.value))) ∨
      (.boolean ∉ rule.types ∧ v.value = .null ∧ d = some .null) ∨
      (.boolean ∉ rule.types ∧ v.value ≠ .null ∧ d = some (.text (literalText v.value))) := by
  rw [Option.mem_def] at hv
  cases h with
  | absent absent _ => exact nomatch hv.symm.trans absent
  | implied absent _ => exact nomatch hv.symm.trans absent
  | flag given boolean =>
    cases hv.symm.trans given
    exact .inl ⟨boolean, rfl⟩
  | null given other isNull _ =>
    cases hv.symm.trans given
    exact .inr (.inl ⟨other, isNull, rfl⟩)
  | text given other notNull =>
    cases hv.symm.trans given
    exact .inr (.inr ⟨other, notNull, rfl⟩)

end DescribesDefault

/-! ## Keys -/

theorem Double.exists_value? {x : Double} (h : x.isFinite = true) : ∃ a, x.value? = some a := by
  cases x with
  | nan | infinite => cases h
  | finite negative units hunits => exact ⟨_, rfl⟩

/-- A finite minimum that a key may have is not below zero. -/
theorem isUnsigned_of_keyMin {min : Double} (hmin : rule.min = some min)
    (hfinite : min.isFinite = true) (hkeyMin : ¬min < Double.zero) : rule.isUnsigned = true := by
  obtain ⟨a, ha⟩ := Double.exists_value? hfinite
  rw [isUnsigned_eq hmin ha, decide_eq_true_iff]
  exact not_lt.1 (mt (Double.lt_iff ha Double.value?_zero).2 hkeyMin)

/-- A column with a tag for integers is boolean or one of integers. -/
theorem ofRule?_cases_integer {type : ColumnType} (htype : ColumnType.ofRule? rule = some type)
    (hinteger : .integer ∈ rule.types) : type = .boolean ∨
      type = .integer (.ofMax rule.max rule.isUnsigned) rule.isUnsigned := by
  by_cases hboolean : .boolean ∈ rule.types
  · rw [ofRule?_eq_boolean.2 hboolean, Option.some_inj] at htype
    exact .inl htype.symm
  · rw [ofRule?_eq_integer hinteger hboolean, Option.some_inj] at htype
    exact .inr htype.symm

theorem ColumnType.unsigned_suffix (width : IntegerWidth) :
    " UNSIGNED".toList <:+ (ColumnType.integer width true).sql.toList := by
  cases width <;> decide

/-- The definition of a column consists of its name, its type, and clauses that agree with one
another and with the rule. A minimum has to be finite, as what is read from a document is. -/
theorem ofField_coherent {definition : String} (hfinite : ∀ min ∈ rule.min, min.isFinite = true)
    (h : Column.sql <$> Column.ofField model name rule = .ok definition) :
    ∃ type default?, Coherent model name rule type default? definition := by
  rw [map_eq_pure_bind, bind_eq_ok] at h
  obtain ⟨c, hc, ⟨⟩⟩ := h
  obtain ⟨htype, hdefault, hname, hnotNull, hkey⟩ := ofField_eq_ok hc
  have hdescribes := describesDefault_of_defaultOf htype hdefault
  have hboolean : c.type = .boolean ↔ .boolean ∈ rule.types := by
    rw [← ofRule?_eq_boolean, htype, Option.some_inj]
  refine ⟨c.type, c.defaultClause.map DefaultClause.sql, ?_, htype, ?_, ?_, ?_, ?_, ?_, ?_, ?_⟩
  · have hauto : c.autoIncrement = decide (name = model.idKey) := by
      rw [hkey, Model.isIdKey, Bool.eq_iff_iff, beq_iff_eq, decide_eq_true_iff, eq_comm]
    rw [c.sql_eq, hname, hnotNull, hauto, Option.elim_map]
    simp only [Bool.not_eq_true', decide_eq_false_iff_not, decide_eq_true_eq, ite_not]
    rfl
  · intro hnull
    obtain ⟨d, hd, hsql⟩ := Option.map_eq_some_iff.1 hnull
    have hclause := congrArg some (DefaultClause.sql_eq_null.1 hsql)
    exact hdescribes.isNullable_of_null (hd.trans hclause)
  · intro hnullable
    rw [Option.isSome_map]
    exact hdescribes.isSome_of_nullable hnullable
  · intro hrequired
    rw [Option.isSome_map]
    exact hdescribes.isSome_eq hrequired
  · intro habsent hnullable
    rw [hdescribes.eq_null habsent hnullable]
    rfl
  · intro hflag v hv
    obtain ⟨-, hd⟩ | ⟨hother, -⟩ | ⟨hother, -⟩ := hdescribes.cases_given hv
    · rw [hd, Option.map_some, DefaultClause.sql_flag]
    all_goals exact absurd (hboolean.1 hflag) hother
  · intro hother v hv
    obtain ⟨hflag, -⟩ | ⟨-, hnull, hd⟩ | ⟨-, hnull, hd⟩ := hdescribes.cases_given hv
    · exact absurd (hboolean.2 hflag) hother
    · exact .inl ⟨hnull, by rw [hd]; rfl⟩
    · exact .inr ⟨hnull, by rw [hd]; rfl⟩
  · intro hid hmin hinteger
    obtain ⟨min, hmin⟩ := Option.isSome_iff_exists.1 hmin
    have hkeyMin := (exists_ofField.1 ⟨c, hc⟩).keyMin hid min hmin
    have hunsigned := isUnsigned_of_keyMin hmin (hfinite min hmin) hkeyMin
    obtain hb | hi := ofRule?_cases_integer htype hinteger
    · rw [hb]
      exact ⟨by decide, fun width u hu => ColumnType.noConfusion hu⟩
    · rw [hi, hunsigned]
      refine ⟨ColumnType.unsigned_suffix _, fun width u hu => ?_⟩
      cases hu
      rfl

/-- A key that takes `NULL` and counts from a minimum on. -/
def ticket : FieldRule where
  types := ⟨[.null, .integer]⟩
  min := some (.ofNat 100)
  max := some (.ofNat 9000)

theorem ofField_coherent_ticket :
    (∀ min ∈ ticket.min, min.isFinite = true) ∧
      Column.sql <$> Column.ofField { name := "Ticket", table := "tickets" } "id" ticket =
        .ok "id SMALLINT(5) UNSIGNED DEFAULT NULL AUTO_INCREMENT" ∧
      ∃ type default?, Coherent { name := "Ticket", table := "tickets" } "id" ticket type default?
        "id SMALLINT(5) UNSIGNED DEFAULT NULL AUTO_INCREMENT" := by
  have hfinite : ∀ min ∈ ticket.min, min.isFinite = true := by
    intro min hmin
    cases Option.some.inj hmin
    decide +kernel
  have hok : Column.sql <$> Column.ofField { name := "Ticket", table := "tickets" } "id" ticket =
      .ok "id SMALLINT(5) UNSIGNED DEFAULT NULL AUTO_INCREMENT" := by decide +kernel
  exact ⟨hfinite, hok, ofField_coherent hfinite hok⟩

end OrmDdl.Mysql
