import Mathlib.Data.List.Nodup
import OrmDdl.Proofs.Mysql.Comments
/-!
# The column of the primary key

`createTable_autoIncrements`: of the definitions in the statement of a table those of the columns
with the name of the key carry `AUTO_INCREMENT`, so one does if the key is a field of the model, and
none if it is not.
-/

namespace OrmDdl.Mysql

/-- A definition that ends in `AUTO_INCREMENT`. -/
def AutoIncrements (definition : String) : Prop :=
  " AUTO_INCREMENT".toList <:+ definition.toList

instance : DecidablePred AutoIncrements := fun _ => inferInstanceAs (Decidable (_ <:+ _))

/-! ## Definitions -/

/-- A last clause that is at least as long as the end of `AUTO_INCREMENT` and differs from it. -/
structure EndsOtherwise (clause : String) : Prop where
  long : 2 ≤ clause.toList.length
  other : ¬['N', 'T'] <:+ clause.toList

namespace EndsOtherwise

theorem not_autoIncrements {clause : String} (h : EndsOtherwise clause) (before : String) :
    ¬AutoIncrements (before ++ clause) := by
  intro hsuffix
  unfold AutoIncrements at hsuffix
  rw [String.toList_append] at hsuffix
  have hend : ['N', 'T'] <:+ " AUTO_INCREMENT".toList := by decide
  have hclause : clause.toList <:+ before.toList ++ clause.toList := List.suffix_append _ _
  exact h.other (List.suffix_of_suffix_length_le (hend.trans hsuffix) hclause h.long)

/-- Whatever ends in another character than the last of `AUTO_INCREMENT`. -/
theorem of_last {clause : String} {l : List Char} {c : Char} (h : clause.toList = l ++ [c])
    (hl : l ≠ []) (hc : c ≠ 'T') : EndsOtherwise clause where
  long := by
    have hlength := List.length_pos_iff.2 hl
    rw [h, List.length_append, List.length_singleton]
    omega
  other := by
    rintro ⟨before, hbefore⟩
    have hlast := congrArg List.getLast? (hbefore.trans h)
    simp only [List.getLast?_append, List.getLast?_cons_cons, List.getLast?_singleton,
      Option.some_or, Option.some_inj] at hlast
    exact hc hlast.symm

end EndsOtherwise

theorem ColumnType.endsOtherwise_sql (t : ColumnType) : EndsOtherwise t.sql := by
  have hsized : ∀ (name : String) (x : Double), name ≠ "" →
      EndsOtherwise (name ++ numberLayout.text x ++ ")") := by
    intro name x hname
    refine .of_last (l := name.toList ++ (numberLayout.text x).toList) (c := ')') ?_ ?_ (by decide)
    · rw [String.toList_append, String.toList_append]
      rfl
    · simp [hname]
  cases t with
  | boolean | text | float | json => exact ⟨by decide, by decide⟩
  | integer width unsigned =>
    cases width <;> cases unsigned <;> exact ⟨by decide, by decide⟩
  | char length => exact hsized "CHAR(" length (by decide)
  | varchar length => exact hsized "VARCHAR(" length (by decide)

theorem DefaultClause.endsOtherwise_sql (d : DefaultClause) : EndsOtherwise d.sql := by
  cases d with
  | null => exact ⟨by decide, by decide⟩
  | flag on => cases on <;> exact ⟨by decide, by decide⟩
  | text value =>
    refine .of_last (l := "DEFAULT ".toList ++ '\'' :: value.toList.flatMap quotedChar)
      (c := '\'') ?_ (by simp) (by decide)
    simp [DefaultClause.sql, quoteLiteral]

theorem Column.autoIncrements_sql (c : Column) : AutoIncrements c.sql ↔ c.autoIncrement = true := by
  rw [c.sql_eq]
  cases c.autoIncrement with
  | true =>
    rw [if_pos rfl, AutoIncrements, String.toList_append]
    exact iff_of_true (List.suffix_append _ _) rfl
  | false =>
    rw [if_neg Bool.false_ne_true, String.append_empty]
    refine iff_of_false ?_ Bool.false_ne_true
    cases c.defaultClause with
    | some d =>
      rw [Option.elim_some, ← String.append_assoc]
      exact d.endsOtherwise_sql.not_autoIncrements _
    | none =>
      rw [Option.elim_none, String.append_empty]
      cases c.notNull with
      | true => exact EndsOtherwise.not_autoIncrements ⟨by decide, by decide⟩ _
      | false =>
        rw [if_neg Bool.false_ne_true, String.append_empty]
        exact c.type.endsOtherwise_sql.not_autoIncrements _

/-! ## Statements -/

/-- The definitions of the columns in the statement of a table stand for the fields in order, and the
one with the name of the key carries `AUTO_INCREMENT`. There is one if the key is a field. -/
theorem createTable_autoIncrements {switches : Switches} {model : Model} {text : String}
    (h : createTable switches model = .ok text) :
    ∃ t, Table.ofModel model = .ok t ∧ text = t.sql switches ∧
      t.items = t.columns.map Column.sql ++ ["PRIMARY KEY (" ++ model.idKey ++ ")"] ∧
      t.columns.map Column.name = model.fields.names ∧
      (∀ c ∈ t.columns, AutoIncrements c.sql ↔ c.name = model.idKey) ∧
      (t.columns.map Column.sql).countP AutoIncrements =
        if model.idKey ∈ model.fields.names then 1 else 0 := by
  obtain ⟨t, ht, htext⟩ := exists_ofModel h
  obtain ⟨-, hkey, hcolumns⟩ := ofModel_eq_ok ht
  have hnames : t.columns.map Column.name = model.fields.names := map_name_columns hcolumns
  have hauto : ∀ c ∈ t.columns, AutoIncrements c.sql ↔ c.name = model.idKey := by
    refine ((List.forall₂_and_left _ _).1 (hcolumns.flip.imp fun c f hc => ⟨?_, hc⟩)).1
    obtain ⟨-, -, hname, -, hkey⟩ := ofField_eq_ok hc
    rw [c.autoIncrements_sql, hkey, hname, Model.isIdKey, beq_iff_eq, eq_comm]
  refine ⟨t, ht, htext, by rw [Table.items, hkey], hnames, hauto, ?_⟩
  have hcount : (t.columns.map Column.sql).countP AutoIncrements =
      model.fields.names.count model.idKey := by
    rw [← hnames, List.count, List.countP_map, List.countP_map]
    refine List.countP_congr fun c hc => ?_
    simp [hauto c hc]
  rw [hcount]
  split
  · exact List.count_eq_one_of_mem model.fields.nodup ‹_›
  · exact List.count_eq_zero.2 ‹_›

/-- A model whose key is declared after another field, and once more with another rule. -/
def parcel : Model :=
  ({ name := "Parcel", table := "parcels", idKey := "code" } : Model)
    |>.withField "code AUTO_INCREMENT" { types := .single .number }
    |>.withField "code" { types := .single .string }
    |>.withField "label" {
        types := .single .string
        defaultValue := some (.ofJson (.string " AUTO_INCREMENT")) }
    |>.withField "code" { types := .single .integer, min := some .zero }

theorem createTable_autoIncrements_parcel :
    createTable { oneLine := true } parcel = .ok ("CREATE TABLE parcels (" ++
        "code AUTO_INCREMENT FLOAT NOT NULL, code INT(10) UNSIGNED NOT NULL AUTO_INCREMENT, " ++
        "label TEXT NOT NULL DEFAULT ' AUTO_INCREMENT', PRIMARY KEY (code));") ∧
      ∃ t, Table.ofModel parcel = .ok t ∧
        t.items = t.columns.map Column.sql ++ ["PRIMARY KEY (code)"] ∧
        (∀ c ∈ t.columns, AutoIncrements c.sql ↔ c.name = "code") ∧
        (t.columns.map Column.sql).countP AutoIncrements = 1 := by
  have hok : createTable { oneLine := true } parcel = .ok ("CREATE TABLE parcels (" ++
      "code AUTO_INCREMENT FLOAT NOT NULL, code INT(10) UNSIGNED NOT NULL AUTO_INCREMENT, " ++
      "label TEXT NOT NULL DEFAULT ' AUTO_INCREMENT', PRIMARY KEY (code));") := by decide +kernel
  obtain ⟨t, ht, -, hitems, -, hauto, hcount⟩ := createTable_autoIncrements hok
  have hmem : parcel.idKey ∈ parcel.fields.names := by decide
  rw [if_pos hmem] at hcount
  exact ⟨hok, t, ht, hitems, hauto, hcount⟩

/-- A model whose key, the usual one, is no field. -/
def journal : Model :=
  ({ name := "Journal", table := "journal" } : Model).withField "line" { types := .single .string }

/-- Its statement has a key that is no column. -/
theorem createTable_journal : ∃ t, Table.ofModel journal = .ok t ∧
    createTable { oneLine := true } journal =
      .ok "CREATE TABLE journal (line TEXT NOT NULL, PRIMARY KEY (id));" ∧
    t.items = ["line TEXT NOT NULL", "PRIMARY KEY (id)"] ∧
    (t.columns.map Column.sql).countP AutoIncrements = 0 ∧
    ∀ c ∈ t.columns, c.name ≠ t.key := by
  have ht : Table.ofModel journal = .ok
      ⟨"journal", "Journal", [⟨"line", .text, true, none, false⟩], "id"⟩ := by decide +kernel
  exact ⟨_, ht, by decide +kernel, by decide +kernel, by decide, by decide⟩

end OrmDdl.Mysql
