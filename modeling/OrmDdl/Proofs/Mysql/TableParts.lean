import OrmDdl.Mysql.Index
import OrmDdl.Proofs.Mysql.ReadTable
/-!
# Parts of statements

`Table.of_parts`: what holds of ordinary text, of line breaks before an item, and of the names and
defaults of a table, holds of its statement, provided that it is kept when texts are put together
(`Additive`). `Table.sql_eq_comment_append`: with comments on, a comment stands before that.
-/

namespace OrmDdl.Mysql

/-! ## Additive properties -/

/-- A character that ends no line and opens neither a literal nor a comment. -/
def isOrdinary (c : Char) : Bool := c ≠ '\n' && c ≠ '\'' && c ≠ '#'

theorem isOrdinary_of_isNumeric {c : Char} (h : isNumeric c = true) : isOrdinary c = true := by
  simp only [isOrdinary, Bool.and_eq_true, decide_eq_true_eq]
  refine ⟨⟨?_, ?_⟩, ?_⟩
  all_goals
    rintro rfl
    exact absurd h (by decide)

/-- A property that texts have if their parts have it. -/
structure Additive (P : List Char → Prop) : Prop where
  append : ∀ {a b}, P a → P b → P (a ++ b)
  ordinary : ∀ {a : List Char}, a.all isOrdinary = true → P a
  indented : P ['\n', '\t']
  closed : P ['\n', ')']

variable {P : List Char → Prop}

namespace Additive

theorem string_append (hP : Additive P) {a b : String} (ha : P a.toList) (hb : P b.toList) :
    P (a ++ b).toList := by
  rw [String.toList_append]
  exact hP.append ha hb

theorem intercalate (hP : Additive P) {sep : String} {l : List String} (hsep : P sep.toList)
    (h : ∀ s ∈ l, P s.toList) : P (sep.intercalate l).toList := by
  rw [String.toList_intercalate]
  induction l with
  | nil => exact hP.ordinary rfl
  | cons s l ih =>
    rw [List.forall_mem_cons] at h
    cases l with
    | nil =>
      rw [List.map_singleton, List.intercalate_singleton]
      exact h.1
    | cons t l =>
      rw [List.map_cons, List.map_cons, List.intercalate_cons_cons]
      exact hP.append (hP.append h.1 hsep) (ih h.2)

end Additive

/-! ## Columns -/

theorem ColumnType.isOrdinary_sql (t : ColumnType) : t.sql.toList.all isOrdinary = true := by
  have hsized : ∀ (name : String) (x : Double), name.toList.all isOrdinary = true →
      (name ++ numberLayout.text x ++ ")").toList.all isOrdinary = true := by
    intro name x hname
    have hnumber : (numberLayout.text x).toList.all isOrdinary = true := by
      rw [List.all_eq_true]
      exact fun c hc => isOrdinary_of_isNumeric (isNumeric_of_mem_text hc)
    rw [String.toList_append, String.toList_append, List.all_append, List.all_append, hname,
      hnumber]
    rfl
  cases t with
  | boolean | text | float | json => decide
  | integer width unsigned => cases width <;> cases unsigned <;> decide
  | char length => exact hsized "CHAR(" length (by decide)
  | varchar length => exact hsized "VARCHAR(" length (by decide)

/-- The definition of a column, clause by clause. -/
theorem Column.sql_eq (c : Column) : c.sql = c.name ++ " " ++ c.type.sql ++
    (if c.notNull then " NOT NULL" else "") ++
    (c.defaultClause.elim "" fun d => " " ++ d.sql) ++
    (if c.autoIncrement then " AUTO_INCREMENT" else "") := by
  obtain ⟨name, type, notNull, defaultClause, autoIncrement⟩ := c
  unfold sql clauses
  apply String.toList_inj.1
  cases notNull <;> cases defaultClause <;> cases autoIncrement <;> simp

theorem DefaultClause.of_parts (hP : Additive P) {d : DefaultClause}
    (h : ∀ value, d = .text value → P (quoteLiteral value).toList) : P d.sql.toList := by
  cases d with
  | null => exact hP.ordinary (by decide)
  | flag on => cases on <;> exact hP.ordinary (by decide)
  | text value => exact hP.string_append (hP.ordinary (by decide)) (h value rfl)

theorem Column.of_parts (hP : Additive P) {c : Column} (hname : P c.name.toList)
    (hdefault : ∀ value, c.defaultClause = some (.text value) → P (quoteLiteral value).toList) :
    P c.sql.toList := by
  refine hP.intercalate (hP.ordinary (by decide)) fun s hs => ?_
  unfold clauses at hs
  simp only [List.mem_append, List.mem_cons, List.not_mem_nil, or_false, Option.mem_toList] at hs
  rcases hs with (((rfl | rfl) | hs) | hs) | hs
  · exact hname
  · exact hP.ordinary c.type.isOrdinary_sql
  · split at hs
    · rw [List.mem_singleton.1 hs]
      exact hP.ordinary (by decide)
    · cases hs
  · obtain ⟨d, hd, rfl⟩ := Option.map_eq_some_iff.1 hs
    exact DefaultClause.of_parts hP fun value hvalue => hdefault value (hd.trans (hvalue ▸ rfl))
  · split at hs
    · rw [List.mem_singleton.1 hs]
      exact hP.ordinary (by decide)
    · cases hs

/-! ## Statements -/

namespace Table

/-- With comments on, the statement is the one without them behind a comment. -/
theorem sql_eq_comment_append (switches : Switches) (t : Table) :
    t.sql switches = (if switches.comments then t.comment else "") ++
      t.sql { switches with comments := false } := by
  unfold sql
  dsimp only
  rw [if_neg Bool.false_ne_true, String.empty_append]
  split <;> simp only [String.append_assoc]

theorem sql_eq_layout {switches : Switches} (hcomments : switches.comments = false) (t : Table) :
    t.sql switches = if switches.oneLine then t.layout " (" ", " ");"
      else t.layout " (\n\t" ",\n\t" "\n);" := by
  unfold sql
  rw [hcomments, if_neg Bool.false_ne_true, String.empty_append]
  rfl

theorem of_parts (hP : Additive P) {t : Table} (hname : P t.name.toList) (hkey : P t.key.toList)
    (hcolumns : ∀ c ∈ t.columns, P c.sql.toList) {switches : Switches}
    (hcomments : switches.comments = false) : P (t.sql switches).toList := by
  have hitems : ∀ item ∈ t.items, P item.toList := by
    intro item hitem
    unfold items at hitem
    rw [List.mem_append, List.mem_map, List.mem_singleton] at hitem
    obtain ⟨c, hc, rfl⟩ | rfl := hitem
    · exact hcolumns c hc
    · exact hP.string_append (hP.string_append (hP.ordinary (by decide)) hkey)
        (hP.ordinary (by decide))
  have hlayout : ∀ opening separator closing : String, P opening.toList → P separator.toList →
      P closing.toList → P (t.layout opening separator closing).toList := by
    intro opening separator closing hopening hseparator hclosing
    have hhead : P ("CREATE TABLE " ++ t.name).toList :=
      hP.string_append (hP.ordinary (by decide)) hname
    exact hP.string_append (hP.string_append (hP.string_append hhead hopening)
      (hP.intercalate hseparator hitems)) hclosing
  have hblank : P [' ', '('] := hP.ordinary (by decide)
  have hcomma : P [','] := hP.ordinary (by decide)
  have hend : P [';'] := hP.ordinary (by decide)
  rw [sql_eq_layout hcomments]
  split
  · exact hlayout _ _ _ hblank (hP.ordinary (by decide)) (hP.ordinary (by decide))
  · exact hlayout _ _ _ (hP.append hblank hP.indented) (hP.append hcomma hP.indented)
      (hP.append hP.closed hend)

end Table

theorem IndexTarget.of_parts (hP : Additive P) {t : IndexTarget} (htable : P t.table.toList)
    (hcolumn : P t.column.toList) : P t.sql.toList := by
  have hname : P t.name.toList :=
    hP.string_append (hP.string_append (hP.string_append (hP.ordinary (by decide)) htable)
      (hP.ordinary (by decide))) hcolumn
  have hon : P ("CREATE INDEX " ++ t.name ++ " ON ").toList :=
    hP.string_append (hP.string_append (hP.ordinary (by decide)) hname) (hP.ordinary (by decide))
  exact hP.string_append (hP.string_append (hP.string_append (hP.string_append hon htable)
    (hP.ordinary (by decide))) hcolumn) (hP.ordinary (by decide))

end OrmDdl.Mysql
