import OrmDdl.Proofs.Mysql.Comments
import OrmDdl.Proofs.Mysql.Independence
import OrmDdl.Run.Script
/-!
# Scripts are split into statements

`paragraphs_script`: where no text of a batch has a line break, its script, cut at empty lines, is
the statements of the batch with a remark before every table, if comments are on. Neither layout has
an empty line in a statement (`Unbroken`), and a comment is a paragraph of its own.
-/

namespace OrmDdl.Mysql

open Outcome

/-! ## Paragraphs -/

/-- The parts of a text between empty lines. -/
def splitParagraphs : List Char → List (List Char)
  | [] => [[]]
  | '\n' :: '\n' :: r => [] :: splitParagraphs r
  | c :: r => (splitParagraphs r).modifyHead (c :: ·)

def paragraphs (text : String) : List String := (splitParagraphs text.toList).map String.ofList

example : paragraphs "# A\n\nB\n\n\nC" = ["# A", "B", "\nC"] := by decide +kernel

/-- A text in which every line break has another character behind it. -/
inductive Unbroken : List Char → Prop
  | nil : Unbroken []
  | char {c : Char} {r : List Char} (hc : c ≠ '\n') (hr : Unbroken r) : Unbroken (c :: r)
  | line {c : Char} {r : List Char} (hc : c ≠ '\n') (hr : Unbroken r) : Unbroken ('\n' :: c :: r)

theorem unbroken_of_not_mem {a : List Char} (h : '\n' ∉ a) : Unbroken a := by
  induction a with
  | nil => exact .nil
  | cons c a ih =>
    rw [List.mem_cons, not_or] at h
    exact .char (Ne.symm h.1) (ih h.2)

theorem additive_unbroken : Additive Unbroken where
  append {a b} ha hb := by
    induction ha with
    | nil => exact hb
    | char hc _ ih => exact .char hc ih
    | line hc _ ih => exact .line hc ih
  ordinary {a} h := by
    refine unbroken_of_not_mem fun hmem => ?_
    exact absurd (List.all_eq_true.1 h _ hmem) (by decide)
  indented := .line (by decide) .nil
  closed := .line (by decide) .nil

theorem splitParagraphs_cons {c : Char} (hc : c ≠ '\n') (r : List Char) :
    splitParagraphs (c :: r) = (splitParagraphs r).modifyHead (c :: ·) := by
  rw [splitParagraphs]
  rintro _ rfl
  exact absurd rfl hc

theorem splitParagraphs_line {c : Char} (hc : c ≠ '\n') (r : List Char) :
    splitParagraphs ('\n' :: c :: r) =
      (splitParagraphs (c :: r)).modifyHead ('\n' :: ·) := by
  rw [splitParagraphs]
  rintro _ _ h
  exact absurd (List.cons.inj h).1 hc

/-- A text without empty lines belongs to the first paragraph of what it stands before. -/
theorem Unbroken.splitParagraphs_append {a : List Char} (h : Unbroken a) (s : List Char) :
    splitParagraphs (a ++ s) = (splitParagraphs s).modifyHead (a ++ ·) := by
  induction h with
  | nil => exact (congrFun List.modifyHead_id _).symm
  | char hc _ ih =>
    rw [List.cons_append, splitParagraphs_cons hc, ih, List.modifyHead_modifyHead]
    rfl
  | line hc _ ih =>
    rw [List.cons_append, List.cons_append, splitParagraphs_line hc, splitParagraphs_cons hc, ih,
      List.modifyHead_modifyHead, List.modifyHead_modifyHead]
    rfl

theorem splitParagraphs_intercalate {parts : List (List Char)} (hparts : parts ≠ [])
    (h : ∀ part ∈ parts, Unbroken part) :
    splitParagraphs (['\n', '\n'].intercalate parts) = parts := by
  induction parts with
  | nil => exact absurd rfl hparts
  | cons a parts ih =>
    rw [List.forall_mem_cons] at h
    cases parts with
    | nil =>
      rw [List.intercalate_singleton]
      have hend := h.1.splitParagraphs_append []
      rw [List.append_nil] at hend
      rw [hend, splitParagraphs, List.modifyHead_cons, List.append_nil]
    | cons b parts =>
      have hbreak : splitParagraphs (['\n', '\n'] ++ ['\n', '\n'].intercalate (b :: parts)) =
          [] :: b :: parts := by
        rw [List.cons_append, List.cons_append, List.nil_append, splitParagraphs,
          ih (List.cons_ne_nil _ _) h.2]
      rw [List.intercalate_cons_cons, List.append_assoc, h.1.splitParagraphs_append, hbreak,
        List.modifyHead_cons, List.append_nil]

/-- Texts without empty lines are the paragraphs of the text that has an empty line between any two
of them. -/
theorem paragraphs_intercalate {parts : List String} (hparts : parts ≠ [])
    (h : ∀ part ∈ parts, Unbroken part.toList) :
    paragraphs ("\n\n".intercalate parts) = parts := by
  have hsplit : splitParagraphs (['\n', '\n'].intercalate (parts.map String.toList)) =
      parts.map String.toList :=
    splitParagraphs_intercalate (fun hnil => hparts (List.map_eq_nil_iff.1 hnil))
      (List.forall_mem_map.2 h)
  have hsep : "\n\n".toList = ['\n', '\n'] := rfl
  unfold paragraphs
  rw [String.toList_intercalate, hsep, hsplit, List.map_map]
  refine (List.map_congr_left fun part _ => ?_).trans (List.map_id _)
  exact String.ofList_toList

/-! ## Texts on one line -/

def IsOneLine (s : String) : Prop := '\n' ∉ s.toList

instance (s : String) : Decidable (IsOneLine s) :=
  inferInstanceAs (Decidable ('\n' ∉ s.toList))

/-- What a relation puts into statements is on one line. -/
structure OneLineRelation (r : Relation) : Prop where
  tables : ∀ model ∈ r.a :: r.b :: r.via.toList, IsOneLine model.table
  keys : ∀ key ∈ r.aKey :: r.bKey :: r.viaAKey.toList, IsOneLine key

/-- What a model puts into statements is on one line. -/
structure OneLineModel (m : Model) : Prop where
  name : IsOneLine m.name
  table : IsOneLine m.table
  idKey : IsOneLine m.idKey
  fields : ∀ f ∈ m.fields.entries, IsOneLine f.1
  defaults : ∀ f ∈ m.fields.entries, ∀ v ∈ f.2.defaultValue, IsOneLine (literalText v.value)
  relations : ∀ r ∈ m.relations.entries, OneLineRelation r.2

theorem IsOneLine.unbroken {s : String} (h : IsOneLine s) : Unbroken s.toList :=
  unbroken_of_not_mem h

theorem IsOneLine.quoteLiteral {value : String} (h : IsOneLine value) :
    IsOneLine (quoteLiteral value) := by
  unfold IsOneLine Mysql.quoteLiteral
  rw [String.toList_ofList, List.mem_cons, List.mem_append, List.mem_flatMap, List.mem_singleton]
  rintro (hopen | ⟨c, hc, hmem⟩ | hclose)
  · exact absurd hopen (by decide)
  · unfold quotedChar at hmem
    split at hmem
    · exact absurd hmem (by decide)
    · rw [← List.mem_singleton.1 hmem] at hc
      exact h hc
  · exact absurd hclose (by decide)

/-- The text of a default stands in its clause as it is, but for quotes. -/
theorem eq_literalText_of_describesDefault {rule : FieldRule} {value : String}
    (h : DescribesDefault rule (some (.text value))) :
    ∃ v ∈ rule.defaultValue, value = literalText v.value := by
  cases h with
  | text given _ _ => exact ⟨_, given, rfl⟩

/-- Every column comes from a field. -/
theorem exists_field_of_mem {model : Model} {fields : List (String × FieldRule)}
    {columns : List Column}
    (h : List.Forall₂ (fun f c => Column.ofField model f.1 f.2 = .ok c) fields columns)
    {c : Column} (hc : c ∈ columns) : ∃ f ∈ fields, Column.ofField model f.1 f.2 = .ok c := by
  induction h with
  | nil => cases hc
  | @cons f d fields columns hfield _ ih =>
    obtain _ | ⟨_, hc⟩ := hc
    · exact ⟨f, List.mem_cons_self, hfield⟩
    · obtain ⟨g, hg, hfield⟩ := ih hc
      exact ⟨g, List.mem_cons_of_mem _ hg, hfield⟩

/-! ## Paragraphs of statements -/

/-- A statement is one paragraph, and so is its comment. -/
def Table.paragraphs (switches : Switches) (t : Table) : List String :=
  (if switches.comments then [t.title] else []) ++ [t.sql { switches with comments := false }]

theorem Table.sql_eq_intercalate (switches : Switches) (t : Table) :
    t.sql switches = "\n\n".intercalate (t.paragraphs switches) := by
  rw [sql_eq_comment_append]
  unfold paragraphs
  split
  · rw [comment_eq, ← String.toList_inj, String.toList_intercalate]
    simp only [String.toList_append, List.append_assoc, List.map_cons, List.singleton_append,
      List.map_nil, List.intercalate_cons_cons, List.intercalate_singleton]
  · rw [← String.toList_inj, String.toList_intercalate]
    simp only [String.toList_append, List.nil_append, List.map_cons, List.map_nil,
      List.intercalate_singleton]
    rfl

theorem unbroken_ofModel {m : Model} (hm : OneLineModel m) {t : Table}
    (ht : Table.ofModel m = .ok t) (switches : Switches) :
    ∀ part ∈ t.paragraphs switches, Unbroken part.toList := by
  obtain ⟨hname, hkey, hcolumns⟩ := ofModel_eq_ok ht
  have hname : IsOneLine t.name := hname ▸ hm.table
  have htitle : IsOneLine t.title := Table.not_mem_title hname (ofModel_model ht ▸ hm.name)
  have hcolumn : ∀ c ∈ t.columns, Unbroken c.sql.toList := by
    intro c hc
    obtain ⟨f, hf, hfield⟩ := exists_field_of_mem hcolumns hc
    have hdescribes := describes_of_ofField hfield
    refine c.of_parts additive_unbroken ?_ fun value hvalue => ?_
    · rw [show c.name = f.1 from hdescribes.name]
      exact (hm.fields f hf).unbroken
    · have hdefault : DescribesDefault f.2 c.defaultClause := hdescribes.defaultClause
      rw [hvalue] at hdefault
      obtain ⟨v, hv, rfl⟩ := eq_literalText_of_describesDefault hdefault
      exact (hm.defaults f hf v hv).quoteLiteral.unbroken
  intro part hpart
  unfold Table.paragraphs at hpart
  rw [List.mem_append, List.mem_singleton] at hpart
  obtain hpart | rfl := hpart
  · split at hpart
    · rw [List.mem_singleton.1 hpart]
      exact htitle.unbroken
    · cases hpart
  · exact Table.of_parts additive_unbroken hname.unbroken (hkey ▸ hm.idKey).unbroken hcolumn rfl

theorem unbroken_indexes {models : List Model} (hmodels : ∀ m ∈ models, OneLineModel m)
    (switches : Switches) : ∀ t ∈ indexedColumns switches models, Unbroken t.sql.toList := by
  have hcolumns : ∀ t ∈ batchColumns models, IsOneLine t.table ∧ IsOneLine t.column := by
    intro t ht
    obtain ⟨m, hm, ht⟩ := List.mem_flatMap.1 ht
    obtain ⟨r, hr, ht⟩ := List.mem_flatMap.1 ht
    obtain ⟨htables, hkeys⟩ := (hmodels m hm).relations r hr
    simp only [List.forall_mem_cons] at htables hkeys
    unfold relationColumns at ht
    cases hmode : r.2.mode with
    | child | children =>
      rw [hmode] at ht
      rw [List.mem_singleton.1 ht]
      exact ⟨htables.2.1, hkeys.2.1⟩
    | parent =>
      rw [hmode] at ht
      rw [List.mem_singleton.1 ht]
      exact ⟨htables.1, hkeys.1⟩
    | through =>
      rw [hmode] at ht
      dsimp only at ht
      rw [List.mem_append, Option.mem_toList, List.mem_singleton] at ht
      obtain hjunction | rfl := ht
      · obtain ⟨via, hvia, hjoined⟩ := Option.bind_eq_some_iff.1 hjunction
        obtain ⟨key, hkey, rfl⟩ := Option.map_eq_some_iff.1 hjoined
        exact ⟨htables.2.2 via (Option.mem_toList.2 hvia), hkeys.2.2 key (Option.mem_toList.2 hkey)⟩
      · exact ⟨htables.2.1, hkeys.2.1⟩
  intro t ht
  unfold indexedColumns at ht
  split at ht
  · obtain ⟨htable, hcolumn⟩ := hcolumns t ht
    exact IndexTarget.of_parts additive_unbroken htable.unbroken hcolumn.unbroken
  · cases ht

/-! ## Batches -/

theorem exists_map_ofModel {switches : Switches} {models : List Model} :
    ∀ {texts : List String}, models.map (createTable switches) = texts.map .ok →
      ∃ tables : List Table, models.map Table.ofModel = tables.map .ok := by
  induction models with
  | nil => exact fun _ => ⟨[], rfl⟩
  | cons m models ih =>
    intro texts htexts
    cases texts with
    | nil => cases htexts
    | cons text texts =>
      rw [List.map_cons, List.map_cons, List.cons.injEq] at htexts
      obtain ⟨t, ht, -⟩ := exists_ofModel htexts.1
      obtain ⟨tables, htables⟩ := ih htexts.2
      exact ⟨t :: tables, by rw [List.map_cons, List.map_cons, ht, htables]⟩

/-- A batch that is translated has a table for every model. Comments and the layout only change how
the tables are written. -/
theorem exists_tables {switches : Switches} {models : List Model} {statements : List String}
    (h : convert switches models = .ok statements) :
    ∃ tables : List Table, models.map Table.ofModel = tables.map .ok ∧
      ∀ s : Switches, s.autoIndexes = switches.autoIndexes →
        convert s models = .ok (tables.map (Table.sql s) ++
          (indexedColumns switches models).eraseDups.map IndexTarget.sql) := by
  obtain ⟨_, htexts, -⟩ := convert_eq_ok h
  obtain ⟨tables, htables⟩ := exists_map_ofModel htexts
  refine ⟨tables, htables, fun s hs => ?_⟩
  have hcompiles : ∀ m ∈ models, Compiles s m :=
    fun m hm => (exists_convert.1 ⟨_, h⟩ m hm).congr hs.symm
  obtain ⟨x, hx⟩ := exists_convert.2 hcompiles
  obtain ⟨texts, htexts, rfl⟩ := convert_eq_ok hx
  have hsql : models.map (createTable s) = (tables.map (Table.sql s)).map .ok := by
    have hmap := congrArg (List.map (Functor.map (Table.sql s))) htables
    rw [List.map_map, List.map_map] at hmap
    rw [List.map_map]
    exact hmap
  have heq : texts = tables.map (Table.sql s) :=
    (List.map_inj_right fun _ _ => Except.ok.inj).1 (htexts.symm.trans hsql)
  rw [hx, heq, indexedColumns_congr hs]

/-! ## Scripts -/

theorem intercalate_append {α : Type} {sep : List α} {as bs : List (List α)} (ha : as ≠ [])
    (hb : bs ≠ []) :
    sep.intercalate (as ++ bs) = sep.intercalate as ++ (sep ++ sep.intercalate bs) := by
  induction as with
  | nil => exact absurd rfl ha
  | cons a as ih =>
    cases as with
    | nil =>
      obtain ⟨b, bs, rfl⟩ := List.exists_cons_of_ne_nil hb
      rw [List.singleton_append, List.intercalate_cons_cons, List.intercalate_singleton,
        List.append_assoc]
    | cons c as =>
      rw [List.cons_append, List.cons_append, List.intercalate_cons_cons, ← List.cons_append,
        ih (List.cons_ne_nil _ _), List.intercalate_cons_cons]
      simp only [List.append_assoc]

/-- Texts that are put together from parts are put together from all parts. -/
theorem intercalate_flatten {sep : String} {groups : List (List String)}
    (h : ∀ group ∈ groups, group ≠ []) :
    sep.intercalate (groups.map sep.intercalate) = sep.intercalate groups.flatten := by
  rw [← String.toList_inj, String.toList_intercalate, String.toList_intercalate, List.map_map]
  induction groups with
  | nil => rfl
  | cons group groups ih =>
    rw [List.forall_mem_cons] at h
    cases groups with
    | nil =>
      rw [List.map_singleton, List.intercalate_singleton, List.flatten_singleton]
      exact String.toList_intercalate
    | cons other groups =>
      have hgroup : (group.map String.toList) ≠ [] := fun hnil => h.1 (List.map_eq_nil_iff.1 hnil)
      have hother : other ≠ [] := h.2 other List.mem_cons_self
      have hrest : (other :: groups).flatten.map String.toList ≠ [] := by
        rw [List.flatten_cons, List.map_append]
        intro hnil
        exact hother (List.map_eq_nil_iff.1 (List.append_eq_nil_iff.1 hnil).1)
      have hsplit : (group :: other :: groups).flatten = group ++ (other :: groups).flatten :=
        List.flatten_cons
      have htext : (sep.intercalate group).toList =
          sep.toList.intercalate (group.map String.toList) := String.toList_intercalate
      rw [List.map_cons, List.map_cons, List.intercalate_cons_cons, ← List.map_cons, ih h.2,
        hsplit, List.map_append, intercalate_append hgroup hrest, List.append_assoc]
      exact congrArg (· ++ _) htext

/-- A paragraph that is a comment. -/
def isRemark (paragraph : String) : Bool := paragraph.toList.head? = some '#'

theorem isRemark_title (t : Table) : isRemark t.title = true := by
  unfold isRemark Table.title
  simp only [String.toList_append]
  rfl

theorem not_isRemark_sql {switches : Switches} (hcomments : switches.comments = false)
    (t : Table) : isRemark (t.sql switches) = false := by
  have hlayout : ∀ opening separator closing : String,
      isRemark (t.layout opening separator closing) = false := by
    intro opening separator closing
    unfold isRemark Table.layout
    simp only [String.toList_append]
    rfl
  rw [Table.sql_eq_layout hcomments]
  split <;> exact hlayout _ _ _

theorem IndexTarget.not_isRemark_sql (t : IndexTarget) : isRemark t.sql = false := by
  unfold isRemark sql
  simp only [String.toList_append]
  rfl

theorem script_of_ne_nil {statements : List String} (h : statements ≠ []) :
    script statements = "\n\n".intercalate statements ++ "\n" := by
  obtain ⟨s, r, rfl⟩ := List.exists_cons_of_ne_nil h
  rfl

/-- The paragraphs of tables and indexes. -/
def batchParagraphs (switches : Switches) (tables : List Table) (indexes : List IndexTarget) :
    List String :=
  tables.flatMap (Table.paragraphs switches) ++ indexes.map IndexTarget.sql

theorem intercalate_statements (switches : Switches) (tables : List Table)
    (indexes : List IndexTarget) :
    "\n\n".intercalate (tables.map (Table.sql switches) ++ indexes.map IndexTarget.sql) =
      "\n\n".intercalate (batchParagraphs switches tables indexes) := by
  let groups := tables.map (Table.paragraphs switches) ++
    indexes.map fun t : IndexTarget => [t.sql]
  have hgroups : ∀ group ∈ groups, group ≠ [] := by
    intro group hgroup
    obtain hgroup | hgroup := List.mem_append.1 hgroup
    · obtain ⟨t, -, rfl⟩ := List.mem_map.1 hgroup
      exact List.append_ne_nil_of_right_ne_nil _ (List.cons_ne_nil _ _)
    · obtain ⟨t, -, rfl⟩ := List.mem_map.1 hgroup
      exact List.cons_ne_nil _ _
  have hstatements : tables.map (Table.sql switches) ++ indexes.map IndexTarget.sql =
      groups.map "\n\n".intercalate := by
    rw [List.map_append, List.map_map, List.map_map]
    congr 1
    exact List.map_congr_left fun t _ => Table.sql_eq_intercalate switches t
  have hflatten : groups.flatten = batchParagraphs switches tables indexes := by
    rw [List.flatten_append, ← List.flatMap_def, ← List.flatMap_def, ← List.map_eq_flatMap]
    rfl
  rw [hstatements, intercalate_flatten hgroups, hflatten]

theorem filter_tables (switches : Switches) (tables : List Table) :
    (tables.flatMap (Table.paragraphs switches)).filter (!isRemark ·) =
        tables.map (Table.sql { switches with comments := false }) ∧
      ((tables.flatMap (Table.paragraphs switches)).filter isRemark).length =
        if switches.comments then tables.length else 0 := by
  have hsql : ∀ t : Table, isRemark (t.sql { switches with comments := false }) = false :=
    not_isRemark_sql rfl
  induction tables with
  | nil => exact ⟨rfl, by split <;> rfl⟩
  | cons t tables ih =>
    rw [List.flatMap_cons, List.filter_append, List.filter_append, List.length_append, ih.1, ih.2]
    unfold Table.paragraphs
    by_cases hcomments : switches.comments = true
    · simp [hcomments, isRemark_title, hsql, Nat.add_comm]
    · simp [hcomments, hsql]

/-- Of the paragraphs of a batch one for every table is a comment, if any are. -/
theorem filter_batchParagraphs (switches : Switches) (tables : List Table)
    (indexes : List IndexTarget) :
    (batchParagraphs switches tables indexes).filter (!isRemark ·) =
        tables.map (Table.sql { switches with comments := false }) ++
          indexes.map IndexTarget.sql ∧
      ((batchParagraphs switches tables indexes).filter isRemark).length =
        if switches.comments then tables.length else 0 := by
  have hkept : (indexes.map IndexTarget.sql).filter (!isRemark ·) =
      indexes.map IndexTarget.sql := by
    refine List.filter_eq_self.2 (List.forall_mem_map.2 fun t _ => ?_)
    rw [t.not_isRemark_sql]
    rfl
  have hdropped : (indexes.map IndexTarget.sql).filter isRemark = [] := by
    refine List.filter_eq_nil_iff.2 (List.forall_mem_map.2 fun t _ => ?_)
    rw [t.not_isRemark_sql]
    exact Bool.false_ne_true
  obtain ⟨htables, hremarks⟩ := filter_tables switches tables
  unfold batchParagraphs
  rw [List.filter_append, List.filter_append, htables, hkept, hdropped, List.append_nil, hremarks]
  exact ⟨rfl, rfl⟩

/-- The script of a batch, cut at empty lines, is made of the statements that the batch has with
comments off, and of one remark for every model if comments are on. -/
theorem paragraphs_script {switches : Switches} {models : List Model} {statements : List String}
    (hsome : models ≠ []) (hmodels : ∀ m ∈ models, OneLineModel m)
    (h : convert switches models = .ok statements) :
    ∃ body plain, script statements = body ++ "\n" ∧
      convert { switches with comments := false } models = .ok plain ∧
      (paragraphs body).filter (!isRemark ·) = plain ∧
      ((paragraphs body).filter isRemark).length =
        if switches.comments then models.length else 0 := by
  obtain ⟨tables, htables, hconvert⟩ := exists_tables h
  have hlen : models.length = tables.length := by
    simpa using congrArg List.length htables
  have hpos : 0 < tables.length := hlen ▸ List.length_pos_iff.2 hsome
  have hstatements := Except.ok.inj (h.symm.trans (hconvert switches rfl))
  have hne : statements ≠ [] := by
    rw [hstatements, ← List.length_pos_iff, List.length_append, List.length_map]
    exact Nat.add_pos_left hpos _
  let parts := batchParagraphs switches tables (indexedColumns switches models).eraseDups
  have hscript : script statements = "\n\n".intercalate parts ++ "\n" := by
    rw [script_of_ne_nil hne, hstatements, intercalate_statements]
  have hsplit : paragraphs ("\n\n".intercalate parts) = parts := by
    refine paragraphs_intercalate ?_ fun part hpart => ?_
    · obtain ⟨t, ht⟩ := List.exists_mem_of_length_pos hpos
      have hpart : t.sql { switches with comments := false } ∈ t.paragraphs switches :=
        List.mem_append_right _ List.mem_cons_self
      exact List.ne_nil_of_mem (List.mem_append_left _ (List.mem_flatMap.2 ⟨t, ht, hpart⟩))
    · obtain hpart | hpart := List.mem_append.1 hpart
      · obtain ⟨t, ht, hpart⟩ := List.mem_flatMap.1 hpart
        have hok : Except.ok t ∈ models.map Table.ofModel := htables ▸ List.mem_map_of_mem ht
        obtain ⟨m, hm, hmodel⟩ := List.mem_map.1 hok
        exact unbroken_ofModel (hmodels m hm) hmodel switches part hpart
      · obtain ⟨t, ht, rfl⟩ := List.mem_map.1 hpart
        exact unbroken_indexes hmodels switches t (List.mem_eraseDups.1 ht)
  obtain ⟨hkept, hdropped⟩ :=
    filter_batchParagraphs switches tables (indexedColumns switches models).eraseDups
  refine ⟨_, _, hscript, hconvert { switches with comments := false } rfl, ?_, ?_⟩
  · rw [hsplit, hkept]
  · rw [hsplit, hdropped, hlen]

/-- Models whose names hold separators of a script that are no line breaks, and whose defaults hold
line breaks that are written as escapes. -/
def shelves : List Model :=
  let shelf : ModelRef := ⟨"Shelf", "shelves"⟩
  let book : ModelRef := ⟨"Book", "books"⟩
  [({ name := "Shelf \\n\\n# 1", table := "shelves" } : Model)
    |>.withField "id" { types := .single .integer }
    |>.withField "labels" {
        types := .single .object
        defaultValue := some (.ofJson (.object [("a\n\n#", .string "it's\n")])) }
    |>.withRelation "books" {
        mode := .children, a := shelf, b := book, aKey := "id", bKey := "on" },
   ({ name := "Book", table := "books" } : Model)
    |>.withField "id" { types := .single .integer }
    |>.withField "tags" {
        types := .single .array
        defaultValue := some (.ofJson (.array [.string "# new", .bool true])) }]

theorem paragraphs_script_shelves :
    shelves ≠ [] ∧ (∀ m ∈ shelves, OneLineModel m) ∧
    ∃ statements body plain, convert ⟨true, false, true⟩ shelves = .ok statements ∧
      script statements = body ++ "\n" ∧ convert ⟨false, false, true⟩ shelves = .ok plain ∧
      (paragraphs body).filter (!isRemark ·) = plain ∧
      ((paragraphs body).filter isRemark).length = 2 := by
  have hsome : shelves ≠ [] := List.cons_ne_nil _ _
  have hmodels : ∀ m ∈ shelves, OneLineModel m := by
    have hrelation : ∀ m ∈ shelves, ∀ r ∈ m.relations.entries, OneLineRelation r.2 := by
      intro m hm r hr
      have htables : ∀ m ∈ shelves, ∀ r ∈ m.relations.entries,
          ∀ model ∈ r.2.a :: r.2.b :: r.2.via.toList, IsOneLine model.table := by decide +kernel
      have hkeys : ∀ m ∈ shelves, ∀ r ∈ m.relations.entries,
          ∀ key ∈ r.2.aKey :: r.2.bKey :: r.2.viaAKey.toList, IsOneLine key := by decide +kernel
      exact ⟨htables m hm r hr, hkeys m hm r hr⟩
    have hparts : ∀ m ∈ shelves, IsOneLine m.name ∧ IsOneLine m.table ∧ IsOneLine m.idKey ∧
        ∀ f ∈ m.fields.entries, IsOneLine f.1 ∧
          ∀ v ∈ f.2.defaultValue, IsOneLine (literalText v.value) := by decide +kernel
    intro m hm
    obtain ⟨hname, htable, hkey, hfields⟩ := hparts m hm
    exact ⟨hname, htable, hkey, fun f hf => (hfields f hf).1, fun f hf => (hfields f hf).2,
      hrelation m hm⟩
  have h : convert ⟨true, false, true⟩ shelves = .ok
      ["# Create table \"shelves\" for model \"Shelf \\n\\n# 1\"\n\n" ++
        "CREATE TABLE shelves (\n\tid INT(11) NOT NULL AUTO_INCREMENT,\n\t" ++
        "labels JSON NOT NULL DEFAULT '\x7b\"a\\n\\n#\":\"it''s\\n\"\x7d',\n\t" ++
        "PRIMARY KEY (id)\n);",
       "# Create table \"books\" for model \"Book\"\n\n" ++
        "CREATE TABLE books (\n\tid INT(11) NOT NULL AUTO_INCREMENT,\n\t" ++
        "tags JSON NOT NULL DEFAULT '# new,true',\n\tPRIMARY KEY (id)\n);",
       "CREATE INDEX index_books__on ON books (on);"] := by decide +kernel
  obtain ⟨body, plain, hrest⟩ := paragraphs_script hsome hmodels h
  exact ⟨hsome, hmodels, _, body, plain, h, hrest⟩

end OrmDdl.Mysql
