import OrmDdl.Mysql.Table
import OrmDdl.Proofs.Mysql.TableText
/-!
# Tokens of table statements

`Table.read_sql`: the statement of a table is read as that table. Every part of a statement has
tokens that do not depend on the layout; defaults are quoted, so whatever is in them ends neither an
item nor the statement.
-/

namespace OrmDdl.Mysql

open Lexer

/-! ## Words -/

/-- A name of letters, digits and underscores. -/
def IsName (s : String) : Prop := s ≠ "" ∧ ∀ c ∈ s.toList, c.isAlphanum = true ∨ c = '_'

instance (s : String) : Decidable (IsName s) :=
  @instDecidableAnd _ _ inferInstance
    (List.decidableBAll (fun c => c.isAlphanum = true ∨ c = '_') s.toList)

theorem isPlain_of_isAlphanum {c : Char} (h : c.isAlphanum = true) : isPlain c = true := by
  simp only [isPlain, isMark, Char.isWhitespace, Bool.and_eq_true, Bool.not_eq_true',
    Bool.or_eq_false_iff, decide_eq_false_iff_not, decide_eq_true_eq]
  refine ⟨⟨⟨⟨⟨?_, ?_⟩, ?_⟩, ?_⟩, ⟨⟨⟨?_, ?_⟩, ?_⟩, ?_⟩⟩, ?_⟩
  all_goals
    rintro rfl
    exact absurd h (by decide)

theorem IsName.isWord {s : String} (h : IsName s) : IsWord s := by
  refine ⟨h.1, fun c hc => ?_⟩
  obtain halnum | rfl := h.2 c hc
  · exact isPlain_of_isAlphanum halnum
  · decide

/-- The characters that numbers in statements are made of. -/
def isNumeric (c : Char) : Bool := c.isAlphanum || c = '.' || c = '-'

theorem isPlain_of_isNumeric {c : Char} (h : isNumeric c = true) : isPlain c = true := by
  simp only [isNumeric, Bool.or_eq_true, decide_eq_true_eq] at h
  obtain (h | rfl) | rfl := h
  · exact isPlain_of_isAlphanum h
  · decide
  · decide

theorem isNumeric_of_mem_toDigits {n : Nat} {c : Char} (h : c ∈ Nat.toDigits 10 n) :
    isNumeric c = true := by
  have hdigit : c.isDigit = true := Nat.isDigit_of_mem_toDigits (by decide) (by decide) h
  rw [isNumeric, Char.isAlphanum, hdigit, Bool.or_true, Bool.true_or, Bool.true_or]

/-- Numbers in statements are in plain notation. -/
theorem isNumeric_of_mem_plainText {n : Nat} {exponent : Int} {c : Char}
    (h : c ∈ numberLayout.plainText (Nat.toDigits 10 n) exponent) : isNumeric c = true := by
  have hzeros : ∀ {m : Nat}, c ∈ List.replicate m '0' → isNumeric c = true := by
    intro m hc
    rw [List.eq_of_mem_replicate hc]
    decide
  unfold Double.Layout.plainText at h
  cases exponent with
  | ofNat m =>
    dsimp only at h
    rw [List.mem_append, List.mem_append] at h
    obtain (h | h) | h := h
    · exact isNumeric_of_mem_toDigits h
    · exact hzeros h
    · exact absurd h List.not_mem_nil
  | negSucc m =>
    dsimp only at h
    split_ifs at h
    · rw [List.mem_append, List.mem_cons] at h
      obtain h | rfl | h := h
      · exact isNumeric_of_mem_toDigits (List.mem_of_mem_take h)
      · decide
      · exact isNumeric_of_mem_toDigits (List.mem_of_mem_drop h)
    · rw [List.mem_cons, List.mem_cons, List.mem_append] at h
      obtain rfl | rfl | h | h := h
      · decide
      · decide
      · exact hzeros h
      · exact isNumeric_of_mem_toDigits h

/-- Numbers in statements are made of letters, digits, points and signs. -/
theorem isNumeric_of_mem_text {x : Double} {c : Char} (h : c ∈ (numberLayout.text x).toList) :
    isNumeric c = true := by
  have hword : ∀ w : String, w.toList.all isNumeric = true → c ∈ w.toList → isNumeric c = true :=
    fun w hw hc => List.all_eq_true.1 hw c hc
  unfold Double.Layout.text at h
  rw [String.toList_ofList] at h
  cases x with
  | nan => exact hword "NaN" (by decide) h
  | infinite negative =>
    cases negative with
    | false => exact hword "inf" (by decide) h
    | true => exact hword "-inf" (by decide) h
  | finite negative units hunits =>
    obtain hsign | h := List.mem_append.1 h
    · cases negative with
      | false => exact absurd hsign List.not_mem_nil
      | true =>
        obtain rfl := List.mem_singleton.1 hsign
        decide
    · exact isNumeric_of_mem_plainText h

theorem plainText_ne_nil (n : Nat) (exponent : Int) :
    numberLayout.plainText (Nat.toDigits 10 n) exponent ≠ [] := by
  have hdigits : Nat.toDigits 10 n ≠ [] := Nat.toDigits_ne_nil
  unfold Double.Layout.plainText
  cases exponent with
  | ofNat m => simp [hdigits]
  | negSucc m =>
    dsimp only
    split_ifs <;> simp

/-- The text of a number is one word. -/
theorem isWord_numberText (x : Double) : IsWord (numberLayout.text x) := by
  refine ⟨?_, fun c hc => isPlain_of_isNumeric (isNumeric_of_mem_text hc)⟩
  unfold Double.Layout.text
  cases x with
  | nan => decide
  | infinite negative => cases negative <;> decide
  | finite negative units h =>
    rw [Ne, String.ofList_eq_empty_iff]
    exact fun hnil => plainText_ne_nil _ _ (List.append_eq_nil_iff.1 hnil).2

/-! ## Types -/

namespace IntegerWidth

def name : IntegerWidth → String
  | tiny => "TINYINT"
  | small => "SMALLINT"
  | int => "INT"
  | big => "BIGINT"

def digits (w : IntegerWidth) (unsigned : Bool) : String :=
  match w, unsigned with
  | tiny, true => "3"
  | tiny, false => "4"
  | small, true => "5"
  | small, false => "6"
  | int, true => "10"
  | int, false => "11"
  | big, _ => "20"

end IntegerWidth

/-- A column type by its parts. -/
def ColumnType.parts : ColumnType → TypeText
  | boolean => .sized "TINYINT" "1" true
  | integer width unsigned => .sized width.name (width.digits unsigned) unsigned
  | text => .word "TEXT"
  | char length => .sized "CHAR" (numberLayout.text length) false
  | varchar length => .sized "VARCHAR" (numberLayout.text length) false
  | float => .word "FLOAT"
  | json => .word "JSON"

theorem ColumnType.text_parts (t : ColumnType) : t.parts.text = t.sql := by
  cases t with
  | boolean | text | float | json => rfl
  | integer width unsigned => cases width <;> cases unsigned <;> rfl
  | char length => exact String.append_empty
  | varchar length => exact String.append_empty

theorem scans_sized {name size : String} (hname : IsWord name) (hsize : IsWord size)
    (unsigned : Bool) :
    Scans (TypeText.sized name size unsigned).text.toList
      (TypeText.sized name size unsigned).tokens := by
  have hsign : Scans (if unsigned then " UNSIGNED" else "").toList
      (if unsigned then [.word "UNSIGNED"] else []) := by
    cases unsigned with
    | true =>
      have hword : Scans ([' '] ++ "UNSIGNED".toList) ([] ++ [.word "UNSIGNED"]) :=
        Separates.space.scans_append (.word (by decide))
      exact hword
    | false => exact .nil
  unfold TypeText.text
  simp only [String.toList_append, List.append_assoc]
  exact (Scans.word hname).separate (.mark rfl) ((Scans.word hsize).separate (.mark rfl) hsign)

theorem ColumnType.scans (t : ColumnType) : Scans t.sql.toList t.parts.tokens := by
  rw [← t.text_parts]
  cases t with
  | boolean => exact scans_sized (by decide) (by decide) _
  | integer width unsigned =>
    refine scans_sized ?_ ?_ _
    · cases width <;> decide
    · cases width <;> cases unsigned <;> decide
  | text | float | json => exact .word (by decide)
  | char length | varchar length => exact scans_sized (by decide) (isWord_numberText length) _

/-! ## Columns -/

def DefaultClause.tokens : DefaultClause → List Token
  | null => [.word "DEFAULT", .word "NULL"]
  | flag on => [.word "DEFAULT", .word (if on then "1" else "0")]
  | text value => [.word "DEFAULT", .literal value]

theorem DefaultClause.scans (d : DefaultClause) : Scans d.sql.toList d.tokens := by
  cases d with
  | null => exact scans_words (v := "DEFAULT") (w := "NULL") (by decide) (by decide)
  | flag on =>
    cases on with
    | true => exact scans_words (v := "DEFAULT") (w := "1") (by decide) (by decide)
    | false => exact scans_words (v := "DEFAULT") (w := "0") (by decide) (by decide)
  | text value =>
    have hword : Scans "DEFAULT".toList [.word "DEFAULT"] := .word (by decide)
    have htext : "DEFAULT ".toList = "DEFAULT".toList ++ [' '] := by decide
    unfold sql
    rw [String.toList_append, htext, List.append_assoc]
    exact hword.separate .space (.literal value)

namespace Column

/-- The clauses after the type, as tokens. -/
def tail (c : Column) : List (List Token) :=
  (if c.notNull then [[.word "NOT", .word "NULL"]] else [])
    ++ (c.defaultClause.map DefaultClause.tokens).toList
    ++ (if c.autoIncrement then [[.word "AUTO_INCREMENT"]] else [])

def tokens (c : Column) : List Token := .word c.name :: (c.type.parts.tokens ++ c.tail.flatten)

/-- What the definition of a column says. -/
def text (c : Column) : ColumnText where
  name := c.name
  type := c.type.sql
  notNull := c.notNull
  defaultClause := c.defaultClause
  autoIncrement := c.autoIncrement

theorem readClauses_tail (c : Column) :
    readClauses c.name c.type.parts c.tail.flatten = some c.text := by
  obtain ⟨name, type, notNull, defaultClause, autoIncrement⟩ := c
  unfold text
  rw [← type.text_parts]
  -- the words of a clause tell it from those after it, in each of the combinations
  cases notNull <;> cases autoIncrement <;> rcases defaultClause with _ | _ | (_ | _) | _ <;> rfl

theorem head?_tail (c : Column) :
    ∀ t ∈ c.tail.flatten.head?, ∃ w, t = .word w ∧ w ≠ "UNSIGNED" := by
  obtain ⟨name, type, notNull, defaultClause, autoIncrement⟩ := c
  cases notNull <;> cases autoIncrement <;> rcases defaultClause with _ | _ | (_ | _) | _ <;>
    rintro t ⟨⟩ <;> exact ⟨_, rfl, by decide⟩

theorem readColumn_tokens (c : Column) : readColumn c.tokens = some c.text := by
  have htype := readType_append c.type.parts c.head?_tail
  show (readType (c.type.parts.tokens ++ c.tail.flatten)).bind _ = _
  rw [htype]
  exact c.readClauses_tail

theorem mark_not_mem_tail (c : Column) (m : Char) : .mark m ∉ c.tail.flatten := by
  obtain ⟨name, type, notNull, defaultClause, autoIncrement⟩ := c
  cases notNull <;> cases autoIncrement <;> rcases defaultClause with _ | _ | _ | _ <;>
    simp [tail, DefaultClause.tokens]

theorem whole_tokens (c : Column) : Whole c.tokens := by
  have hname : Whole [.word c.name] := .of_no_marks (by simp)
  have htail : Whole c.tail.flatten := .of_no_marks c.mark_not_mem_tail
  exact hname.append (c.type.parts.whole.append htail)

theorem scans_clauses (c : Column) (h : IsWord c.name) : List.Forall₂ Scans
    (c.clauses.map String.toList) ([[.word c.name], c.type.parts.tokens] ++ c.tail) := by
  have hhead : List.Forall₂ Scans ([c.name, c.type.sql].map String.toList)
      [[.word c.name], c.type.parts.tokens] := .cons (.word h) (.cons c.type.scans .nil)
  have hnotNull : List.Forall₂ Scans ((if c.notNull then ["NOT NULL"] else []).map String.toList)
      (if c.notNull then [[.word "NOT", .word "NULL"]] else []) := by
    cases c.notNull with
    | false => exact .nil
    | true => exact .cons (scans_words (v := "NOT") (w := "NULL") (by decide) (by decide)) .nil
  have hdefault : List.Forall₂ Scans
      ((c.defaultClause.map DefaultClause.sql).toList.map String.toList)
      (c.defaultClause.map DefaultClause.tokens).toList := by
    cases c.defaultClause with
    | none => exact .nil
    | some d => exact .cons d.scans .nil
  have hauto : List.Forall₂ Scans
      ((if c.autoIncrement then ["AUTO_INCREMENT"] else []).map String.toList)
      (if c.autoIncrement then [[.word "AUTO_INCREMENT"]] else []) := by
    cases c.autoIncrement with
    | false => exact .nil
    | true => exact .cons (.word (by decide)) .nil
  unfold clauses tail
  simp only [List.map_append, List.append_assoc]
  exact List.rel_append hhead (List.rel_append hnotNull (List.rel_append hdefault hauto))

theorem scans (c : Column) (h : IsWord c.name) : Scans c.sql.toList c.tokens := by
  have hscans := Scans.intercalate .space (c.scans_clauses h)
  rw [intercalate_empty] at hscans
  unfold sql
  rw [String.toList_intercalate]
  exact hscans

end Column

/-! ## Tables -/

namespace Table

/-- The tokens of the item that names the key. -/
def keyTokens (key : String) : List Token :=
  [.word "PRIMARY", .word "KEY", .mark '(', .word key, .mark ')']

def itemTokens (t : Table) : List (List Token) := t.columns.map Column.tokens ++ [keyTokens t.key]

def tokens (t : Table) : List Token :=
  [.word "CREATE", .word "TABLE", .word t.name, .mark '('] ++
    ([.mark ','].intercalate t.itemTokens ++ [.mark ')', .mark ';'])

/-- What the statement of a table says. -/
def text (t : Table) : TableText where
  name := t.name
  columns := t.columns.map Column.text
  key := t.key

theorem ofTokens_tokens (t : Table) : TableText.ofTokens t.tokens = some t.text := by
  have hkey : Whole (keyTokens t.key) := by
    have hwords : Whole [.word "PRIMARY", .word "KEY"] := .of_no_marks (by simp)
    have hname : Whole [.word t.key] := .of_no_marks (by simp)
    exact hwords.append hname.parenthesized
  have hwhole : ∀ tokens ∈ t.itemTokens, Whole tokens := by
    intro tokens hmem
    obtain hmem | hmem := List.mem_append.1 hmem
    · obtain ⟨c, -, rfl⟩ := List.mem_map.1 hmem
      exact c.whole_tokens
    · rw [List.mem_singleton.1 hmem]
      exact hkey
  have hne : t.itemTokens ≠ [] := by simp [itemTokens]
  unfold tokens
  rw [TableText.ofTokens_eq t.name hne hwhole]
  exact TableText.ofItems_eq rfl Column.readColumn_tokens

theorem scans_key {key : String} (h : IsWord key) :
    Scans ("PRIMARY KEY (" ++ key ++ ")").toList (keyTokens key) := by
  have hwords : Scans ("PRIMARY".toList ++ ' ' :: "KEY".toList) [.word "PRIMARY", .word "KEY"] :=
    scans_words (by decide) (by decide)
  have hopen : Separates ([' '] ++ ['(']) ([] ++ [.mark '(']) := Separates.space.append (.mark rfl)
  have htext : "PRIMARY KEY (".toList =
      ("PRIMARY".toList ++ ' ' :: "KEY".toList) ++ ([' '] ++ ['(']) := by decide
  have hscans := hwords.separate hopen ((Scans.word h).append_separates (.mark (c := ')') rfl))
  rw [String.toList_append, String.toList_append, htext, List.append_assoc, List.append_assoc]
  exact hscans

/-- All names in a table are words. -/
structure Worded (t : Table) : Prop where
  name : IsWord t.name
  key : IsWord t.key
  columns : ∀ c ∈ t.columns, IsWord c.name

theorem scans_items {t : Table} (h : t.Worded) :
    List.Forall₂ Scans (t.items.map String.toList) t.itemTokens := by
  unfold items itemTokens
  rw [List.map_append, List.map_map]
  refine List.rel_append ?_ (.cons (scans_key h.key) .nil)
  rw [List.forall₂_map_left_iff, List.forall₂_map_right_iff, List.forall₂_same]
  exact fun c hc => c.scans (h.columns c hc)

/-- The statement with other blanks. -/
def layout (opening separator closing : String) (t : Table) : String :=
  "CREATE TABLE " ++ t.name ++ opening ++ separator.intercalate t.items ++ closing

theorem scans_layout {t : Table} (h : t.Worded) {opening separator closing : String}
    (hopening : Separates opening.toList [.mark '('])
    (hseparator : Separates separator.toList [.mark ','])
    (hclosing : Separates closing.toList [.mark ')', .mark ';']) :
    Scans (t.layout opening separator closing).toList t.tokens := by
  have hcreate : Scans ("CREATE".toList ++ ' ' :: "TABLE".toList) [.word "CREATE", .word "TABLE"] :=
    scans_words (by decide) (by decide)
  have hitems := Scans.intercalate hseparator (scans_items h)
  have htext : "CREATE TABLE ".toList = ("CREATE".toList ++ ' ' :: "TABLE".toList) ++ [' '] := by
    decide
  have hbody := (Scans.word h.name).separate hopening (hitems.append_separates hclosing)
  have hscans := hcreate.separate .space hbody
  unfold layout
  simp only [String.toList_append, String.toList_intercalate, htext, List.append_assoc] at hscans ⊢
  exact hscans

theorem scans_sql {t : Table} (h : t.Worded) {switches : Switches}
    (hcomments : switches.comments = false) : Scans (t.sql switches).toList t.tokens := by
  have hline : Separates ['\n'] [] := .blank rfl
  have hopen : Separates ['('] [.mark '('] := .mark rfl
  have hcomma : Separates [','] [.mark ','] := .mark rfl
  have hclose : Separates ([')'] ++ [';']) ([.mark ')'] ++ [.mark ';']) :=
    (Separates.mark rfl).append (.mark rfl)
  have hindent : Separates (['\n'] ++ ['\t']) ([] ++ []) := hline.append (.blank rfl)
  unfold sql
  rw [hcomments]
  simp only [Bool.false_eq_true, if_false, String.empty_append]
  split
  · exact scans_layout h (Separates.space.append hopen) (hcomma.append .space) hclose
  · exact scans_layout h ((Separates.space.append hopen).append hindent) (hcomma.append hindent)
      (hline.append hclose)

/-- No item holds a semicolon outside literals. -/
theorem semicolon_not_mem_itemTokens {t : Table} {tokens : List Token} (h : tokens ∈ t.itemTokens) :
    .mark ';' ∉ tokens := by
  obtain h | h := List.mem_append.1 h
  · obtain ⟨c, -, rfl⟩ := List.mem_map.1 h
    have htype : .mark ';' ∉ c.type.parts.tokens := by
      cases c.type.parts with
      | word name => simp [TypeText.tokens]
      | sized name size unsigned => cases unsigned <;> simp [TypeText.tokens]
    simp [Column.tokens, htype, c.mark_not_mem_tail]
  · rw [List.mem_singleton.1 h]
    simp [keyTokens]

theorem getLast?_sql {switches : Switches} (t : Table) :
    (t.sql switches).toList.getLast? = some ';' := by
  unfold sql
  dsimp only
  by_cases hline : switches.oneLine = true
  · rw [if_pos hline, String.toList_append, List.getLast?_append]
    rfl
  · rw [if_neg hline, String.toList_append, List.getLast?_append]
    rfl

/-- The statement of a table is read as that table, and ends where it ends. -/
theorem read_sql {t : Table} (h : t.Worded) {switches : Switches}
    (hcomments : switches.comments = false) :
    TableText.read (t.sql switches) = some t.text ∧ EndsOnce (t.sql switches) := by
  have htokens : tokenize (t.sql switches) = some t.tokens := (scans_sql h hcomments).tokenize
  constructor
  · unfold TableText.read
    rw [htokens]
    exact t.ofTokens_tokens
  · have hbody : t.tokens = ([.word "CREATE", .word "TABLE", .word t.name, .mark '('] ++
        ([.mark ','].intercalate t.itemTokens ++ [.mark ')'])) ++ [.mark ';'] := by
      simp [tokens]
    rw [hbody] at htokens
    refine .of_tokenize ?_ htokens ?_
    · exact getLast?_sql t
    · intro hmem
      simp only [List.mem_append] at hmem
      obtain hmem | hmem | hmem := hmem
      · simp at hmem
      · obtain hcomma | ⟨tokens, hitem, hmem⟩ := mem_intercalate hmem
        · simp at hcomma
        · exact semicolon_not_mem_itemTokens hitem hmem
      · simp at hmem

end Table

end OrmDdl.Mysql
