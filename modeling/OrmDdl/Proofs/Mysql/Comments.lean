import Mathlib.Control.Monad.Basic
import OrmDdl.Proofs.Mysql.TableParts
/-!
# Comments in statements

A comment runs from a `#` outside literals to the end of its line. `tokenize_withoutComments`: with
its comments taken out, a statement has the tokens that it has with comments off, provided that the
name of the model is on one line. What stands behind a line break in that name is in no comment.
-/

namespace OrmDdl.Mysql

open Outcome

/-! ## Taking comments out -/

/-- Where in a text a character stands. -/
inductive Region where
  | code
  | literal
  | comment
deriving DecidableEq

namespace Region

/-- Where the text goes on after a character. Of two quotes in a literal the first ends it and the
second opens it again. -/
def next : Region → Char → Region
  | code, c => if c = '#' then comment else if c = '\'' then literal else code
  | literal, c => if c = '\'' then code else literal
  | comment, c => if c = '\n' then code else comment

def after (s : Region) (text : List Char) : Region := text.foldl next s

/-- The text without what is in comments. The end of a line does not belong to the comment. -/
def strip : Region → List Char → List Char
  | _, [] => []
  | s, c :: r => if s.next c = comment then strip comment r else c :: strip (s.next c) r

theorem after_cons (s : Region) (c : Char) (r : List Char) :
    s.after (c :: r) = (s.next c).after r := rfl

theorem after_append (s : Region) (a b : List Char) : s.after (a ++ b) = (s.after a).after b :=
  List.foldl_append

theorem strip_append (a b : List Char) :
    ∀ s : Region, s.strip (a ++ b) = s.strip a ++ (s.after a).strip b := by
  induction a with
  | nil => intro s; rfl
  | cons c a ih =>
    intro s
    rw [List.cons_append, strip, strip, ih, ih, after_cons]
    by_cases hc : s.next c = comment
    · rw [if_pos hc, if_pos hc, hc]
    · rw [if_neg hc, if_neg hc]
      rfl

/-- Nothing of a comment is left before the end of its line. -/
theorem strip_comment {a : List Char} (h : '\n' ∉ a) :
    comment.strip a = [] ∧ comment.after a = comment := by
  induction a with
  | nil => exact ⟨rfl, rfl⟩
  | cons c a ih =>
    rw [List.mem_cons, not_or] at h
    have hnext : comment.next c = comment := if_neg (Ne.symm h.1)
    rw [strip, after_cons, hnext, if_pos rfl]
    exact ih h.2

/-- A text that holds no comment and leaves no literal open. -/
def Clean (a : List Char) : Prop := code.strip a = a ∧ code.after a = code

theorem clean_of_not_mem {a : List Char} (h : ∀ c ∈ a, c ≠ '#' ∧ c ≠ '\'') : Clean a := by
  induction a with
  | nil => exact ⟨rfl, rfl⟩
  | cons c a ih =>
    rw [List.forall_mem_cons] at h
    have hnext : code.next c = code := by
      rw [next, if_neg h.1.1, if_neg h.1.2]
    obtain ⟨hstrip, hafter⟩ := ih h.2
    unfold Clean
    rw [strip, after_cons, hnext, if_neg (by decide), hstrip]
    exact ⟨rfl, hafter⟩

theorem additive_clean : Additive Clean where
  append {a b} ha hb := by
    unfold Clean
    rw [strip_append, after_append, ha.1, ha.2, hb.1]
    exact ⟨rfl, hb.2⟩
  ordinary {a} h := by
    refine clean_of_not_mem fun c hc => ?_
    have hc := List.all_eq_true.1 h c hc
    simp only [isOrdinary, Bool.and_eq_true, decide_eq_true_eq] at hc
    exact ⟨hc.2, hc.1.2⟩
  indented := ⟨rfl, rfl⟩
  closed := ⟨rfl, rfl⟩

/-- Whatever is in a literal is kept, up to its last quote. -/
theorem strip_literal (value : List Char) :
    literal.strip (value.flatMap quotedChar ++ ['\'']) = value.flatMap quotedChar ++ ['\''] ∧
      literal.after (value.flatMap quotedChar ++ ['\'']) = code := by
  induction value with
  | nil => exact ⟨rfl, rfl⟩
  | cons c value ih =>
    have hchar : literal.strip (quotedChar c) = quotedChar c ∧
        literal.after (quotedChar c) = literal := by
      unfold quotedChar
      by_cases hc : c = '\''
      · subst hc
        exact ⟨rfl, rfl⟩
      · have hnext : literal.next c = literal := if_neg hc
        rw [if_neg hc, strip, after_cons, hnext]
        exact ⟨rfl, rfl⟩
    rw [List.flatMap_cons, List.append_assoc, strip_append, after_append, hchar.1, hchar.2, ih.1]
    exact ⟨rfl, ih.2⟩

theorem clean_quoteLiteral (value : String) : Clean (quoteLiteral value).toList := by
  have hopen : code.next '\'' = literal := rfl
  obtain ⟨hstrip, hafter⟩ := strip_literal value.toList
  unfold quoteLiteral Clean
  rw [String.toList_ofList, strip, after_cons, hopen, if_neg (by decide), hstrip]
  exact ⟨rfl, hafter⟩

end Region

/-- The text without its comments. -/
def withoutComments (text : String) : String := String.ofList (Region.code.strip text.toList)

example : withoutComments "# it's\nA '#''#' B # C" = "\nA '#''#' B " := by decide +kernel

/-! ## Tokens of a text -/

/-- A text behind which a reader is in a literal only if it was in one before. -/
def Closed (a : List Char) : Prop := ∀ s : Lexer, ¬s.IsInside → ¬(s.run a).IsInside

theorem closed_of_not_mem {a : List Char} (h : '\'' ∉ a) : Closed a := by
  have hstart : ∀ done c, c ≠ '\'' → ¬(Lexer.start done c).IsInside := by
    rintro done c hc ⟨_, _, heq⟩
    unfold Lexer.start at heq
    rw [if_neg hc] at heq
    split_ifs at heq
  induction a with
  | nil => exact fun s hs => hs
  | cons c a ih =>
    intro s hs
    rw [List.mem_cons, not_or] at h
    refine ih h.2 _ ?_
    have hc := Ne.symm h.1
    cases s with
    | between done => exact hstart done c hc
    | word done read =>
      rw [Lexer.step]
      split
      · rintro ⟨_, _, ⟨⟩⟩
      · exact hstart _ c hc
    | literal done read => exact absurd ⟨done, read, rfl⟩ hs
    | quote done read =>
      rw [Lexer.step, if_neg hc]
      exact hstart _ c hc

theorem closed_quoteLiteral (value : String) : Closed (quoteLiteral value).toList := by
  intro s hs
  -- behind the first quote the reader is in a literal, be it a new one or one that goes on
  have hopen : ∃ done read, s.step '\'' = .literal done read := by
    cases s with
    | between done => exact ⟨_, _, rfl⟩
    | word done read => exact ⟨_, _, rfl⟩
    | literal done read => exact absurd ⟨done, read, rfl⟩ hs
    | quote done read => exact ⟨_, _, rfl⟩
  obtain ⟨done, read, hopen⟩ := hopen
  unfold quoteLiteral
  rw [String.toList_ofList, Lexer.run_cons, hopen, Lexer.run_append, Lexer.run_quotedChar]
  rintro ⟨_, _, ⟨⟩⟩

theorem additive_closed : Additive Closed where
  append {a b} ha hb s hs := by
    rw [Lexer.run_append]
    exact hb _ (ha s hs)
  ordinary {a} h := by
    refine closed_of_not_mem fun hmem => ?_
    exact absurd (List.all_eq_true.1 h _ hmem) (by decide)
  indented := closed_of_not_mem (by decide)
  closed := closed_of_not_mem (by decide)

theorem Closed.exists_tokens {text : String} (h : Closed text.toList) :
    ∃ tokens, tokenize text = some tokens := by
  have hout := h (.between []) (by rintro ⟨_, _, ⟨⟩⟩)
  unfold tokenize scan
  cases hs : (Lexer.between []).run text.toList with
  | between done => exact ⟨_, rfl⟩
  | word done read => exact ⟨_, rfl⟩
  | literal done read => exact absurd ⟨done, read, hs⟩ hout
  | quote done read => exact ⟨_, rfl⟩

/-- Empty lines before a text add no token. -/
theorem tokenize_blank_lines (text : String) : tokenize ("\n\n" ++ text) = tokenize text := by
  have hline : Separates ['\n'] [] := .blank rfl
  have hlines := (hline.append hline).scan_append [] text.toList
  unfold tokenize
  rw [String.toList_append]
  exact hlines

/-! ## Comments of tables -/

/-- The characters that names are made of: letters, digits and underscores. Beyond ASCII every
character counts as a letter. -/
def isNameChar (c : Char) : Bool := c.isAlphanum || c = '_' || 128 ≤ c.toNat

theorem isOrdinary_of_isNameChar {c : Char} (h : isNameChar c = true) : isOrdinary c = true := by
  simp only [isOrdinary, Bool.and_eq_true, decide_eq_true_eq]
  refine ⟨⟨?_, ?_⟩, ?_⟩
  all_goals
    rintro rfl
    exact absurd h (by decide)

/-- All names in a table are made of such characters. -/
structure Table.Named (t : Table) : Prop where
  name : t.name.toList.all isNameChar = true
  key : t.key.toList.all isNameChar = true
  columns : ∀ c ∈ t.columns, c.name.toList.all isNameChar = true

namespace Table

/-- What holds of all literals holds of the statement of a table whose names hold no special
character. -/
theorem Named.of_parts {P : List Char → Prop} (hP : Additive P) {t : Table} (h : t.Named)
    (hliteral : ∀ value, P (quoteLiteral value).toList) {switches : Switches}
    (hcomments : switches.comments = false) : P (t.sql switches).toList := by
  have hname : ∀ s : String, s.toList.all isNameChar = true → P s.toList := by
    intro s hs
    refine hP.ordinary (List.all_eq_true.2 fun c hc => ?_)
    exact isOrdinary_of_isNameChar (List.all_eq_true.1 hs c hc)
  refine Table.of_parts hP (hname _ h.name) (hname _ h.key) (fun c hc => ?_) hcomments
  exact c.of_parts hP (hname _ (h.columns c hc)) fun value _ => hliteral value

/-- The line that the comment of a table is on. -/
def title (t : Table) : String :=
  "# Create table \"" ++ t.name ++ "\" for model \"" ++ t.model ++ "\""

theorem comment_eq (t : Table) : t.comment = t.title ++ "\n\n" := by
  unfold comment title
  simp only [String.append_assoc]
  rfl

theorem not_mem_title {t : Table} (hname : '\n' ∉ t.name.toList) (hmodel : '\n' ∉ t.model.toList) :
    '\n' ∉ t.title.toList := by
  unfold title
  simp only [String.toList_append, List.mem_append, not_or]
  exact ⟨⟨⟨⟨by decide, hname⟩, by decide⟩, hmodel⟩, by decide⟩

/-- Of a comment on one line only the line breaks behind it are left. -/
theorem withoutComments_comment_append {t : Table} (htitle : '\n' ∉ t.title.toList)
    {text : String} (htext : Region.Clean text.toList) :
    withoutComments (t.comment ++ text) = "\n\n" ++ text := by
  have hhash : ∃ r, t.title.toList = '#' :: r := by
    unfold title
    simp only [String.toList_append]
    exact ⟨_, rfl⟩
  obtain ⟨r, hr⟩ := hhash
  have hcomment : Region.code.strip t.title.toList = [] ∧
      Region.code.after t.title.toList = .comment := by
    rw [hr] at htitle ⊢
    exact Region.strip_comment fun hmem => htitle (List.mem_cons_of_mem _ hmem)
  unfold withoutComments
  rw [comment_eq, String.append_assoc, String.toList_append, Region.strip_append, hcomment.1,
    hcomment.2, List.nil_append, String.toList_append, Region.strip_append]
  have hbreak : Region.comment.strip "\n\n".toList = "\n\n".toList ∧
      Region.comment.after "\n\n".toList = .code := ⟨rfl, rfl⟩
  rw [hbreak.1, hbreak.2, htext.1, ← String.toList_append, String.ofList_toList]

end Table

theorem ofModel_model {model : Model} {t : Table} (h : Table.ofModel model = .ok t) :
    t.model = model.name := by
  obtain ⟨-, -, h⟩ := bind_eq_ok.1 h
  obtain ⟨-, -, ⟨⟩⟩ := bind_eq_ok.1 h
  rfl

theorem exists_ofModel {model : Model} {switches : Switches} {text : String}
    (h : createTable switches model = .ok text) :
    ∃ t, Table.ofModel model = .ok t ∧ text = t.sql switches := by
  unfold createTable at h
  rw [map_eq_pure_bind, bind_eq_ok] at h
  obtain ⟨t, ht, ⟨⟩⟩ := h
  exact ⟨t, ht, rfl⟩

theorem createTable_of_ofModel {model : Model} {t : Table} (h : Table.ofModel model = .ok t)
    (switches : Switches) : createTable switches model = .ok (t.sql switches) := by
  unfold createTable
  rw [h]
  rfl

/-- Where the name of a model is on one line, the statement without its comments has the tokens of
the statement that is written with comments off, in either layout. -/
theorem tokenize_withoutComments {model : Model} (hmodel : '\n' ∉ model.name.toList)
    (hnames : ∀ name ∈ model.table :: model.idKey :: model.fields.names,
      name.toList.all isNameChar = true)
    (haccepted : ∃ switches text, createTable switches model = .ok text) (switches : Switches) :
    ∃ commented plain tokens,
      createTable { switches with comments := true } model = .ok commented ∧
      createTable { switches with comments := false } model = .ok plain ∧
      tokenize (withoutComments commented) = some tokens ∧ tokenize plain = some tokens := by
  obtain ⟨_, _, haccepted⟩ := haccepted
  obtain ⟨t, ht, -⟩ := exists_ofModel haccepted
  obtain ⟨hname, hkey, hcolumns⟩ := ofModel_eq_ok ht
  simp only [List.forall_mem_cons] at hnames
  have hnamed : t.Named := by
    refine ⟨hname ▸ hnames.1, hkey ▸ hnames.2.1, fun c hc => hnames.2.2 c.name ?_⟩
    unfold NameMap.names
    rw [← map_name_columns hcolumns]
    exact List.mem_map_of_mem hc
  have hclean : Region.Clean (t.sql { switches with comments := false }).toList :=
    hnamed.of_parts Region.additive_clean Region.clean_quoteLiteral rfl
  have hclosed : Closed (t.sql { switches with comments := false }).toList :=
    hnamed.of_parts additive_closed closed_quoteLiteral rfl
  have htitle : '\n' ∉ t.title.toList := by
    refine Table.not_mem_title (fun hmem => ?_) (ofModel_model ht ▸ hmodel)
    exact absurd (List.all_eq_true.1 hnamed.name _ hmem) (by decide)
  obtain ⟨tokens, htokens⟩ := hclosed.exists_tokens
  refine ⟨_, _, tokens, createTable_of_ofModel ht _, createTable_of_ofModel ht _, ?_, htokens⟩
  rw [Table.sql_eq_comment_append, if_pos rfl, Table.withoutComments_comment_append htitle hclean,
    tokenize_blank_lines]
  exact htokens

/-- A model whose name looks like a comment and a literal, with a default that holds comments,
quotes and line breaks. -/
def board : Model :=
  ({ name := "Bob's \"board\" # 1", table := "boards", idKey := "id" } : Model)
    |>.withField "id" { types := .single .integer, min := some .zero }
    |>.withField "motto" {
        types := .single .string
        defaultValue := some (.ofJson (.string "# it's\n'#' \\")) }

theorem tokenize_withoutComments_board : '\n' ∉ board.name.toList ∧
    ∃ commented plain tokens,
      createTable { comments := true, oneLine := false } board = .ok commented ∧
      createTable { comments := false, oneLine := false } board = .ok plain ∧
      tokenize (withoutComments commented) = some tokens ∧ tokenize plain = some tokens := by
  have haccepted : createTable {} board = .ok
      ("CREATE TABLE boards (\n\tid INT(10) UNSIGNED NOT NULL AUTO_INCREMENT,\n\t" ++
        "motto TEXT NOT NULL DEFAULT '# it''s\n''#'' \\',\n\tPRIMARY KEY (id)\n);") := by
    decide +kernel
  have hmodel : '\n' ∉ board.name.toList := by decide
  exact ⟨hmodel, tokenize_withoutComments hmodel (by decide) ⟨_, _, haccepted⟩ {}⟩

/-- A model whose name has a statement on its second line. -/
def torn : Model :=
  ({ name := "User\nDROP TABLE t; #", table := "t" } : Model)
    |>.withField "id" { types := .single .integer }

/-- A line break in the name of a model ends the comment, and the rest of the name is read as a
part of the statement. -/
theorem tokens_of_torn_comment :
    (∀ name ∈ torn.table :: torn.idKey :: torn.fields.names, name.toList.all isNameChar = true) ∧
    ∃ commented plain tokens,
      createTable { comments := true, oneLine := true } torn = .ok commented ∧
      createTable { comments := false, oneLine := true } torn = .ok plain ∧
      tokenize plain = some tokens ∧
      tokenize (withoutComments commented) =
        some ([.word "DROP", .word "TABLE", .word "t", .mark ';'] ++ tokens) := by
  have hcommented : createTable { comments := true, oneLine := true } torn = .ok
      ("# Create table \"t\" for model \"User\nDROP TABLE t; #\"\n\n" ++
        "CREATE TABLE t (id INT(11) NOT NULL AUTO_INCREMENT, PRIMARY KEY (id));") := by
    decide +kernel
  have hplain : createTable { comments := false, oneLine := true } torn = .ok
      "CREATE TABLE t (id INT(11) NOT NULL AUTO_INCREMENT, PRIMARY KEY (id));" := by
    decide +kernel
  exact ⟨by decide, _, _, _, hcommented, hplain, rfl, by decide +kernel⟩

end OrmDdl.Mysql
