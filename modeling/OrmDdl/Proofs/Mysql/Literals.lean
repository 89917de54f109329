import Mathlib.Control.Monad.Basic
import OrmDdl.Proofs.Mysql.TableParts
/-!
# Literals as a server reads them

By default a server takes a backslash in a literal as an escape of the character behind it, while
`quoteLiteral` writes none. `readLiteral_default`: the default of a column is read as the text it was
written for exactly if every backslash of that text stands before a wildcard of patterns, where a
backslash is kept. Any other is lost, and one before a quote moves the end of the literal.
-/

namespace OrmDdl.Mysql

/-! ## Reading a literal -/

/-- What a letter behind a backslash stands for, if not for itself. -/
def escapeLetters : List (Char × Char) :=
  [('0', '\x00'), ('b', '\x08'), ('n', '\n'), ('r', '\r'), ('t', '\t'), ('Z', '\x1a')]

/-- A wildcard of patterns. -/
def IsWildcard (c : Char) : Prop := c = '%' ∨ c = '_'

instance : DecidablePred IsWildcard := fun _ => inferInstanceAs (Decidable (_ ∨ _))

/-- What a backslash and the character behind it stand for. Before a wildcard the backslash
stays. -/
def unescape (c : Char) : List Char :=
  if IsWildcard c then ['\\', c] else [(escapeLetters.lookup c).getD c]

/-- The value of a literal behind its opening quote, and the text behind the literal. -/
def readQuoted : List Char → Option (List Char × List Char)
  | [] => none
  | '\\' :: c :: r => (readQuoted r).map fun (value, rest) => (unescape c ++ value, rest)
  | '\'' :: '\'' :: r => (readQuoted r).map fun (value, rest) => ('\'' :: value, rest)
  | '\'' :: r => some ([], r)
  | c :: r => (readQuoted r).map fun (value, rest) => (c :: value, rest)

/-- The value of the literal at the front of a text, and what is behind it. -/
def readLiteral : List Char → Option (List Char × List Char)
  | '\'' :: r => readQuoted r
  | _ => none

theorem map_value_eq_some {x : Option (List Char × List Char)} {f : List Char → List Char}
    {value rest : List Char} : (x.map fun (value, rest) => (f value, rest)) = some (value, rest) ↔
      ∃ v, x = some (v, rest) ∧ value = f v := by
  cases x with
  | none => simp
  | some p => simp [Prod.ext_iff, eq_comm, and_comm]

theorem readQuoted_escape (c : Char) (r : List Char) : readQuoted ('\\' :: c :: r) =
    (readQuoted r).map fun (value, rest) => (unescape c ++ value, rest) := rfl

theorem readQuoted_quotes (r : List Char) : readQuoted ('\'' :: '\'' :: r) =
    (readQuoted r).map fun (value, rest) => ('\'' :: value, rest) := rfl

theorem readQuoted_end {r : List Char} (h : r.head? ≠ some '\'') :
    readQuoted ('\'' :: r) = some ([], r) := by
  rw [readQuoted]
  rintro r' rfl
  exact h rfl

theorem readQuoted_plain {c : Char} (hescape : c ≠ '\\') (hquote : c ≠ '\'') (r : List Char) :
    readQuoted (c :: r) = (readQuoted r).map fun (value, rest) => (c :: value, rest) := by
  rw [readQuoted] <;> simp [hescape, hquote]

theorem length_unescape (c : Char) : (unescape c).length = if IsWildcard c then 2 else 1 := by
  unfold unescape
  split <;> rfl

/-- A literal takes something of the text. -/
theorem length_rest_lt {s value rest : List Char} (h : readQuoted s = some (value, rest)) :
    rest.length < s.length := by
  induction s using readQuoted.induct generalizing value with
  | case1 => cases h
  | case2 c r ih =>
    obtain ⟨v, hv, -⟩ := map_value_eq_some.1 h
    have hlt := ih hv
    simp only [List.length_cons]
    omega
  | case3 r ih =>
    obtain ⟨v, hv, -⟩ := map_value_eq_some.1 h
    have hlt := ih hv
    simp only [List.length_cons]
    omega
  | case4 r hend =>
    rw [readQuoted.eq_4 r hend] at h
    cases h
    exact Nat.lt_succ_self _
  | case5 c r hescape hquotes hquote ih =>
    rw [readQuoted.eq_5 c r hescape hquotes hquote] at h
    obtain ⟨v, hv, -⟩ := map_value_eq_some.1 h
    exact Nat.lt_succ_of_lt (ih hv)

/-! ## Literals as they are written -/

/-- Every backslash of the text stands before a wildcard. -/
def KeepsBackslashes (text : List Char) : Prop :=
  ∀ r, '\\' :: r <:+ text → ∃ c ∈ r.head?, IsWildcard c

theorem keepsBackslashes_nil : KeepsBackslashes [] := by
  intro r hr
  simp at hr

theorem keepsBackslashes_cons {c : Char} {text : List Char} : KeepsBackslashes (c :: text) ↔
    (c = '\\' → ∃ d ∈ text.head?, IsWildcard d) ∧ KeepsBackslashes text := by
  constructor
  · intro h
    refine ⟨?_, fun r hr => h r (List.suffix_cons_iff.2 (.inr hr))⟩
    rintro rfl
    exact h text (List.suffix_refl _)
  · rintro ⟨hc, htext⟩ r hr
    obtain ⟨rfl, rfl⟩ | hr := (List.suffix_cons_iff.1 hr).imp_left List.cons.inj
    · exact hc rfl
    · exact htext r hr

instance decidableKeepsBackslashes : DecidablePred KeepsBackslashes
  | [] => isTrue keepsBackslashes_nil
  | _ :: text =>
    have := decidableKeepsBackslashes text
    -- not by trying every character there is
    have : Decidable (∃ d ∈ text.head?, IsWildcard d) := Option.decidableExistsMem _
    decidable_of_iff _ keepsBackslashes_cons.symm

/-- A text as it stands in a literal, up to the closing quote, and what is behind it. -/
def written (text rest : List Char) : List Char := text.flatMap quotedChar ++ '\'' :: rest

theorem written_nil (rest : List Char) : written [] rest = '\'' :: rest := rfl

theorem written_quote (text rest : List Char) :
    written ('\'' :: text) rest = '\'' :: '\'' :: written text rest := rfl

theorem written_cons {c : Char} (h : c ≠ '\'') (text rest : List Char) :
    written (c :: text) rest = c :: written text rest := by
  unfold written quotedChar
  rw [List.flatMap_cons, if_neg h]
  rfl

theorem length_written (text rest : List Char) : rest.length < (written text rest).length := by
  unfold written
  rw [List.length_append, List.length_cons]
  omega

theorem toList_quoteLiteral_append (value : String) (rest : List Char) :
    (quoteLiteral value).toList ++ rest = '\'' :: written value.toList rest := by
  simp [quoteLiteral, written]

/-- A quote too many before a text moves the end of the literal: it comes earlier, at a quote of the
text, or later. -/
theorem readQuoted_quote_written {text rest value rest' : List Char}
    (h : readQuoted ('\'' :: written text rest) = some (value, rest')) :
    rest'.length ≠ rest.length := by
  induction text generalizing value with
  | nil =>
    rw [written_nil, readQuoted_quotes, map_value_eq_some] at h
    obtain ⟨v, hv, -⟩ := h
    exact Nat.ne_of_lt (length_rest_lt hv)
  | cons c text ih =>
    by_cases hc : c = '\''
    · subst hc
      rw [written_quote, readQuoted_quotes, map_value_eq_some] at h
      obtain ⟨v, hv, -⟩ := h
      exact ih hv
    · rw [written_cons hc, readQuoted_end (by simpa using hc)] at h
      cases h
      have hlt := length_written text rest
      simp only [List.length_cons]
      omega

/-- A backslash takes the character behind it along. That is no quote, for of a quote in the text only
one would be left. -/
theorem readQuoted_backslash {text rest value : List Char}
    (h : readQuoted (written ('\\' :: text) rest) = some (value, rest)) :
    ∃ c text' v, text = c :: text' ∧ value = unescape c ++ v ∧
      readQuoted (written text' rest) = some (v, rest) := by
  rw [written_cons (by decide)] at h
  cases text with
  | nil =>
    rw [written_nil, readQuoted_escape, map_value_eq_some] at h
    obtain ⟨v, hv, -⟩ := h
    exact absurd (length_rest_lt hv) (Nat.lt_irrefl _)
  | cons c text =>
    by_cases hc : c = '\''
    · subst hc
      rw [written_quote, readQuoted_escape, map_value_eq_some] at h
      obtain ⟨v, hv, -⟩ := h
      exact absurd rfl (readQuoted_quote_written hv)
    · rw [written_cons hc, readQuoted_escape, map_value_eq_some] at h
      obtain ⟨v, hv, rfl⟩ := h
      exact ⟨c, text, v, rfl, rfl, hv⟩

/-- A character that is no backslash is read as itself. -/
theorem readQuoted_written_cons {c : Char} (hc : c ≠ '\\') (text rest : List Char) :
    readQuoted (written (c :: text) rest) =
      (readQuoted (written text rest)).map fun (value, rest) => (c :: value, rest) := by
  by_cases hquote : c = '\''
  · subst hquote
    rw [written_quote, readQuoted_quotes]
  · rw [written_cons hquote, readQuoted_plain hc hquote]

section

variable {rest : List Char} (hrest : rest.head? ≠ some '\'')

include hrest

theorem readQuoted_written_nil : readQuoted (written [] rest) = some ([], rest) :=
  readQuoted_end hrest

/-- No text is read as a longer one. -/
theorem length_value_le : ∀ text value : List Char,
    readQuoted (written text rest) = some (value, rest) → value.length ≤ text.length
  | [], value, h => by
    rw [readQuoted_written_nil hrest] at h
    cases h
    exact Nat.le_refl 0
  | c :: text, value, h => by
    by_cases hc : c = '\\'
    · subst hc
      obtain ⟨d, text, v, rfl, rfl, hv⟩ := readQuoted_backslash h
      have hle := length_value_le text v hv
      have hd : (unescape d).length ≤ 2 := by
        rw [length_unescape]
        split <;> omega
      simp only [List.length_append, List.length_cons]
      omega
    · rw [readQuoted_written_cons hc, map_value_eq_some] at h
      obtain ⟨v, hv, rfl⟩ := h
      exact Nat.succ_le_succ (length_value_le text v hv)
termination_by text => text.length

/-- A written literal is read as its text if every backslash of the text stands before a wildcard,
and not otherwise. -/
theorem readQuoted_written_iff (text : List Char) :
    readQuoted (written text rest) = some (text, rest) ↔ KeepsBackslashes text := by
  induction text with
  | nil => exact iff_of_true (readQuoted_written_nil hrest) keepsBackslashes_nil
  | cons c text ih =>
    have hplain : ∀ {c text}, c ≠ '\\' → (readQuoted (written (c :: text) rest) =
        some (c :: text, rest) ↔ readQuoted (written text rest) = some (text, rest)) := by
      intro c text hc
      rw [readQuoted_written_cons hc, map_value_eq_some]
      simp
    rw [keepsBackslashes_cons, ← ih]
    by_cases hc : c = '\\'
    · subst hc
      constructor
      · intro h
        obtain ⟨d, text, v, rfl, hvalue, hv⟩ := readQuoted_backslash h
        have hlength := congrArg List.length hvalue
        have hle := length_value_le hrest text v hv
        simp only [List.length_append, List.length_cons, length_unescape] at hlength
        -- any other escape is one character, and what follows is too short to make up for it
        have hd : IsWildcard d := by
          by_contra hd
          rw [if_neg hd] at hlength
          omega
        have hne : d ≠ '\\' := by rcases hd with rfl | rfl <;> decide
        rw [unescape, if_pos hd] at hvalue
        simp only [List.cons_append, List.nil_append, List.cons.injEq, true_and] at hvalue
        subst hvalue
        exact ⟨fun _ => ⟨d, rfl, hd⟩, (hplain hne).2 hv⟩
      · rintro ⟨hhead, h⟩
        obtain ⟨d, hd, hwild⟩ := hhead rfl
        obtain ⟨text, rfl⟩ := List.head?_eq_some_iff.1 hd
        have hne : d ≠ '\\' := by rcases hwild with rfl | rfl <;> decide
        have hquote : d ≠ '\'' := by rcases hwild with rfl | rfl <;> decide
        rw [written_cons (by decide), written_cons hquote, readQuoted_escape, (hplain hne).1 h,
          unescape, if_pos hwild]
        rfl
    · simp [hplain hc, hc]

theorem readLiteral_quoteLiteral_iff (value : String) :
    readLiteral ((quoteLiteral value).toList ++ rest) = some (value.toList, rest) ↔
      KeepsBackslashes value.toList := by
  rw [toList_quoteLiteral_append]
  exact readQuoted_written_iff hrest value.toList

end

/-! ## Defaults of columns -/

theorem defaultClause_of_ofField {model : Model} {name : String} {rule : FieldRule} {c : Column}
    {l : Literal} (hc : Column.ofField model name rule = .ok c) (hboolean : c.type ≠ .boolean)
    (hdefault : rule.defaultValue = some l) (hnull : l.value ≠ .null) :
    c.defaultClause = some (.text (literalText l.value)) := by
  obtain ⟨htype, hclause, -⟩ := ofField_eq_ok hc
  have hother : .boolean ∉ rule.types := by
    rw [← ofRule?_eq_boolean, htype, Option.some_inj]
    exact hboolean
  have hdescribes := describesDefault_of_defaultOf htype hclause
  generalize c.defaultClause = d at hdescribes ⊢
  cases hdescribes with
  | absent absent _ => exact nomatch absent.symm.trans hdefault
  | implied absent _ => exact nomatch absent.symm.trans hdefault
  | flag _ boolean => exact absurd boolean hother
  | null given _ isNull _ =>
    cases hdefault.symm.trans given
    exact absurd isNull hnull
  | text given _ _ =>
    cases hdefault.symm.trans given
    rfl

/-- A default that is not `null`, of a column that is not boolean, is one literal in the definition
of its column. With any text behind it, it is closed and read as the text of the default if every
backslash of that text stands before a wildcard, and not otherwise. -/
theorem readLiteral_default {model : Model} {name : String} {rule : FieldRule} {c : Column}
    {l : Literal} (hc : Column.ofField model name rule = .ok c) (hboolean : c.type ≠ .boolean)
    (hdefault : rule.defaultValue = some l) (hnull : l.value ≠ .null) :
    c.sql = name ++ " " ++ c.type.sql ++ (if c.notNull then " NOT NULL" else "") ++
        " DEFAULT " ++ quoteLiteral (literalText l.value) ++
        (if c.autoIncrement then " AUTO_INCREMENT" else "") ∧
      ∀ rest : List Char, rest.head? ≠ some '\'' →
        (readLiteral ((quoteLiteral (literalText l.value)).toList ++ rest) =
            some ((literalText l.value).toList, rest) ↔
          KeepsBackslashes (literalText l.value).toList) := by
  refine ⟨?_, fun rest hrest => readLiteral_quoteLiteral_iff hrest _⟩
  obtain ⟨-, -, hname, -⟩ := ofField_eq_ok hc
  have hclause : " " ++ (DefaultClause.text (literalText l.value)).sql =
      " DEFAULT " ++ quoteLiteral (literalText l.value) := by
    unfold DefaultClause.sql
    rw [← String.append_assoc]
    rfl
  rw [c.sql_eq, defaultClause_of_ofField hc hboolean hdefault hnull, hname, Option.elim_some,
    hclause]
  simp only [String.append_assoc]

/-- A default with quotes, and with backslashes before wildcards. -/
def pattern : FieldRule where
  types := .single .string
  defaultValue := some (.ofJson (.string "it's '50\\%' or \\_x"))

theorem readLiteral_default_pattern : ∃ c l,
    Column.ofField { name := "Rate", table := "rates" } "label" pattern = .ok c ∧
      c.type ≠ .boolean ∧ pattern.defaultValue = some l ∧ l.value ≠ .null ∧
      c.sql = "label TEXT NOT NULL DEFAULT 'it''s ''50\\%'' or \\_x'" ∧
      readLiteral ((quoteLiteral (literalText l.value)).toList ++ []) =
        some ("it's '50\\%' or \\_x".toList, []) := by
  have hc : Column.ofField { name := "Rate", table := "rates" } "label" pattern = .ok
      ⟨"label", .text, true, some (.text "it's '50\\%' or \\_x"), false⟩ := by decide +kernel
  have hboolean : ColumnType.text ≠ .boolean := by decide
  have hnull : (Literal.ofJson (.string "it's '50\\%' or \\_x")).value ≠ .null := nofun
  obtain ⟨hsql, hread⟩ := readLiteral_default hc hboolean rfl hnull
  have hkeeps : KeepsBackslashes "it's '50\\%' or \\_x".toList := by decide
  exact ⟨_, _, hc, hboolean, rfl, hnull, hsql, (hread [] nofun).2 hkeeps⟩

/-- A default that ends in a backslash. -/
def folder : FieldRule where
  types := .single .string
  defaultValue := some (.ofJson (.string "C:\\"))

/-- The backslash takes the closing quote along, and the literal is not closed. -/
theorem readLiteral_folder : ∃ c l,
    Column.ofField { name := "Rate", table := "rates" } "home" folder = .ok c ∧
      c.type ≠ .boolean ∧ folder.defaultValue = some l ∧ l.value ≠ .null ∧
      c.sql = "home TEXT NOT NULL DEFAULT 'C:\\'" ∧
      readLiteral (quoteLiteral (literalText l.value)).toList = none := by
  have hc : Column.ofField { name := "Rate", table := "rates" } "home" folder = .ok
      ⟨"home", .text, true, some (.text "C:\\"), false⟩ := by decide +kernel
  exact ⟨_, _, hc, by decide, rfl, nofun, by decide +kernel, by decide +kernel⟩

end OrmDdl.Mysql
