import OrmDdl.Proofs.Mysql.Tokens
/-!
# Reading a table statement

`TableText.read` reads what a statement says about a table: its name, its columns and its key. It
splits what stands between the outer parentheses at the commas in no other parentheses; the last
item is the key, and every other one is a column.
-/

namespace OrmDdl.Mysql

/-! ## Items -/

/-- The depth of parentheses after a token. -/
def depthAfter (depth : Nat) : Token → Nat
  | .mark '(' => depth + 1
  | .mark ')' => depth - 1
  | _ => depth

/-- The items between the commas that are in no parentheses. -/
def splitAtCommas : Nat → List Token → List (List Token)
  | _, [] => [[]]
  | depth, t :: r =>
    if depth = 0 ∧ t = .mark ',' then [] :: splitAtCommas depth r
    else (splitAtCommas (depthAfter depth t) r).modifyHead (t :: ·)

/-- Tokens that stay together in one item. -/
def Whole (tokens : List Token) : Prop :=
  ∀ depth r, splitAtCommas depth (tokens ++ r) = (splitAtCommas depth r).modifyHead (tokens ++ ·)

theorem Whole.nil : Whole [] := by
  intro depth r
  rw [List.nil_append]
  cases splitAtCommas depth r <;> rfl

theorem Whole.append {s t : List Token} (hs : Whole s) (ht : Whole t) : Whole (s ++ t) := by
  intro depth r
  rw [List.append_assoc, hs, ht, List.modifyHead_modifyHead]
  simp only [Function.comp_def, List.append_assoc]

theorem Whole.of_no_marks {tokens : List Token} (h : ∀ c, .mark c ∉ tokens) : Whole tokens := by
  induction tokens with
  | nil => exact .nil
  | cons t tokens ih =>
    have hrest := ih fun c hc => h c (List.mem_cons_of_mem _ hc)
    have hcomma : t ≠ .mark ',' := fun ht => h ',' (ht ▸ List.mem_cons_self)
    intro depth r
    have hdepth : depthAfter depth t = depth := by
      cases t with
      | word w => rfl
      | literal s => rfl
      | mark c => exact absurd List.mem_cons_self (h c)
    rw [List.cons_append, splitAtCommas, if_neg (fun h => hcomma h.2), hdepth, hrest,
      List.modifyHead_modifyHead]
    simp only [Function.comp_def, List.cons_append]

theorem Whole.parenthesized {tokens : List Token} (h : Whole tokens) :
    Whole (.mark '(' :: (tokens ++ [.mark ')'])) := by
  intro depth r
  have hopen : depthAfter depth (.mark '(') = depth + 1 := rfl
  have hclose : depthAfter (depth + 1) (.mark ')') = depth := rfl
  rw [List.cons_append, splitAtCommas, if_neg (by simp), hopen, List.append_assoc, h,
    List.singleton_append, splitAtCommas, if_neg (by simp), hclose, List.modifyHead_modifyHead,
    List.modifyHead_modifyHead]
  simp [Function.comp_def]

theorem splitAtCommas_intercalate {items : List (List Token)} (hne : items ≠ [])
    (h : ∀ tokens ∈ items, Whole tokens) :
    splitAtCommas 0 ([.mark ','].intercalate items) = items := by
  induction items with
  | nil => exact absurd rfl hne
  | cons tokens items ih =>
    rw [List.forall_mem_cons] at h
    cases items with
    | nil =>
      have hsplit := h.1 0 []
      rw [List.append_nil] at hsplit
      rw [List.intercalate_singleton, hsplit, splitAtCommas, List.modifyHead, List.append_nil]
    | cons next items =>
      rw [List.intercalate_cons_cons, List.append_assoc, h.1, List.singleton_append, splitAtCommas,
        if_pos ⟨rfl, rfl⟩, ih (by simp) h.2, List.modifyHead, List.append_nil]

/-! ## Columns -/

/-- The type of a column: a word, or a word with a size, and perhaps without a sign. -/
inductive TypeText where
  | word (name : String)
  | sized (name size : String) (unsigned : Bool)

namespace TypeText

def text : TypeText → String
  | word name => name
  | sized name size unsigned => name ++ "(" ++ size ++ ")" ++ (if unsigned then " UNSIGNED" else "")

def tokens : TypeText → List Token
  | word name => [.word name]
  | sized name size unsigned =>
    [.word name, .mark '(', .word size, .mark ')'] ++ (if unsigned then [.word "UNSIGNED"] else [])

end TypeText

/-- What a statement says about a column. -/
structure ColumnText where
  name : String
  type : String
  notNull : Bool
  defaultClause : Option DefaultClause
  autoIncrement : Bool
deriving DecidableEq

/-- Whether these words come next, and what comes after them. -/
def readWords (words : List String) (tokens : List Token) : Bool × List Token :=
  if words.map .word <+: tokens then (true, tokens.drop words.length) else (false, tokens)

def readType : List Token → Option (TypeText × List Token)
  | .word name :: .mark '(' :: .word size :: .mark ')' :: r =>
    let (unsigned, r) := readWords ["UNSIGNED"] r
    some (.sized name size unsigned, r)
  | .word name :: r => some (.word name, r)
  | _ => none

def readDefault : List Token → Option (Option DefaultClause × List Token)
  | .word "DEFAULT" :: .word "NULL" :: r => some (some .null, r)
  | .word "DEFAULT" :: .word "0" :: r => some (some (.flag false), r)
  | .word "DEFAULT" :: .word "1" :: r => some (some (.flag true), r)
  | .word "DEFAULT" :: .literal value :: r => some (some (.text value), r)
  | .word "DEFAULT" :: _ => none
  | r => some (none, r)

/-- What follows the type of a column. -/
def readClauses (name : String) (type : TypeText) (tokens : List Token) : Option ColumnText := do
  let (notNull, r) := readWords ["NOT", "NULL"] tokens
  let (defaultClause, r) ← readDefault r
  let (autoIncrement, r) := readWords ["AUTO_INCREMENT"] r
  if r = [] then some { name, type := type.text, notNull, defaultClause, autoIncrement } else none

def readColumn : List Token → Option ColumnText
  | .word name :: r => do
    let (type, r) ← readType r
    readClauses name type r
  | _ => none

theorem TypeText.whole (type : TypeText) : Whole type.tokens := by
  cases type with
  | word name => exact .of_no_marks (by simp [tokens])
  | sized name size unsigned =>
    have hname : Whole [.word name] := .of_no_marks (by simp)
    have hsize : Whole [.word size] := .of_no_marks (by simp)
    have hsign : Whole (if unsigned then [.word "UNSIGNED"] else []) := by
      cases unsigned <;> exact .of_no_marks (by simp)
    exact (hname.append hsize.parenthesized).append hsign

/-- A type is read in full, if another word or nothing comes after it. -/
theorem readType_append (type : TypeText) {r : List Token}
    (h : ∀ t ∈ r.head?, ∃ w, t = .word w ∧ w ≠ "UNSIGNED") :
    readType (type.tokens ++ r) = some (type, r) := by
  cases type with
  | word name =>
    obtain _ | ⟨t, r⟩ := r
    · rfl
    · obtain ⟨w, rfl, -⟩ := h t rfl
      rfl
  | sized name size unsigned =>
    cases unsigned with
    | true => rfl
    | false =>
      obtain _ | ⟨t, r⟩ := r
      · rfl
      · obtain ⟨w, rfl, hw⟩ := h t rfl
        have hwords : readWords ["UNSIGNED"] (.word w :: r) = (false, .word w :: r) := by
          simp [readWords, List.cons_prefix_cons, hw.symm]
        exact congrArg (fun p => some (TypeText.sized name size p.1, p.2)) hwords

/-! ## Tables -/

/-- What a statement says about a table. -/
structure TableText where
  name : String
  columns : List ColumnText
  key : String
deriving DecidableEq

def readKey : List Token → Option String
  | [.word "PRIMARY", .word "KEY", .mark '(', .word key, .mark ')'] => some key
  | _ => none

namespace TableText

/-- The table of a name and of the items between the parentheses. -/
def ofItems (name : String) (items : List (List Token)) : Option TableText := do
  let last ← items.getLast?
  let key ← readKey last
  let columns ← items.dropLast.mapM readColumn
  return { name, columns, key }

def ofTokens : List Token → Option TableText
  | .word "CREATE" :: .word "TABLE" :: .word name :: .mark '(' :: r =>
    match r.reverse with
    | .mark ';' :: .mark ')' :: body => ofItems name (splitAtCommas 0 body.reverse)
    | _ => none
  | _ => none

theorem ofTokens_eq (name : String) {items : List (List Token)} (hne : items ≠ [])
    (h : ∀ tokens ∈ items, Whole tokens) :
    ofTokens ([.word "CREATE", .word "TABLE", .word name, .mark '('] ++
      ([.mark ','].intercalate items ++ [.mark ')', .mark ';'])) = ofItems name items := by
  simp only [List.cons_append, List.nil_append]
  rw [ofTokens, List.reverse_append]
  show ofItems name (splitAtCommas 0 ([Token.mark ','].intercalate items).reverse.reverse) = _
  rw [List.reverse_reverse, splitAtCommas_intercalate hne h]

/-- The last item is the key, the others are the columns. -/
theorem ofItems_eq {α : Type} {name key : String} {last : List Token} {l : List α}
    {tokens : α → List Token} {column : α → ColumnText} (hkey : readKey last = some key)
    (h : ∀ a, readColumn (tokens a) = some (column a)) :
    ofItems name (l.map tokens ++ [last]) = some { name, columns := l.map column, key } := by
  have hcolumns : (l.map tokens).mapM readColumn = some (l.map column) := by
    have heach : readColumn ∘ tokens = fun a => pure (column a) := funext h
    rw [List.mapM_map, heach, List.mapM_pure]
    rfl
  unfold ofItems
  rw [List.getLast?_concat, List.dropLast_concat, hcolumns]
  show (readKey last).bind _ = _
  rw [hkey]
  rfl

/-- What a statement says. -/
def read (text : String) : Option TableText := (tokenize text).bind ofTokens

example : read "CREATE  TABLE t(a CHAR(2) DEFAULT 'x'',\\);',\nPRIMARY KEY ( a ) ) ;" =
    some ⟨"t", [⟨"a", "CHAR(2)", false, some (.text "x',\\);"), false⟩], "a"⟩ := by decide +kernel

end TableText

end OrmDdl.Mysql
