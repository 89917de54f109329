import Mathlib.Data.List.Forall2
import OrmDdl.Mysql.Column
/-!
# Statements as tokens

A reader of statements tells words, quoted literals and marks apart (`tokenize`). A text that is
read into tokens on its own is read into the same tokens wherever it stands (`Scans`), provided that
neither a word nor a literal goes on after it.
-/

namespace OrmDdl.Mysql

/-! ## The reader -/

/-- A part of a statement: a word, a quoted literal by its value, or a mark. -/
inductive Token where
  | word (text : String)
  | literal (text : String)
  | mark (c : Char)
deriving DecidableEq

/-- The characters that are tokens of their own. -/
def isMark (c : Char) : Bool := c = '(' || c = ')' || c = ',' || c = ';'

/-- The characters that words are made of. -/
def isPlain (c : Char) : Bool := !isMark c && !c.isWhitespace && c ≠ '\''

/-- Where a reader stands, and the tokens before. -/
inductive Lexer where
  | between (done : List Token)
  | word (done : List Token) (read : List Char)
  | literal (done : List Token) (read : List Char)
  /-- After a quote in a literal, which ends there unless another quote follows. -/
  | quote (done : List Token) (read : List Char)

namespace Lexer

/-- The reader after a character that does not belong to a token before it. -/
def start (done : List Token) (c : Char) : Lexer :=
  if c = '\'' then literal done []
  else if isMark c then between (done ++ [.mark c])
  else if c.isWhitespace then between done
  else word done [c]

/-- The reader after one more character. -/
def step : Lexer → Char → Lexer
  | between done, c => start done c
  | word done read, c =>
    if isPlain c then word done (read ++ [c]) else start (done ++ [.word (String.ofList read)]) c
  | literal done read, c => if c = '\'' then quote done read else literal done (read ++ [c])
  | quote done read, c =>
    if c = '\'' then literal done (read ++ [c])
    else start (done ++ [.literal (String.ofList read)]) c

/-- All tokens, if the text may end here. -/
def finish : Lexer → Option (List Token)
  | between done => some done
  | word done read => some (done ++ [.word (String.ofList read)])
  | literal _ _ => none
  | quote done read => some (done ++ [.literal (String.ofList read)])

/-- The reader after a text. -/
def run (s : Lexer) (text : List Char) : Lexer := text.foldl step s

/-- Whether the reader is in a literal. -/
def IsInside (s : Lexer) : Prop := ∃ done read, s = literal done read

end Lexer

/-- The tokens of a text, after others. -/
def scan (done : List Token) (text : List Char) : Option (List Token) :=
  ((Lexer.between done).run text).finish

/-- The tokens of a text. There are none if a literal is open at its end. -/
def tokenize (text : String) : Option (List Token) := scan [] text.toList

namespace Lexer

theorem run_append (s : Lexer) (a b : List Char) : s.run (a ++ b) = (s.run a).run b :=
  List.foldl_append

theorem run_cons (s : Lexer) (c : Char) (r : List Char) : s.run (c :: r) = (s.step c).run r := rfl

/-! ## Parts of texts -/

/-- The rest of a text with which neither a word nor a literal goes on. -/
def Stops (r : List Char) : Prop := ∀ c ∈ r.head?, isMark c ∨ c.isWhitespace

theorem Stops.not_plain {c : Char} {r : List Char} (h : Stops r) (hc : c ∈ r.head?) :
    isPlain c = false := by
  unfold isPlain
  obtain h | h := h c hc <;> simp [h]

theorem Stops.not_quote {c : Char} {r : List Char} (h : Stops r) (hc : c ∈ r.head?) :
    c ≠ '\'' := by
  rintro rfl
  exact absurd (h _ hc) (by decide)

/-- Where the text may end and the next character does not go on with the last token, the reader is
as good as between tokens. -/
theorem finish_run_eq_scan {s : Lexer} {done : List Token} {r : List Char}
    (hfinish : s.finish = some done) (hstep : ∀ c ∈ r.head?, s.step c = start done c) :
    (s.run r).finish = scan done r := by
  cases r with
  | nil => exact hfinish
  | cons c r =>
    unfold scan
    rw [run_cons, run_cons, hstep c rfl]
    rfl

theorem finish_run_word {done : List Token} {read r : List Char} (h : Stops r) :
    ((word done read).run r).finish = scan (done ++ [.word (String.ofList read)]) r := by
  refine finish_run_eq_scan rfl fun c hc => ?_
  rw [step, h.not_plain hc, if_neg Bool.false_ne_true]

theorem finish_run_quote {done : List Token} {read r : List Char} (h : Stops r) :
    ((quote done read).run r).finish = scan (done ++ [.literal (String.ofList read)]) r := by
  refine finish_run_eq_scan rfl fun c hc => ?_
  rw [step, if_neg (h.not_quote hc)]

theorem run_plain {done : List Token} {w : List Char} (h : ∀ c ∈ w, isPlain c = true) :
    ∀ read, (word done read).run w = word done (read ++ w) := by
  induction w with
  | nil => intro read; rw [List.append_nil]; rfl
  | cons c w ih =>
    intro read
    rw [List.forall_mem_cons] at h
    rw [run_cons, step, h.1, if_pos rfl, ih h.2, List.append_assoc]
    rfl

theorem run_quotedChar {done : List Token} (s : List Char) :
    ∀ read, (literal done read).run (s.flatMap quotedChar) = literal done (read ++ s) := by
  induction s with
  | nil => intro read; rw [List.append_nil]; rfl
  | cons c s ih =>
    intro read
    have hchar : (literal done read).run (quotedChar c) = literal done (read ++ [c]) := by
      unfold quotedChar
      by_cases hc : c = '\''
      · subst hc
        rfl
      · rw [if_neg hc, run_cons, step, if_neg hc]
        rfl
    rw [List.flatMap_cons, run_append, hchar, ih, List.append_assoc]
    rfl

end Lexer

open Lexer

/-- A text that is read into these tokens, whatever is before it, if what is after it stops it. -/
def Scans (text : List Char) (tokens : List Token) : Prop :=
  ∀ done r, Stops r → scan done (text ++ r) = scan (done ++ tokens) r

theorem Scans.tokenize {text : String} {tokens : List Token} (h : Scans text.toList tokens) :
    tokenize text = some tokens := by
  have hscan := h [] [] (by rintro c ⟨⟩)
  rw [List.append_nil] at hscan
  exact hscan

theorem Scans.nil : Scans [] [] := by
  intro done r _
  rw [List.append_nil]
  rfl

/-- A text that is read into these tokens whatever stands around it. -/
structure Separates (text : List Char) (tokens : List Token) : Prop where
  stops : ∀ r, Stops (text ++ r)
  scan_append : ∀ done r, scan done (text ++ r) = scan (done ++ tokens) r

theorem Separates.of_step {c : Char} {tokens : List Token} (hstop : isMark c ∨ c.isWhitespace)
    (hstep : ∀ done, (between done).step c = between (done ++ tokens)) : Separates [c] tokens := by
  constructor
  · rintro r d ⟨⟩
    exact hstop
  · intro done r
    unfold scan
    rw [List.singleton_append, run_cons, hstep]

theorem Separates.mark {c : Char} (h : isMark c = true) : Separates [c] [.mark c] := by
  have hne : c ≠ '\'' := by
    rintro rfl
    exact absurd h (by decide)
  refine .of_step (.inl h) fun done => ?_
  rw [step, start, if_neg hne, if_pos h]

theorem Separates.blank {c : Char} (h : c.isWhitespace = true) : Separates [c] [] := by
  have hne : c ≠ '\'' := by
    rintro rfl
    exact absurd h (by decide)
  have hmark : isMark c = false := by
    rw [Bool.eq_false_iff]
    intro hc
    simp only [isMark, Bool.or_eq_true, decide_eq_true_eq] at hc
    obtain ((rfl | rfl) | rfl) | rfl := hc <;> exact absurd h (by decide)
  refine .of_step (.inr h) fun done => ?_
  rw [step, start, if_neg hne, hmark, if_neg Bool.false_ne_true, if_pos h, List.append_nil]

theorem Separates.space : Separates [' '] [] := .blank rfl

theorem Separates.append {a b : List Char} {s t : List Token} (ha : Separates a s)
    (hb : Separates b t) : Separates (a ++ b) (s ++ t) := by
  constructor
  · intro r
    rw [List.append_assoc]
    exact ha.stops _
  · intro done r
    rw [List.append_assoc, ha.scan_append, hb.scan_append, List.append_assoc]

theorem Separates.scans_append {a b : List Char} {s t : List Token} (ha : Separates a s)
    (hb : Scans b t) : Scans (a ++ b) (s ++ t) := by
  intro done r hr
  rw [List.append_assoc, ha.scan_append, hb _ r hr, List.append_assoc]

theorem Scans.append_separates {a b : List Char} {s t : List Token} (ha : Scans a s)
    (hb : Separates b t) : Scans (a ++ b) (s ++ t) := by
  intro done r _
  rw [List.append_assoc, ha done _ (hb.stops r), hb.scan_append, List.append_assoc]

/-- Two texts with a separator between them are read one by one. -/
theorem Scans.separate {a b c : List Char} {s t u : List Token} (ha : Scans a s)
    (hb : Separates b t) (hc : Scans c u) : Scans (a ++ (b ++ c)) (s ++ (t ++ u)) := by
  intro done r hr
  rw [List.append_assoc, List.append_assoc, ha done _ (hb.stops _), hb.scan_append, hc _ r hr]
  simp only [List.append_assoc]

/-- Nothing stands between lists that are flattened. -/
theorem intercalate_empty {α : Type} (l : List (List α)) : [].intercalate l = l.flatten := by
  induction l with
  | nil => rfl
  | cons a l ih =>
    cases l with
    | nil => simp
    | cons b l =>
      rw [List.intercalate_cons_cons, List.append_nil, ih]
      rfl

theorem mem_intercalate {α : Type} {sep : List α} {x : α} {l : List (List α)}
    (h : x ∈ sep.intercalate l) : x ∈ sep ∨ ∃ a ∈ l, x ∈ a := by
  induction l with
  | nil => exact absurd h List.not_mem_nil
  | cons a l ih =>
    cases l with
    | nil =>
      rw [List.intercalate_singleton] at h
      exact .inr ⟨a, List.mem_cons_self, h⟩
    | cons b l =>
      rw [List.intercalate_cons_cons, List.mem_append, List.mem_append] at h
      obtain (h | h) | h := h
      · exact .inr ⟨a, List.mem_cons_self, h⟩
      · exact .inl h
      · refine (ih h).imp_right ?_
        rintro ⟨b, hb, hx⟩
        exact ⟨b, List.mem_cons_of_mem _ hb, hx⟩

/-- Texts with separators between them are read one by one. -/
theorem Scans.intercalate {sep : List Char} {between : List Token} (hsep : Separates sep between)
    {texts : List (List Char)} {tokens : List (List Token)} (h : List.Forall₂ Scans texts tokens) :
    Scans (sep.intercalate texts) (between.intercalate tokens) := by
  induction h with
  | nil => exact .nil
  | cons hfirst hrest ih =>
    cases hrest with
    | nil =>
      rw [List.intercalate_singleton, List.intercalate_singleton]
      exact hfirst
    | cons hsecond hrest =>
      rw [List.intercalate_cons_cons, List.intercalate_cons_cons]
      rw [List.append_assoc, List.append_assoc]
      exact hfirst.separate hsep ih

/-- Words have no marks, no blanks and no quotes. -/
def IsWord (w : String) : Prop := w ≠ "" ∧ ∀ c ∈ w.toList, isPlain c = true

instance (w : String) : Decidable (IsWord w) :=
  @instDecidableAnd _ _ inferInstance (List.decidableBAll (isPlain · = true) w.toList)

theorem Scans.word {w : String} (h : IsWord w) : Scans w.toList [.word w] := by
  intro done r hr
  obtain ⟨hne, hplain⟩ := h
  have hw : String.ofList w.toList = w := String.ofList_toList
  cases hl : w.toList with
  | nil => exact absurd (String.toList_eq_nil_iff.1 hl) hne
  | cons c l =>
    rw [hl, List.forall_mem_cons] at hplain
    obtain ⟨hc, hplain⟩ := hplain
    have hstep : (between done).step c = .word done [c] := by
      simp only [isPlain, Bool.and_eq_true, Bool.not_eq_true', decide_eq_true_eq] at hc
      rw [step, start, if_neg hc.2, hc.1.1, if_neg Bool.false_ne_true, hc.1.2,
        if_neg Bool.false_ne_true]
    unfold scan
    rw [List.cons_append, run_cons, hstep, run_append, run_plain hplain, finish_run_word hr,
      List.singleton_append, ← hl, hw]
    rfl

/-- Two words with a blank between them. -/
theorem scans_words {v w : String} (hv : IsWord v) (hw : IsWord w) :
    Scans (v.toList ++ ' ' :: w.toList) [.word v, .word w] :=
  (Scans.word hv).separate .space (.word hw)

theorem Scans.literal (s : String) : Scans (quoteLiteral s).toList [.literal s] := by
  intro done r hr
  have hs : String.ofList s.toList = s := String.ofList_toList
  unfold quoteLiteral scan
  rw [String.toList_ofList, List.cons_append, List.append_assoc, run_cons]
  show (((Lexer.literal done []).run _).finish) = _
  rw [run_append, run_quotedChar, List.nil_append, List.singleton_append, run_cons]
  show (((Lexer.quote done s.toList).run r).finish) = _
  rw [finish_run_quote hr, hs]
  rfl

/-! ## Marks outside literals -/

namespace Lexer

/-- The tokens that are read in full. -/
def done : Lexer → List Token
  | between done | word done _ | literal done _ | quote done _ => done

theorem mem_done_start {done : List Token} {c : Char} {t : Token} (h : t ∈ done) :
    t ∈ (start done c).done := by
  unfold start
  split_ifs
  · exact h
  · exact List.mem_append_left _ h
  · exact h
  · exact h

theorem mem_done_step {s : Lexer} {c : Char} {t : Token} (h : t ∈ s.done) :
    t ∈ (s.step c).done := by
  cases s with
  | between done => exact mem_done_start h
  | word done read =>
    rw [step]
    split_ifs
    · exact h
    · exact mem_done_start (List.mem_append_left _ h)
  | literal done read =>
    rw [step]
    split_ifs <;> exact h
  | quote done read =>
    rw [step]
    split_ifs
    · exact h
    · exact mem_done_start (List.mem_append_left _ h)

theorem mem_done_run {t : Token} (r : List Char) :
    ∀ {s : Lexer}, t ∈ s.done → t ∈ (s.run r).done := by
  induction r with
  | nil => exact id
  | cons c r ih => exact fun h => ih (mem_done_step h)

/-- A semicolon is a token of its own outside literals. -/
theorem step_semicolon {s : Lexer} (h : ¬s.IsInside) :
    ∃ before, s.done ⊆ before ∧ s.step ';' = between (before ++ [.mark ';']) := by
  cases s with
  | between done => exact ⟨done, List.Subset.refl _, rfl⟩
  | word done read => exact ⟨_, List.subset_append_left _ _, rfl⟩
  | literal done read => exact absurd ⟨done, read, rfl⟩ h
  | quote done read => exact ⟨_, List.subset_append_left _ _, rfl⟩

end Lexer

/-- A text that ends in its only semicolon outside literals. -/
structure EndsOnce (text : String) : Prop where
  last : text.toList.getLast? = some ';'
  once : ∀ before after, text.toList = before ++ ';' :: after →
    (¬((Lexer.between []).run before).IsInside ↔ after = [])

theorem tokenize_snoc {text : String} {before : List Char}
    (h : text.toList = before ++ [';']) :
    tokenize text = (((Lexer.between []).run before).step ';').finish := by
  unfold tokenize scan
  rw [h, run_append]
  rfl

theorem not_isInside_of_finish {s : Lexer} {tokens : List Token}
    (h : (s.step ';').finish = some tokens) : ¬s.IsInside := by
  rintro ⟨done, read, rfl⟩
  cases h

/-- If the only semicolon that is a token is the last one, the one at the end of the text is the
only one outside literals. -/
theorem EndsOnce.of_tokenize {text : String} {tokens : List Token}
    (hlast : text.toList.getLast? = some ';')
    (h : tokenize text = some (tokens ++ [.mark ';'])) (hnone : .mark ';' ∉ tokens) :
    EndsOnce text := by
  refine ⟨hlast, fun before after htext => ⟨fun hout => ?_, ?_⟩⟩
  · obtain rfl | ⟨after, c, rfl⟩ := List.eq_nil_or_concat after
    · rfl
    exfalso
    rw [List.concat_eq_append] at htext
    obtain rfl : c = ';' := by
      rw [htext, ← List.cons_append, ← List.append_assoc, List.getLast?_concat] at hlast
      exact Option.some.inj hlast
    obtain ⟨d, -, hfirst⟩ := step_semicolon hout
    -- the reader has a semicolon from here on, and another one comes at the end
    have hmem : .mark ';' ∈ ((Lexer.between []).run (before ++ ';' :: after)).done := by
      rw [run_append, run_cons, hfirst]
      exact mem_done_run after (List.mem_append_right d List.mem_cons_self)
    rw [← List.cons_append, ← List.append_assoc] at htext
    rw [tokenize_snoc htext] at h
    obtain ⟨d', hsub, hsecond⟩ := step_semicolon (not_isInside_of_finish h)
    rw [hsecond] at h
    have heq : d' = tokens := (List.append_left_inj [Token.mark ';']).1 (Option.some.inj h)
    exact hnone (heq ▸ hsub hmem)
  · rintro rfl
    rw [tokenize_snoc htext] at h
    exact not_isInside_of_finish h

end OrmDdl.Mysql
