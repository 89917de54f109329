import OrmDdl.Proofs.Json.Reading
import OrmDdl.Text.Hex
/-!
# Open brackets

The brackets of a text that are open at a place, strings aside (`Nesting`). Values are balanced:
they leave as many open as they find, and never fewer (`Balanced`). `Bracketed.unique`: a list or an
object ends in one place only.
-/

namespace OrmDdl.Json

/-! ## Counting brackets -/

/-- Where in a text a character stands, and how many brackets are open there. -/
inductive Nesting where
  | outside (opened : Nat)
  | inString (opened : Nat)
  | escaped (opened : Nat)

namespace Nesting

def opened : Nesting → Nat
  | outside n | inString n | escaped n => n

def next : Nesting → Char → Nesting
  | outside n, c =>
    if c = '"' then inString n
    else if c = '[' ∨ c = '\x7b' then outside (n + 1)
    else if c = ']' ∨ c = '\x7d' then outside (n - 1)
    else outside n
  | inString n, c => if c = '"' then outside n else if c = '\\' then escaped n else inString n
  | escaped n, _ => inString n

def after (s : Nesting) (text : List Char) : Nesting := text.foldl next s

theorem after_append (s : Nesting) (a b : List Char) : s.after (a ++ b) = (s.after a).after b :=
  List.foldl_append

/-- The text leads from one place to another, and on the way no fewer brackets are open than so
many. -/
inductive Leads (low : Nat) : Nesting → List Char → Nesting → Prop
  | nil {s : Nesting} (h : low ≤ s.opened) : Leads low s [] s
  | cons {s u : Nesting} {c : Char} {r : List Char} (h : low ≤ s.opened)
      (hr : Leads low (s.next c) r u) : Leads low s (c :: r) u

namespace Leads

variable {low : Nat} {s u : Nesting} {a b : List Char}

theorem append {t : Nesting} (ha : Leads low s a u) (hb : Leads low u b t) :
    Leads low s (a ++ b) t := by
  induction ha with
  | nil => exact hb
  | cons h _ ih => exact .cons h (ih hb)

theorem mono {m : Nat} (hm : m ≤ low) (h : Leads low s a u) : Leads m s a u := by
  induction h with
  | nil h => exact .nil (Nat.le_trans hm h)
  | cons h _ ih => exact .cons (Nat.le_trans hm h) ih

theorem after_eq (h : Leads low s a u) : s.after a = u := by
  induction h with
  | nil => rfl
  | cons _ _ ih => exact ih

/-- A front of the text leads to a place with as many brackets. -/
theorem le_opened (h : Leads low s (a ++ b) u) : low ≤ (s.after a).opened := by
  induction a generalizing s with
  | nil =>
    cases hb : b with
    | nil =>
      subst hb
      cases h with
      | nil h => exact h
    | cons c r =>
      subst hb
      cases h with
      | cons h _ => exact h
  | cons c a ih =>
    cases h with
    | cons _ hr => exact ih hr

end Leads

end Nesting

open Nesting

def IsOpening (c : Char) : Prop := c = '[' ∨ c = '\x7b'

def IsClosing (c : Char) : Prop := c = ']' ∨ c = '\x7d'

theorem next_of_isOpening {c : Char} (h : IsOpening c) (n : Nat) :
    (outside n).next c = outside (n + 1) := by
  rcases h with rfl | rfl <;> rfl

theorem next_of_isClosing {c : Char} (h : IsClosing c) (n : Nat) :
    (outside (n + 1)).next c = outside n := by
  rcases h with rfl | rfl <;> rfl

/-- A character that is neither a bracket nor a quote. -/
def isPlain (c : Char) : Bool :=
  c ≠ '"' && c ≠ '[' && c ≠ ']' && c ≠ '\x7b' && c ≠ '\x7d'

theorem next_of_isPlain {c : Char} (h : isPlain c = true) (n : Nat) :
    (outside n).next c = outside n := by
  simp only [isPlain, Bool.and_eq_true, decide_eq_true_eq] at h
  obtain ⟨⟨⟨⟨hquote, hlist⟩, hlistEnd⟩, hobject⟩, hobjectEnd⟩ := h
  rw [next, if_neg hquote, if_neg (not_or.2 ⟨hlist, hobject⟩),
    if_neg (not_or.2 ⟨hlistEnd, hobjectEnd⟩)]

/-! ## Balanced texts -/

/-- A text that leaves the brackets open that it finds open. -/
def Balanced (text : List Char) : Prop := ∀ n, Leads n (outside n) text (outside n)

/-- What may stand in a string. -/
def InString (text : List Char) : Prop := ∀ n, Leads n (inString n) text (inString n)

/-- What may stand in a string, and the quote that ends it. -/
def EndsString (text : List Char) : Prop := ∀ n, Leads n (inString n) text (outside n)

theorem balanced_nil : Balanced [] := fun n => .nil (Nat.le_refl n)

theorem Balanced.append {a b : List Char} (ha : Balanced a) (hb : Balanced b) : Balanced (a ++ b) :=
  fun n => (ha n).append (hb n)

theorem balanced_of_plain {text : List Char} (h : text.all isPlain = true) : Balanced text := by
  intro n
  induction text with
  | nil => exact .nil (Nat.le_refl n)
  | cons c r ih =>
    rw [List.all_cons, Bool.and_eq_true] at h
    refine .cons (Nat.le_refl n) ?_
    rw [next_of_isPlain h.1]
    exact ih h.2

theorem balanced_cons {c : Char} (hc : isPlain c = true) {r : List Char} (hr : Balanced r) :
    Balanced (c :: r) := by
  have hone : [c].all isPlain = true := by rw [List.all_cons, hc, List.all_nil, Bool.and_true]
  exact (balanced_of_plain hone).append hr

theorem balanced_bracketed {o k : Char} {inner : List Char} (ho : IsOpening o) (hk : IsClosing k)
    (h : Balanced inner) : Balanced (o :: (inner ++ [k])) := by
  intro n
  refine .cons (Nat.le_refl n) ?_
  rw [next_of_isOpening ho]
  refine ((h (n + 1)).mono (Nat.le_succ n)).append (.cons (Nat.le_succ n) ?_)
  rw [next_of_isClosing hk]
  exact .nil (Nat.le_refl n)

theorem EndsString.balanced {r : List Char} (h : EndsString r) : Balanced ('"' :: r) :=
  fun n => .cons (Nat.le_refl n) (h n)

theorem InString.append_endsString {a b : List Char} (ha : InString a) (hb : EndsString b) :
    EndsString (a ++ b) :=
  fun n => (ha n).append (hb n)

theorem inString_nil : InString [] := fun n => .nil (Nat.le_refl n)

theorem endsString_quote : EndsString ['"'] := fun n => .cons (Nat.le_refl n) (.nil (Nat.le_refl n))

theorem inString_char {c : Char} (hquote : c ≠ '"') (hescape : c ≠ '\\') : InString [c] := by
  intro n
  refine .cons (Nat.le_refl n) ?_
  rw [next, if_neg hquote, if_neg hescape]
  exact .nil (Nat.le_refl n)

theorem inString_escape (c : Char) : InString ['\\', c] :=
  fun n => .cons (Nat.le_refl n) (.cons (Nat.le_refl n) (.nil (Nat.le_refl n)))

theorem InString.append {a b : List Char} (ha : InString a) (hb : InString b) :
    InString (a ++ b) :=
  fun n => (ha n).append (hb n)

theorem inString_of_hexValue? {c : Char} {v : Nat} (h : Text.hexValue? c = some v) :
    InString [c] := by
  have hquote : Text.hexValue? '"' = none := by decide
  have hescape : Text.hexValue? '\\' = none := by decide
  refine inString_char ?_ ?_
  · rintro rfl
    exact nomatch hquote.symm.trans h
  · rintro rfl
    exact nomatch hescape.symm.trans h

/-! ## Depth -/

/-- Wherever the text stands, at some place in it more than so many brackets are open besides those
that were open before. -/
def Rises (n : Nat) (text : List Char) : Prop :=
  ∀ m, ∃ front, front <+: text ∧ m + n < ((outside m).after front).opened

theorem Rises.append_left {n : Nat} {a : List Char} (h : Rises n a) (b : List Char) :
    Rises n (a ++ b) := by
  intro m
  obtain ⟨front, hfront, hlt⟩ := h m
  exact ⟨front, hfront.trans (List.prefix_append a b), hlt⟩

theorem Rises.append_right {n : Nat} {a b : List Char} (ha : Balanced a) (h : Rises n b) :
    Rises n (a ++ b) := by
  intro m
  obtain ⟨front, hfront, hlt⟩ := h m
  refine ⟨a ++ front, (List.prefix_append_right_inj a).2 hfront, ?_⟩
  rw [after_append, (ha m).after_eq]
  exact hlt

/-- A bracket adds one to the depth of what it holds. -/
theorem Rises.bracketed {n : Nat} {o : Char} {inner : List Char} (ho : IsOpening o)
    (h : Rises n inner) : Rises (n + 1) (o :: inner) := by
  intro m
  obtain ⟨front, hfront, hlt⟩ := h (m + 1)
  refine ⟨o :: front, (List.prefix_cons_inj o).2 hfront, ?_⟩
  show _ < (((outside m).next o).after front).opened
  rw [next_of_isOpening ho]
  omega

theorem rises_zero {o : Char} (ho : IsOpening o) (r : List Char) : Rises 0 (o :: r) := by
  intro m
  refine ⟨[o], ⟨r, rfl⟩, ?_⟩
  show _ < ((outside m).next o).opened
  rw [next_of_isOpening ho]
  exact Nat.lt_succ_self m

/-! ## Texts between brackets -/

/-- A list or an object, with blanks before it. -/
structure Bracketed (text : List Char) : Prop where
  parts : ∃ blanks o inner k, text = blanks ++ o :: (inner ++ [k]) ∧
    (∀ c ∈ blanks, Reader.isBlank c = true) ∧ IsOpening o ∧ IsClosing k ∧ Balanced inner

theorem isPlain_of_isDigit {c : Char} (h : c.isDigit = true) : isPlain c = true := by
  simp only [isPlain, Bool.and_eq_true, decide_eq_true_eq]
  refine ⟨⟨⟨⟨?_, ?_⟩, ?_⟩, ?_⟩, ?_⟩
  all_goals
    rintro rfl
    exact absurd h (by decide)

theorem isPlain_of_isBlank {c : Char} (h : Reader.isBlank c = true) : isPlain c = true := by
  simp only [Reader.isBlank, decide_eq_true_eq] at h
  rcases h with rfl | rfl | rfl | rfl <;> decide

theorem balanced_blanks {blanks : List Char} (h : ∀ c ∈ blanks, Reader.isBlank c = true) :
    Balanced blanks :=
  balanced_of_plain (List.all_eq_true.2 fun c hc => isPlain_of_isBlank (h c hc))

theorem IsOpening.not_isBlank {c : Char} (h : IsOpening c) : Reader.isBlank c = false := by
  rcases h with rfl | rfl <;> decide

namespace Bracketed

theorem of_brackets {o k : Char} {inner : List Char} (ho : IsOpening o) (hk : IsClosing k)
    (h : Balanced inner) : Bracketed (o :: (inner ++ [k])) :=
  ⟨[], o, inner, k, rfl, List.forall_mem_nil _, ho, hk, h⟩

theorem balanced {text : List Char} (h : Bracketed text) : Balanced text := by
  obtain ⟨blanks, o, inner, k, rfl, hblanks, ho, hk, hinner⟩ := h
  exact (balanced_blanks hblanks).append (balanced_bracketed ho hk hinner)

theorem ne_nil {text : List Char} (h : Bracketed text) : text ≠ [] := by
  obtain ⟨blanks, o, inner, k, rfl, -, -, -, -⟩ := h
  exact List.append_ne_nil_of_right_ne_nil _ (List.cons_ne_nil _ _)

theorem blanks_append {text blanks : List Char} (h : Bracketed text)
    (hblanks : ∀ c ∈ blanks, Reader.isBlank c = true) : Bracketed (blanks ++ text) := by
  obtain ⟨before, o, inner, k, rfl, hbefore, ho, hk, hinner⟩ := h
  refine ⟨blanks ++ before, o, inner, k, (List.append_assoc _ _ _).symm, ?_, ho, hk, hinner⟩
  exact List.forall_mem_append.2 ⟨hblanks, hbefore⟩

/-- Behind its closing bracket such a text does not go on. -/
theorem eq_nil_of_append {a z : List Char} (ha : Bracketed a) (haz : Bracketed (a ++ z)) :
    z = [] := by
  obtain ⟨blanks, o, inner, k, rfl, hblanks, ho, hk, hinner⟩ := ha
  obtain ⟨blanks', o', inner', k', htext, hblanks', ho', -, hinner'⟩ := haz
  have hskip := congrArg Reader.skipBlanks htext
  rw [List.append_assoc, Reader.skipBlanks_append hblanks, Reader.skipBlanks_append hblanks',
    List.cons_append, Reader.skipBlanks_of_not_blank ho.not_isBlank,
    Reader.skipBlanks_of_not_blank ho'.not_isBlank] at hskip
  have htail := (List.cons.inj hskip).2
  rcases List.eq_nil_or_concat z with rfl | ⟨z, l, rfl⟩
  · rfl
  · rw [List.concat_eq_append, ← List.append_assoc] at htail
    have hfront : inner ++ [k] ++ z = inner' := (List.append_inj' htail rfl).1
    -- inside the longer text a bracket would be closed that was opened before it
    have hle : 1 ≤ ((outside 1).after (inner ++ [k])).opened := by
      have hleads := hinner' 1
      rw [← hfront] at hleads
      exact hleads.le_opened
    rw [after_append, (hinner 1).after_eq] at hle
    have hclosed : (outside 1).after [k] = outside 0 := next_of_isClosing hk 0
    rw [hclosed] at hle
    exact absurd hle (by decide)

/-- Of one text only one front is a list or an object. -/
theorem unique {a b x y : List Char} (ha : Bracketed a) (hb : Bracketed b) (h : a ++ x = b ++ y) :
    a = b ∧ x = y := by
  rcases List.append_eq_append_iff.1 h with ⟨z, rfl, rfl⟩ | ⟨z, rfl, rfl⟩
  · rw [ha.eq_nil_of_append hb]
    simp
  · rw [hb.eq_nil_of_append ha]
    simp

end Bracketed

end OrmDdl.Json
