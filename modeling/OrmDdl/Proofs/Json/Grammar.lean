import OrmDdl.Proofs.Json.Nesting
import OrmDdl.Text.Hex
/-!
# The grammar of JSON

The well-formed texts of JSON by what they stand for (`Derives`). The grammar says nothing of what
the readers ask for besides: that numbers fit, that surrogates stand in pairs, that brackets are not
nested too deep. `Derives.balanced`: a well-formed text closes the brackets it opens, and no others.
-/

namespace OrmDdl.Json

/-! ## Strings and numbers -/

def AreBlanks (text : List Char) : Prop := ∀ c ∈ text, Reader.isBlank c = true

/-- A character that stands for itself in a string. -/
def isUnescaped (c : Char) : Bool := 0x20 ≤ c.toNat && c ≠ '"' && c ≠ '\\'

/-- What may stand between two quotes. -/
inductive StringText : List Char → Prop
  | nil : StringText []
  | plain {c : Char} {r : List Char} (hc : isUnescaped c = true) (hr : StringText r) :
      StringText (c :: r)
  | escape {c : Char} {r : List Char} (hc : c ∈ ['"', '\\', '/', 'b', 'f', 'n', 'r', 't'])
      (hr : StringText r) : StringText ('\\' :: c :: r)
  | unit {a b c d : Char} {r : List Char}
      (hdigits : ∀ digit ∈ [a, b, c, d], (Text.hexValue? digit).isSome = true)
      (hr : StringText r) : StringText ('\\' :: 'u' :: a :: b :: c :: d :: r)

theorem StringText.of_unescaped {text : List Char} (h : text.all isUnescaped = true) :
    StringText text := by
  induction text with
  | nil => exact .nil
  | cons c r ih =>
    rw [List.all_cons, Bool.and_eq_true] at h
    exact .plain h.1 (ih h.2)

/-- Digits, of which there is one at least. -/
def AreDigits (text : List Char) : Prop := text ≠ [] ∧ ∀ c ∈ text, c.isDigit = true

/-- A number: its sign, its whole part, its fraction and its exponent. -/
structure NumberText (text : List Char) : Prop where
  parts : ∃ sign whole fraction exponent, text = sign ++ whole ++ fraction ++ exponent ∧
    (sign = [] ∨ sign = ['-']) ∧
    AreDigits whole ∧ (whole.head? = some '0' → whole = ['0']) ∧
    (fraction = [] ∨ ∃ digits, fraction = '.' :: digits ∧ AreDigits digits) ∧
    (exponent = [] ∨ ∃ mark sign digits, exponent = mark :: (sign ++ digits) ∧
      (mark = 'e' ∨ mark = 'E') ∧ (sign = [] ∨ sign = ['+'] ∨ sign = ['-']) ∧ AreDigits digits)

/-! ## Values -/

/-- The nonterminals of the grammar. An element is a value with blanks around it. -/
inductive Kind where
  | array
  | value
  | element
  | elements
  | member
  | members
deriving DecidableEq

/-- The texts of the grammar. -/
inductive Derives : Kind → List Char → Prop
  | word {w : String} (hw : w ∈ ["null", "true", "false"]) : Derives .value w.toList
  | number {text : List Char} (h : NumberText text) : Derives .value text
  | string {text : List Char} (h : StringText text) : Derives .value ('"' :: (text ++ ['"']))
  | ofArray {text : List Char} (h : Derives .array text) : Derives .value text
  | emptyObject {blanks : List Char} (h : AreBlanks blanks) :
      Derives .value ('\x7b' :: (blanks ++ ['\x7d']))
  | object {text : List Char} (h : Derives .members text) :
      Derives .value ('\x7b' :: (text ++ ['\x7d']))
  | emptyArray {blanks : List Char} (h : AreBlanks blanks) :
      Derives .array ('[' :: (blanks ++ [']']))
  | array {text : List Char} (h : Derives .elements text) : Derives .array ('[' :: (text ++ [']']))
  | element {before text behind : List Char} (hbefore : AreBlanks before) (h : Derives .value text)
      (hbehind : AreBlanks behind) : Derives .element (before ++ (text ++ behind))
  | oneElement {text : List Char} (h : Derives .element text) : Derives .elements text
  | moreElements {text rest : List Char} (h : Derives .element text)
      (hrest : Derives .elements rest) : Derives .elements (text ++ ',' :: rest)
  | member {before name behind text : List Char} (hbefore : AreBlanks before)
      (hname : StringText name) (hbehind : AreBlanks behind) (h : Derives .element text) :
      Derives .member (before ++ '"' :: (name ++ '"' :: (behind ++ ':' :: text)))
  | oneMember {text : List Char} (h : Derives .member text) : Derives .members text
  | moreMembers {text rest : List Char} (h : Derives .member text)
      (hrest : Derives .members rest) : Derives .members (text ++ ',' :: rest)

/-- An element without blanks. -/
theorem Derives.bare {text : List Char} (h : Derives .value text) : Derives .element text := by
  have helement := @Derives.element [] text [] (List.forall_mem_nil _) h (List.forall_mem_nil _)
  rwa [List.append_nil] at helement

/-- A text that is one array, with blanks around it. -/
def IsArrayText (text : List Char) : Prop :=
  ∃ before array behind, text = before ++ (array ++ behind) ∧ AreBlanks before ∧
    Derives .array array ∧ AreBlanks behind

/-! ## Brackets -/

theorem StringText.endsString {text : List Char} (h : StringText text) :
    EndsString (text ++ ['"']) := by
  induction h with
  | nil => exact endsString_quote
  | plain hc _ ih =>
    simp only [isUnescaped, Bool.and_eq_true, decide_eq_true_eq] at hc
    exact (inString_char hc.1.2 hc.2).append_endsString ih
  | escape _ _ ih => exact (inString_escape _).append_endsString ih
  | @unit a b c d r hdigits _ ih =>
    have hdigit : ∀ digit ∈ [a, b, c, d], InString [digit] := fun digit hmem =>
      inString_of_hexValue? (Option.get_mem (hdigits digit hmem))
    have hunit : InString [a, b, c, d] :=
      (hdigit a (by simp)).append ((hdigit b (by simp)).append
        ((hdigit c (by simp)).append (hdigit d (by simp))))
    exact (inString_escape 'u').append_endsString (hunit.append_endsString ih)

theorem StringText.balanced {text : List Char} (h : StringText text) :
    Balanced ('"' :: (text ++ ['"'])) := h.endsString.balanced

theorem AreDigits.balanced {text : List Char} (h : AreDigits text) : Balanced text :=
  balanced_of_plain (List.all_eq_true.2 fun c hc => isPlain_of_isDigit (h.2 c hc))

theorem NumberText.balanced {text : List Char} (h : NumberText text) : Balanced text := by
  obtain ⟨sign, whole, fraction, exponent, rfl, hsign, hwhole, -, hfraction, hexponent⟩ := h
  have hsign : Balanced sign := by
    rcases hsign with rfl | rfl <;> exact balanced_of_plain (by decide)
  have hfraction : Balanced fraction := by
    obtain rfl | ⟨digits, rfl, hdigits⟩ := hfraction
    · exact balanced_nil
    · exact balanced_cons (by decide) hdigits.balanced
  have hexponent : Balanced exponent := by
    obtain rfl | ⟨mark, sign, digits, rfl, hmark, hsign, hdigits⟩ := hexponent
    · exact balanced_nil
    have hmark : isPlain mark = true := by rcases hmark with rfl | rfl <;> decide
    have hsign : Balanced sign := by
      rcases hsign with rfl | rfl | rfl <;> exact balanced_of_plain (by decide)
    exact balanced_cons hmark (hsign.append hdigits.balanced)
  exact ((hsign.append hwhole.balanced).append hfraction).append hexponent

theorem Derives.balanced {k : Kind} {text : List Char} (h : Derives k text) : Balanced text := by
  induction h with
  | @word w hw =>
    have hplain : ∀ w ∈ ["null", "true", "false"], w.toList.all isPlain = true := by decide
    exact balanced_of_plain (hplain w hw)
  | number h => exact h.balanced
  | string h => exact h.balanced
  | ofArray _ ih => exact ih
  | emptyObject h => exact balanced_bracketed (.inr rfl) (.inr rfl) (balanced_blanks h)
  | object _ ih => exact balanced_bracketed (.inr rfl) (.inr rfl) ih
  | emptyArray h => exact balanced_bracketed (.inl rfl) (.inl rfl) (balanced_blanks h)
  | array _ ih => exact balanced_bracketed (.inl rfl) (.inl rfl) ih
  | element hbefore _ hbehind ih =>
    exact (balanced_blanks hbefore).append (ih.append (balanced_blanks hbehind))
  | oneElement _ ih => exact ih
  | moreElements _ _ ih ihrest => exact ih.append (balanced_cons (by decide) ihrest)
  | @member before name behind text hbefore hname hbehind _ ih =>
    have hvalue : Balanced (behind ++ ':' :: text) :=
      (balanced_blanks hbehind).append (balanced_cons (by decide) ih)
    have h := (balanced_blanks hbefore).append (hname.balanced.append hvalue)
    rwa [List.cons_append, List.append_assoc] at h
  | oneMember _ ih => exact ih
  | moreMembers _ _ ih ihrest => exact ih.append (balanced_cons (by decide) ihrest)

theorem Derives.bracketed {text : List Char} (h : Derives .array text) : Bracketed text := by
  cases h with
  | emptyArray h => exact .of_brackets (.inl rfl) (.inl rfl) (balanced_blanks h)
  | array h => exact .of_brackets (.inl rfl) (.inl rfl) h.balanced

/-- An array, with the blanks before it, and the blanks behind it. -/
theorem IsArrayText.exists_bracketed {text : List Char} (h : IsArrayText text) :
    ∃ array blanks, text = array ++ blanks ∧ Bracketed array ∧ AreBlanks blanks := by
  obtain ⟨before, array, behind, rfl, hbefore, harray, hbehind⟩ := h
  exact ⟨before ++ array, behind, (List.append_assoc _ _ _).symm,
    harray.bracketed.blanks_append hbefore, hbehind⟩

end OrmDdl.Json
