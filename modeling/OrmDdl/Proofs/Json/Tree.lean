import OrmDdl.Proofs.Json.Outcomes
/-!
# Texts and what they denote

A JSON text denotes a tree (`Tree`), whatever its blanks are and however its strings and numbers are
written (`HasText`). Every document of the grammar denotes one (`Derives.exists_documentOf`), and
what denotes a tree is a value of the grammar (`HasText.derives`).
-/

namespace OrmDdl.Json

open Reader

/-- What a text denotes. A number that is read as none, and a string with surrogates that are not in
pairs, have no value. -/
inductive Tree where
  | null
  | bool (b : Bool)
  | number (value : Option Number)
  | string (chars : Option String)
  | array (items : List Tree)
  | object (members : List (Option String × Tree))

/-! ## Parts of texts -/

/-- The text of a number is read as this value, or as none. -/
structure NumberOf (value : Option Number) (text : List Char) : Prop where
  numberText : NumberText text
  reads : ∀ rest, Delimited rest → outcome Reader.number (text ++ rest) = value.map (·, rest)

theorem NumberText.exists_numberOf {text : List Char} (h : NumberText text) :
    ∃ value, NumberOf value text := by
  obtain hfails | ⟨m, hm⟩ := h.number_eq
  · exact ⟨none, h, fun rest hrest => outcome_eq_none fun m s => hfails rest s m hrest⟩
  · exact ⟨some m, h, fun rest hrest => outcome_of_ok (hm rest hrest)⟩

/-- The text between two quotes spells these characters, or none. -/
structure StringOf (chars : Option String) (text : List Char) : Prop where
  stringText : StringText text
  spells : ∀ s, chars = some s ↔ Spells text s.toList

theorem Spells.unique {text s s' : List Char} (h : Spells text s) (h' : Spells text s') :
    s = s' := by
  have hread := (h.string_ok []).symm.trans (h'.string_ok [])
  rw [Except.ok.injEq, Prod.mk.injEq, String.ofList_inj] at hread
  exact hread.1

theorem StringText.exists_stringOf {text : List Char} (h : StringText text) :
    ∃ chars, StringOf chars text := by
  by_cases hspells : ∃ s, Spells text s
  · obtain ⟨s, hs⟩ := hspells
    refine ⟨some (String.ofList s), h, fun s' => ?_⟩
    constructor
    · rintro ⟨⟩
      rwa [String.toList_ofList]
    · intro hs'
      rw [hs.unique hs', String.ofList_toList]
  · exact ⟨none, h, fun s => ⟨(nomatch ·), fun hs => absurd ⟨_, hs⟩ hspells⟩⟩

/-- A member by its parts: its name, the blanks on both sides of the colon, its value. -/
structure MemberText where
  name : List Char
  gap : List Char
  lead : List Char
  value : List Char
  gap_blanks : AreBlanks gap
  lead_blanks : AreBlanks lead

def MemberText.text (m : MemberText) : List Char := memberPiece m.name m.gap m.lead m.value

/-! ## Trees of texts -/

/-- The text denotes the tree. -/
inductive HasText : Tree → List Char → Prop
  | null : HasText .null "null".toList
  | bool (b : Bool) : HasText (.bool b) (if b then "true" else "false").toList
  | number {value : Option Number} {text : List Char} (h : NumberOf value text) :
      HasText (.number value) text
  | string {chars : Option String} {text : List Char} (h : StringOf chars text) :
      HasText (.string chars) ('"' :: (text ++ ['"']))
  | array {entries : List (Tree × List Char)} {body : List Char}
      (hbody : Listed true (entries.map Prod.snd) body) (h : ∀ e ∈ entries, HasText e.1 e.2) :
      HasText (.array (entries.map Prod.fst)) ('[' :: (body ++ [']']))
  | object {entries : List ((Option String × Tree) × MemberText)} {body : List Char}
      (hbody : Listed true (entries.map (·.2.text)) body)
      (hnames : ∀ e ∈ entries, StringOf e.1.1 e.2.name)
      (h : ∀ e ∈ entries, HasText e.1.2 e.2.value) :
      HasText (.object (entries.map Prod.fst)) ('\x7b' :: (body ++ ['\x7d']))

/-- Some text denotes the tree. -/
def Tree.Written (t : Tree) : Prop := ∃ text, HasText t text

/-- A text that is one value with blanks around it, which denotes the tree. -/
def DocumentOf (t : Tree) (text : String) : Prop :=
  ∃ before value behind, text.toList = before ++ (value ++ behind) ∧ AreBlanks before ∧
    AreBlanks behind ∧ HasText t value

/-! ## From the grammar -/

/-- What the texts of the grammar stand for: one tree, or pieces that stand for one each. -/
def Denoted : Kind → List Char → Prop
  | .array, text | .value, text => ∃ t, HasText t text
  | .element, text => ∃ before behind t piece, text = before ++ (piece ++ behind) ∧
      AreBlanks before ∧ AreBlanks behind ∧ HasText t piece
  | .elements, text => ∃ entries : List (Tree × List Char), (∀ e ∈ entries, HasText e.1 e.2) ∧
      ∀ first pre, LeadsIn first pre → Listed first (entries.map Prod.snd) (pre ++ text)
  | .member, text => ∃ before behind chars t, ∃ m : MemberText,
      text = before ++ (m.text ++ behind) ∧ AreBlanks before ∧ AreBlanks behind ∧
        StringOf chars m.name ∧ HasText t m.value
  | .members, text => ∃ entries : List ((Option String × Tree) × MemberText),
      (∀ e ∈ entries, StringOf e.1.1 e.2.name) ∧ (∀ e ∈ entries, HasText e.1.2 e.2.value) ∧
      ∀ first pre, LeadsIn first pre → Listed first (entries.map (·.2.text)) (pre ++ text)

/-- A piece with blanks around it is one piece. -/
theorem Listed.one {first : Bool} {pre before piece behind : List Char} (hpre : LeadsIn first pre)
    (hbefore : AreBlanks before) (hbehind : AreBlanks behind) :
    Listed first [piece] (pre ++ (before ++ (piece ++ behind))) := by
  rw [← List.append_assoc]
  exact .cons (hpre.append hbefore) (.nil hbehind)

/-- A piece with blanks around it, a comma, and other pieces. -/
theorem Listed.more {first : Bool} {pre before piece behind rest : List Char}
    {pieces : List (List Char)} (hpre : LeadsIn first pre) (hbefore : AreBlanks before)
    (hbehind : AreBlanks behind)
    (hrest : ∀ first pre, LeadsIn first pre → Listed first pieces (pre ++ rest)) :
    Listed first (piece :: pieces) (pre ++ (before ++ (piece ++ behind) ++ ',' :: rest)) := by
  have hcomma : LeadsIn false (behind ++ [',']) :=
    ⟨behind, [], rfl, hbehind, List.forall_mem_nil _⟩
  have hlisted : Listed first (piece :: pieces) _ :=
    .cons (hpre.append hbefore) (hrest false _ hcomma)
  simpa only [List.append_assoc, List.cons_append, List.nil_append] using hlisted

theorem leadsIn_nil : LeadsIn true [] := List.forall_mem_nil _

theorem Derives.denoted {kind : Kind} {text : List Char} (h : Derives kind text) :
    Denoted kind text := by
  induction h with
  | word hw =>
    simp only [List.mem_cons, List.not_mem_nil, or_false] at hw
    rcases hw with rfl | rfl | rfl
    · exact ⟨_, .null⟩
    · exact ⟨_, .bool true⟩
    · exact ⟨_, .bool false⟩
  | number h =>
    obtain ⟨value, hvalue⟩ := h.exists_numberOf
    exact ⟨_, .number hvalue⟩
  | string h =>
    obtain ⟨chars, hchars⟩ := h.exists_stringOf
    exact ⟨_, .string hchars⟩
  | ofArray _ ih => exact ih
  | emptyObject h => exact ⟨_, .object (.nil h) (List.forall_mem_nil _) (List.forall_mem_nil _)⟩
  | object _ ih =>
    obtain ⟨entries, hnames, hvalues, hlisted⟩ := ih
    exact ⟨_, .object (hlisted true [] leadsIn_nil) hnames hvalues⟩
  | emptyArray h => exact ⟨_, .array (.nil h) (List.forall_mem_nil _)⟩
  | array _ ih =>
    obtain ⟨entries, hitems, hlisted⟩ := ih
    exact ⟨_, .array (hlisted true [] leadsIn_nil) hitems⟩
  | element hbefore _ hbehind ih =>
    obtain ⟨t, ht⟩ := ih
    exact ⟨_, _, t, _, rfl, hbefore, hbehind, ht⟩
  | oneElement _ ih =>
    obtain ⟨before, behind, t, piece, rfl, hbefore, hbehind, ht⟩ := ih
    refine ⟨[(t, piece)], List.forall_mem_singleton.2 ht, fun first pre hpre => ?_⟩
    exact .one hpre hbefore hbehind
  | moreElements _ _ ih ihrest =>
    obtain ⟨before, behind, t, piece, rfl, hbefore, hbehind, ht⟩ := ih
    obtain ⟨entries, hitems, hlisted⟩ := ihrest
    refine ⟨(t, piece) :: entries, List.forall_mem_cons.2 ⟨ht, hitems⟩, fun first pre hpre => ?_⟩
    exact .more hpre hbefore hbehind hlisted
  | @member before name gap text hbefore hname hgap _ ih =>
    obtain ⟨lead, behind, t, piece, rfl, hlead, hbehind, ht⟩ := ih
    obtain ⟨chars, hchars⟩ := hname.exists_stringOf
    refine ⟨before, behind, chars, t, ⟨name, gap, lead, piece, hgap, hlead⟩, ?_, hbefore, hbehind,
      hchars, ht⟩
    rw [MemberText.text, memberPiece_append]
  | oneMember _ ih =>
    obtain ⟨before, behind, chars, t, m, rfl, hbefore, hbehind, hname, ht⟩ := ih
    refine ⟨[((chars, t), m)], List.forall_mem_singleton.2 hname, List.forall_mem_singleton.2 ht,
      fun first pre hpre => ?_⟩
    exact .one hpre hbefore hbehind
  | moreMembers _ _ ih ihrest =>
    obtain ⟨before, behind, chars, t, m, rfl, hbefore, hbehind, hname, ht⟩ := ih
    obtain ⟨entries, hnames, hvalues, hlisted⟩ := ihrest
    refine ⟨((chars, t), m) :: entries, List.forall_mem_cons.2 ⟨hname, hnames⟩,
      List.forall_mem_cons.2 ⟨ht, hvalues⟩, fun first pre hpre => ?_⟩
    exact .more hpre hbefore hbehind hlisted

/-- Every document denotes a tree. -/
theorem Derives.exists_documentOf {text : String} (h : Derives .element text.toList) :
    ∃ t, DocumentOf t text := by
  obtain ⟨before, behind, t, value, htext, hbefore, hbehind, ht⟩ := h.denoted
  exact ⟨t, before, value, behind, htext, hbefore, hbehind, ht⟩

/-! ## Back to the grammar -/

section

variable {kind kinds : Kind} (one : ∀ {t}, Derives kind t → Derives kinds t)
  (more : ∀ {t r}, Derives kind t → Derives kinds r → Derives kinds (t ++ ',' :: r))

include one more

/-- A piece, and behind it nothing but blanks, or a comma and others. -/
theorem many_of_piece {piece rest : List Char} (hpiece : ∀ before behind, AreBlanks before →
      AreBlanks behind → Derives kind (before ++ (piece ++ behind)))
    (hrest : AreBlanks rest ∨ ∃ behind text, rest = behind ++ ',' :: text ∧ AreBlanks behind ∧
      Derives kinds text) {before : List Char} (hbefore : AreBlanks before) :
    Derives kinds (before ++ (piece ++ rest)) := by
  obtain hrest | ⟨behind, text, rfl, hbehind, htext⟩ := hrest
  · exact one (hpiece before rest hbefore hrest)
  · have hmore := more (hpiece before behind hbefore hbehind) htext
    simpa only [List.append_assoc] using hmore

theorem Listed.derives_rest {first : Bool} {pieces : List (List Char)} {rest : List Char}
    (h : Listed first pieces rest) (hfirst : first = false)
    (hpieces : ∀ piece ∈ pieces, ∀ before behind, AreBlanks before → AreBlanks behind →
      Derives kind (before ++ (piece ++ behind))) :
    AreBlanks rest ∨ ∃ behind text, rest = behind ++ ',' :: text ∧ AreBlanks behind ∧
      Derives kinds text := by
  induction h with
  | nil h => exact .inl h
  | cons hpre _ ih =>
    subst hfirst
    obtain ⟨hpiece, hpieces⟩ := List.forall_mem_cons.1 hpieces
    obtain ⟨behind, before, rfl, hbehind, hbefore⟩ := hpre
    refine .inr ⟨behind, _, ?_, hbehind, many_of_piece one more hpiece (ih rfl hpieces) hbefore⟩
    rw [List.append_assoc, List.cons_append]

/-- Pieces are derived together if each is with blanks around it. -/
theorem Listed.derives {pieces : List (List Char)} {body : List Char} (h : Listed true pieces body)
    (hpieces : ∀ piece ∈ pieces, ∀ before behind, AreBlanks before → AreBlanks behind →
      Derives kind (before ++ (piece ++ behind))) : AreBlanks body ∨ Derives kinds body := by
  cases h with
  | nil h => exact .inl h
  | cons hpre hrest =>
    obtain ⟨hpiece, hpieces⟩ := List.forall_mem_cons.1 hpieces
    have hbehind := hrest.derives_rest one more rfl hpieces
    exact .inr (many_of_piece one more hpiece hbehind hpre)

end

/-- What denotes a tree is a value of the grammar. -/
theorem HasText.derives {t : Tree} {text : List Char} (h : HasText t text) :
    Derives .value text := by
  induction h with
  | null => exact .word (by decide)
  | bool b => cases b <;> exact .word (by decide)
  | number h => exact .number h.numberText
  | string h => exact .string h.stringText
  | @array entries body hbody _ ih =>
    have hpieces : ∀ piece ∈ entries.map Prod.snd, ∀ before behind, AreBlanks before →
        AreBlanks behind → Derives .element (before ++ (piece ++ behind)) := by
      intro piece hpiece before behind hbefore hbehind
      obtain ⟨e, he, rfl⟩ := List.mem_map.1 hpiece
      exact .element hbefore (ih e he) hbehind
    obtain hblanks | hmany := hbody.derives .oneElement .moreElements hpieces
    · exact .ofArray (.emptyArray hblanks)
    · exact .ofArray (.array hmany)
  | @object entries body hbody hnames _ ih =>
    have hpieces : ∀ piece ∈ entries.map (·.2.text), ∀ before behind, AreBlanks before →
        AreBlanks behind → Derives .member (before ++ (piece ++ behind)) := by
      intro piece hpiece before behind hbefore hbehind
      obtain ⟨e, he, rfl⟩ := List.mem_map.1 hpiece
      rw [MemberText.text, memberPiece_append]
      exact .member hbefore (hnames e he).stringText e.2.gap_blanks
        (.element e.2.lead_blanks (ih e he) hbehind)
    obtain hblanks | hmany := hbody.derives .oneMember .moreMembers hpieces
    · exact .emptyObject hblanks
    · exact .object hmany

end OrmDdl.Json
