import OrmDdl.Proofs.Json.Tree
/-!
# What is read depends on what a text denotes

`Denotes r f`: of every text, wherever it stands, the reader `r` makes what `f` makes of the tree
that the text denotes. Blanks, escapes and the spelling of numbers do not matter to such a reader. Those
for values of a known form are such readers if those for their parts are, records among them
(`Record.denotes_read`), so one may ask what a reader makes of a tree (`Reader.ofTree?`).
-/

namespace OrmDdl.Json

open Reader

variable {α β : Type}

/-- The reader makes this of the text wherever it stands, or fails. -/
def Means (r : Reader α) (text : List Char) (x : Option α) : Prop :=
  ∀ s rest, skipBlanks s = text ++ rest → Delimited rest → outcome r s = x.map (·, rest)

/-- The reader looks at nothing but the tree that a text denotes. -/
def Denotes (r : Reader α) (f : Tree → Option α) : Prop :=
  ∀ t text, HasText t text → Means r text (f t)

open Classical in
/-- What a reader makes of a tree by some text of it. -/
noncomputable def Reader.ofTree? (r : Reader α) (t : Tree) : Option α :=
  if h : ∃ a text, HasText t text ∧ Means r text (some a) then some h.choose else none

/-- A reader for which one text of a tree is as good as another. -/
def Steady (r : Reader α) : Prop := Denotes r r.ofTree?

/-- The characters with which the texts of a tree start. -/
def Tree.opensWith : Tree → Char → Bool
  | null, c => c == 'n'
  | bool b, c => c == if b then 't' else 'f'
  | number _, c => c == '-' || c.isDigit
  | string _, c => c == '"'
  | array _, c => c == '['
  | object _, c => c == '\x7b'

namespace HasText

variable {t : Tree} {text : List Char}

theorem exists_cons (h : HasText t text) :
    ∃ c u, text = c :: u ∧ isBlank c = false ∧ c ≠ ']' := h.derives.opens

theorem ne_nil (h : HasText t text) : text ≠ [] := by
  obtain ⟨c, u, rfl, -⟩ := h.exists_cons
  exact List.cons_ne_nil c u

theorem skipBlanks_eq (h : HasText t text) {lead : List Char} (hlead : AreBlanks lead)
    (rest : List Char) : skipBlanks (lead ++ (text ++ rest)) = text ++ rest := by
  obtain ⟨c, u, rfl, hc, -⟩ := h.exists_cons
  exact skipBlanks_blanks_append hlead hc (u ++ rest)

/-- The first character tells what a text denotes. -/
theorem opens {c : Char} {u : List Char} (h : HasText t (c :: u)) : t.opensWith c = true := by
  generalize htext : c :: u = text at h
  cases h with
  | number h =>
    obtain ⟨d, v, rfl, hd⟩ := h.numberText.exists_cons
    rw [(List.cons.inj htext).1, Tree.opensWith, Bool.or_eq_true, beq_iff_eq]
    exact hd
  | bool b => cases b <;> exact beq_iff_eq.2 (List.cons.inj htext).1
  | null | string | array | object => exact beq_iff_eq.2 (List.cons.inj htext).1

end HasText

namespace Means

variable {r : Reader α} {t : Tree} {text : List Char} {x y : Option α}

theorem outcome_append (h : Means r text x) (ht : HasText t text) {lead rest : List Char}
    (hlead : AreBlanks lead) (hrest : Delimited rest) :
    outcome r (lead ++ (text ++ rest)) = x.map (·, rest) :=
  h _ rest (ht.skipBlanks_eq hlead rest) hrest

theorem unique (h : Means r text x) (h' : Means r text y) (ht : HasText t text) : x = y := by
  have hx := h.outcome_append ht (List.forall_mem_nil _) delimited_nil
  rw [h'.outcome_append ht (List.forall_mem_nil _) delimited_nil] at hx
  cases x with
  | none => exact (Option.map_eq_none_iff.1 hx).symm ▸ rfl
  | some a =>
    obtain ⟨b, rfl, hb⟩ := Option.map_eq_some_iff.1 hx
    rw [(Prod.mk.inj hb).1]

theorem map (h : Means r text x) (f : α → β) : Means (f <$> r) text (x.map f) := by
  intro s rest hs hrest
  rw [outcome_map, h s rest hs hrest, Option.map_map, Option.map_map]
  rfl

end Means

namespace Denotes

variable {r : Reader α} {f : Tree → Option α} {t : Tree}

theorem ofTree?_eq (h : Denotes r f) (ht : t.Written) : r.ofTree? t = f t := by
  obtain ⟨text, ht⟩ := ht
  unfold ofTree?
  split
  · next hsome =>
    obtain ⟨text', ht', hmeans⟩ := hsome.choose_spec
    exact hmeans.unique (h t text' ht') ht'
  · next hnone =>
    cases hf : f t with
    | none => rfl
    | some a => exact absurd ⟨a, text, ht, hf ▸ h t text ht⟩ hnone

theorem steady (h : Denotes r f) : Steady r := by
  intro t text ht
  rw [h.ofTree?_eq ⟨text, ht⟩]
  exact h t text ht

theorem map (h : Denotes r f) (g : α → β) : Denotes (g <$> r) fun t => (f t).map g :=
  fun t text ht => (h t text ht).map g

/-- A reader that goes by the first character is known by what it does there. -/
theorem of_start {k : Char → Reader α} (h : ∀ t c u, HasText t (c :: u) → ∀ rest, Delimited rest →
      outcome (k c) (c :: u ++ rest) = (f t).map (·, rest)) : Denotes (start >>= k) f := by
  intro t text ht s rest hs hrest
  obtain ⟨c, u, rfl, -⟩ := ht.exists_cons
  rw [outcome_bind_ok (start_cons hs)]
  exact h t c u ht rest hrest

end Denotes

/-- What a reader makes of a tree it makes of some text, so what is made of what it makes is the
same for the tree. -/
theorem ofTree?_map {r : Reader α} (h : Steady r) (g : α → β) (t : Tree) :
    Reader.ofTree? (g <$> r) t = (r.ofTree? t).map g := by
  by_cases ht : t.Written
  · exact (h.map g).ofTree?_eq ht
  · have hnone : ∀ {γ : Type} (r : Reader γ), r.ofTree? t = none := by
      intro γ r
      refine dif_neg ?_
      rintro ⟨a, text, htext, -⟩
      exact ht ⟨text, htext⟩
    rw [hnone, hnone]
    rfl

/-! ## Scalars -/

namespace HasText

variable {t : Tree} {c : Char} {u : List Char}

theorem of_quote (h : HasText t ('"' :: u)) :
    ∃ chars text, t = .string chars ∧ StringOf chars text ∧ u = text ++ ['"'] := by
  have hopens := h.opens
  cases t with
  | string chars =>
    generalize htext : '"' :: u = text at h
    cases h with
    | string h => exact ⟨chars, _, rfl, h, (List.cons.inj htext).2⟩
  | bool b => cases b <;> exact absurd hopens Bool.false_ne_true
  | null | number | array | object => exact absurd hopens Bool.false_ne_true

theorem of_null (h : HasText t ('n' :: u)) : t = .null ∧ u = ['u', 'l', 'l'] := by
  have hopens := h.opens
  cases t with
  | null =>
    generalize htext : 'n' :: u = text at h
    cases h with
    | null => exact ⟨rfl, (List.cons.inj htext).2⟩
  | bool b => cases b <;> exact absurd hopens Bool.false_ne_true
  | number | string | array | object => exact absurd hopens Bool.false_ne_true

theorem of_bool {b : Bool} (h : HasText t ((if b then 't' else 'f') :: u)) :
    t = .bool b ∧ (if b then 't' else 'f') :: u = (if b then "true" else "false").toList := by
  have hopens := h.opens
  cases t with
  | bool b' =>
    have hb : b' = b := by
      cases b <;> cases b' <;> first | rfl | exact absurd hopens Bool.false_ne_true
    subst hb
    generalize htext : (if b' then 't' else 'f') :: u = text at h
    cases h with
    | bool => exact ⟨rfl, rfl⟩
  | null | number | string | array | object =>
    cases b <;> exact absurd hopens Bool.false_ne_true

theorem of_list (h : HasText t ('[' :: u)) :
    ∃ (entries : List (Tree × List Char)) (body : List Char),
      t = .array (entries.map Prod.fst) ∧ u = body ++ [']'] ∧
      Listed true (entries.map Prod.snd) body ∧ ∀ e ∈ entries, HasText e.1 e.2 := by
  have hopens := h.opens
  cases t with
  | array items =>
    generalize htext : '[' :: u = text at h
    cases h with
    | array hbody h => exact ⟨_, _, rfl, (List.cons.inj htext).2, hbody, h⟩
  | bool b => cases b <;> exact absurd hopens Bool.false_ne_true
  | null | number | string | object => exact absurd hopens Bool.false_ne_true

theorem of_object (h : HasText t ('\x7b' :: u)) :
    ∃ (entries : List ((Option String × Tree) × MemberText)) (body : List Char),
      t = .object (entries.map Prod.fst) ∧ u = body ++ ['\x7d'] ∧
      Listed true (entries.map (·.2.text)) body ∧ (∀ e ∈ entries, StringOf e.1.1 e.2.name) ∧
      ∀ e ∈ entries, HasText e.1.2 e.2.value := by
  have hopens := h.opens
  cases t with
  | object members =>
    generalize htext : '\x7b' :: u = text at h
    cases h with
    | object hbody hnames h => exact ⟨_, _, rfl, (List.cons.inj htext).2, hbody, hnames, h⟩
  | bool b => cases b <;> exact absurd hopens Bool.false_ne_true
  | null | number | string | array => exact absurd hopens Bool.false_ne_true

theorem startsNumber_iff : (c == '-' || c.isDigit) = true ↔ c = '-' ∨ c.isDigit = true := by
  rw [Bool.or_eq_true, beq_iff_eq]

theorem of_digit (h : HasText t (c :: u)) (hc : c = '-' ∨ c.isDigit = true) :
    ∃ value, t = .number value ∧ NumberOf value (c :: u) := by
  have hne : ∀ d : Char, d ≠ '-' → d.isDigit = false → (c == d) = true → False :=
    fun d hminus hdigit heq => ne_of_startsNumber hc hminus hdigit (beq_iff_eq.1 heq)
  have hopens := h.opens
  cases t with
  | number value =>
    generalize htext : c :: u = text at h
    cases h with
    | number h => exact ⟨value, rfl, h⟩
  | bool b => cases b <;> exact (hne _ (by decide) (by decide) hopens).elim
  | null | string | array | object => exact (hne _ (by decide) (by decide) hopens).elim

end HasText

theorem StringOf.outcome_string {chars : Option String} {text : List Char}
    (h : StringOf chars text) (rest : List Char) :
    outcome Reader.string ('"' :: (text ++ '"' :: rest)) = chars.map (·, rest) := by
  cases chars with
  | none =>
    refine outcome_eq_none fun s t hread => ?_
    obtain ⟨cs, hspells, rfl, -⟩ := string_eq_ok h.stringText hread
    exact nomatch (h.spells (String.ofList cs)).2 (by rwa [String.toList_ofList])
  | some s =>
    refine outcome_of_ok ?_
    rw [((h.spells s).1 rfl).string_ok rest, String.ofList_toList]

theorem StringOf.outcome_decoded {chars : Option String} {text : List Char}
    (h : StringOf chars text) (decode : String → Except Cause α) (rest : List Char) :
    outcome (decoded decode) ('"' :: (text ++ '"' :: rest)) =
      (chars.bind fun s => (decode s).toOption).map (·, rest) := by
  unfold decoded
  rw [outcome_settled, outcome_bind, h.outcome_string]
  cases chars with
  | none => rfl
  | some s =>
    rw [Option.map_some, Option.bind_some, Option.bind_some]
    cases decode s with
    | error cause => rfl
    | ok a => rfl

namespace Tree

def text? : Tree → Option String
  | string chars => chars
  | _ => none

def double? : Tree → Option Double
  | number value => value.map Number.toDouble
  | _ => none

def natural32? : Tree → Option Nat
  | number (some (.natural n _)) => if n < Nat.pow 2 32 then some n else none
  | _ => none

def null? : Tree → Option Unit
  | null => some ()
  | _ => none

def optional? (f : Tree → Option α) : Tree → Option (Option α)
  | null => some none
  | t => (f t).map some

end Tree

theorem denotes_text : Denotes text Tree.text? := by
  refine .of_start fun t c u h rest _ => ?_
  split
  · obtain ⟨chars, text, rfl, hchars, rfl⟩ := h.of_quote
    rw [List.cons_append, List.append_assoc]
    exact hchars.outcome_string rest
  · next hc =>
    rw [outcome_mismatch]
    cases t with
    | string => exact absurd (beq_iff_eq.1 h.opens) hc
    | null | bool | number | array | object => rfl

theorem denotes_double : Denotes double Tree.double? := by
  refine .of_start fun t c u h rest hrest => ?_
  split
  · next hc =>
    obtain ⟨value, rfl, hvalue⟩ := h.of_digit hc
    rw [outcome_bind_pure, hvalue.reads rest hrest]
    cases value with
    | none => rfl
    | some m => rfl
  · next hc =>
    rw [outcome_mismatch]
    cases t with
    | number => exact absurd (HasText.startsNumber_iff.1 h.opens) hc
    | null | bool | string | array | object => rfl

theorem denotes_natural32 : Denotes natural32 Tree.natural32? := by
  refine .of_start fun t c u h rest hrest => ?_
  split
  · next hc =>
    obtain ⟨value, rfl, hvalue⟩ := h.of_digit hc
    rw [outcome_settled, outcome_bind, hvalue.reads rest hrest]
    cases value with
    | none => rfl
    | some m =>
      cases m with
      | double x => rfl
      | negative m hm => rfl
      | natural n hn =>
        show outcome (if n < Nat.pow 2 32 then pure n else _) rest =
          (if n < Nat.pow 2 32 then some n else none).map _
        split <;> rfl
  · next hc =>
    rw [outcome_mismatch]
    cases t with
    | number => exact absurd (HasText.startsNumber_iff.1 h.opens) hc
    | null | bool | string | array | object => rfl

theorem denotes_null : Denotes Reader.null Tree.null? := by
  refine .of_start fun t c u h rest _ => ?_
  split
  · obtain ⟨rfl, rfl⟩ := h.of_null
    exact outcome_of_ok (word_append rfl rest)
  · next hc =>
    rw [outcome_mismatch]
    cases t with
    | null => exact absurd (beq_iff_eq.1 h.opens) hc
    | bool | number | string | array | object => rfl

theorem denotes_optional {r : Reader α} {f : Tree → Option α} (hr : Denotes r f) :
    Denotes (optional r) (Tree.optional? f) := by
  refine .of_start fun t c u h rest hrest => ?_
  split
  · obtain ⟨rfl, rfl⟩ := h.of_null
    exact outcome_of_ok (bind_ok (word_append rfl rest))
  · next hc =>
    have hread := (hr t _ h).outcome_append h (List.forall_mem_nil _) hrest
    rw [List.nil_append] at hread
    have hvalue : Tree.optional? f t = (f t).map some := by
      cases t with
      | null => exact absurd (beq_iff_eq.1 h.opens) hc
      | bool | number | string | array | object => rfl
    rw [outcome_bind_pure, hread, hvalue, Option.map_map, Option.map_map]
    rfl

/-! ## Whole texts -/

theorem delimited_blanks {blanks : List Char} (h : AreBlanks blanks) : Delimited blanks :=
  fun c hc => .inl (h c (List.mem_of_mem_head? hc))

theorem skipBlanks_blanks {blanks : List Char} (h : AreBlanks blanks) : skipBlanks blanks = [] := by
  have hskip := skipBlanks_append h []
  rwa [List.append_nil] at hskip

namespace DocumentOf

variable {t : Tree} {text : String} (h : DocumentOf t text)

include h

/-- A document is read as what its tree is read as. -/
theorem run_toOption {r : Reader α} {f : Tree → Option α} (hr : Denotes r f) :
    (r.run text).toOption = f t := by
  obtain ⟨before, value, behind, htext, hbefore, hbehind, ht⟩ := h
  have hread := (hr t value ht).outcome_append ht hbefore (delimited_blanks hbehind)
  rw [← htext] at hread
  cases hf : f t with
  | some a =>
    rw [hf] at hread
    rw [run_of_ok (outcome_eq_some.1 hread) (skipBlanks_blanks hbehind)]
    rfl
  | none =>
    rw [hf] at hread
    cases hrun : r.run text with
    | error e => rfl
    | ok a =>
      obtain ⟨rest, hok⟩ := run_eq_ok hrun
      exact nomatch hread.symm.trans (outcome_of_ok hok)

theorem run_eq_ok_iff {r : Reader α} {f : Tree → Option α} (hr : Denotes r f) {a : α} :
    r.run text = .ok a ↔ f t = some a := by
  rw [← h.run_toOption hr]
  cases r.run text with
  | error e => exact ⟨(nomatch ·), (nomatch ·)⟩
  | ok b =>
    exact ⟨fun heq => congrArg some (Except.ok.inj heq),
      fun heq => congrArg Except.ok (Option.some.inj heq)⟩

theorem written : t.Written := by
  obtain ⟨_, value, _, _, _, _, ht⟩ := h
  exact ⟨value, ht⟩

/-- A document between brackets is the list that holds it. -/
theorem bracketed : DocumentOf (.array [t]) ("[" ++ text ++ "]") := by
  obtain ⟨before, value, behind, htext, hbefore, hbehind, ht⟩ := h
  have hbody : Listed true [value] ([] ++ (before ++ (value ++ behind))) :=
    .one leadsIn_nil hbefore hbehind
  refine ⟨[], _, [], ?_, List.forall_mem_nil _, List.forall_mem_nil _,
    @HasText.array [(t, value)] _ hbody (List.forall_mem_singleton.2 ht)⟩
  rw [String.toList_append, String.toList_append, htext, List.append_nil]
  rfl

end DocumentOf

end OrmDdl.Json
