import OrmDdl.Proofs.Json.LocalScalars
import OrmDdl.Proofs.Json.Spelling
/-!
# Well-formed values are passed

`passValue_reads`: a well-formed value that nobody wants is passed, whatever its numbers, its strings
and its depth, and nothing behind it is. The lists and objects in it are passed by the grammar: a
piece with blanks around it (`Padded`), and pieces with commas between them (`Separated`).
-/

namespace OrmDdl.Json

open Reader

/-! ## Numbers -/

theorem someDigits_ok {digits t : List Char} (h : AreDigits digits)
    (ht : ∀ c ∈ t.head?, c.isDigit = false) (cause : Cause) :
    someDigits cause (digits ++ t) = .ok (digits, t) := by
  obtain ⟨htake, hdrop⟩ := span_append h.2 ht
  obtain ⟨c, r, rfl⟩ := List.exists_cons_of_ne_nil h.1
  have hc : c.isDigit = true := h.2 c (List.mem_cons_self ..)
  show (if c.isDigit then Reader.digits (c :: r ++ t) else _) = _
  rw [if_pos hc, Reader.digits, htake, hdrop]

theorem wholeDigits_ok {whole t : List Char} (h : AreDigits whole)
    (hzero : whole.head? = some '0' → whole = ['0']) (ht : ∀ c ∈ t.head?, c.isDigit = false)
    (cause : Cause) : wholeDigits cause (whole ++ t) = .ok (whole, t) := by
  have hsecond : ∀ d r, whole ++ t = '0' :: d :: r → d.isDigit = false := by
    intro d r htext
    obtain ⟨c, w, rfl⟩ := List.exists_cons_of_ne_nil h.1
    obtain ⟨rfl, hrest⟩ := List.cons.inj htext
    obtain rfl : w = [] := (List.cons.inj (hzero rfl)).2
    exact ht d (congrArg List.head? (show t = d :: r from hrest))
  rw [wholeDigits_eq hsecond]
  exact someDigits_ok h ht cause

theorem exponentDigits_ok {mark : Char} {sign digits t : List Char} (hmark : mark = 'e' ∨ mark = 'E')
    (hsign : sign = [] ∨ sign = ['+'] ∨ sign = ['-']) (h : AreDigits digits)
    (ht : ∀ c ∈ t.head?, c.isDigit = false) (cause : Cause) :
    ∃ exponent, exponentDigits cause (mark :: (sign ++ digits) ++ t) = .ok (exponent, t) := by
  have hdigits := someDigits_ok h ht cause
  obtain ⟨c, r, rfl⟩ := List.exists_cons_of_ne_nil h.1
  have hc : c.isDigit = true := h.2 c (List.mem_cons_self ..)
  have hplus : c ≠ '+' := by
    rintro rfl
    exact absurd hc (by decide)
  have hminus : c ≠ '-' := by
    rintro rfl
    exact absurd hc (by decide)
  rcases hsign with rfl | rfl | rfl
  · refine ⟨(false, c :: r), ?_⟩
    have hnone : exponentDigits cause (mark :: (c :: r ++ t)) =
        ((false, ·) <$> someDigits cause) (c :: r ++ t) := by
      rcases hmark with rfl | rfl <;> simp [exponentDigits, hplus, hminus]
    exact hnone.trans (map_ok hdigits)
  · refine ⟨(false, c :: r), ?_⟩
    rcases hmark with rfl | rfl <;> exact map_ok hdigits
  · refine ⟨(true, c :: r), ?_⟩
    rcases hmark with rfl | rfl <;> exact map_ok hdigits

theorem not_numeric_of_delimited {rest : List Char} (h : Delimited rest) :
    ∀ c ∈ rest.head?, c.isDigit = false ∧ c ≠ '.' ∧ c ≠ 'e' ∧ c ≠ 'E' := by
  intro c hc
  obtain ⟨t, rfl⟩ := List.head?_eq_some_iff.1 hc
  obtain ⟨hdigit, hpoint, he, hE, -⟩ := h.head_ne
  exact ⟨hdigit, hpoint, he, hE⟩

/-! Each part of a number is read up to the next, from the last one on. -/

theorem exponentPart_ok {exponent rest : List Char} (hrest : Delimited rest)
    (h : exponent = [] ∨ ∃ mark sign digits, exponent = mark :: (sign ++ digits) ∧
      (mark = 'e' ∨ mark = 'E') ∧ (sign = [] ∨ sign = ['+'] ∨ sign = ['-']) ∧ AreDigits digits)
    (cause : Cause) : ∃ x, exponentDigits cause (exponent ++ rest) = .ok (x, rest) ∧
      ∀ c ∈ (exponent ++ rest).head?, c.isDigit = false ∧ c ≠ '.' := by
  have hnumeric := not_numeric_of_delimited hrest
  obtain rfl | ⟨mark, sign, digits, rfl, hmark, hsign, hdigits⟩ := h
  · refine ⟨(false, []), ?_, fun c hc => ⟨(hnumeric c hc).1, (hnumeric c hc).2.1⟩⟩
    show exponentDigits cause rest = _
    unfold exponentDigits
    split
    · exact absurd rfl (hnumeric 'e' rfl).2.2.1
    · exact absurd rfl (hnumeric 'E' rfl).2.2.2
    · rfl
  · obtain ⟨x, hx⟩ := exponentDigits_ok hmark hsign hdigits (fun c hc => (hnumeric c hc).1) cause
    refine ⟨x, hx, ?_⟩
    rintro c ⟨⟩
    rcases hmark with rfl | rfl <;> decide

theorem fractionPart_ok {fraction t : List Char}
    (h : fraction = [] ∨ ∃ digits, fraction = '.' :: digits ∧ AreDigits digits)
    (ht : ∀ c ∈ t.head?, c.isDigit = false ∧ c ≠ '.') (cause : Cause) :
    ∃ digits, fractionDigits cause (fraction ++ t) = .ok (digits, t) ∧
      ∀ c ∈ (fraction ++ t).head?, c.isDigit = false := by
  obtain rfl | ⟨digits, rfl, hdigits⟩ := h
  · refine ⟨[], ?_, fun c hc => (ht c hc).1⟩
    rw [List.nil_append]
    unfold fractionDigits
    split
    · exact absurd rfl (ht '.' rfl).2
    · rfl
  · refine ⟨digits, someDigits_ok hdigits (fun c hc => (ht c hc).1) cause, ?_⟩
    rintro c ⟨⟩
    decide

theorem signPart_ok {sign whole : List Char} (h : sign = [] ∨ sign = ['-']) (hwhole : AreDigits whole)
    (t : List Char) : ∃ negative, minus (sign ++ (whole ++ t)) = .ok (negative, whole ++ t) := by
  obtain rfl | rfl := h
  · obtain ⟨c, r, rfl⟩ := List.exists_cons_of_ne_nil hwhole.1
    have hc : c ≠ '-' := by
      rintro rfl
      exact absurd (hwhole.2 '-' (List.mem_cons_self ..)) (by decide)
    exact ⟨false, by simp [minus, hc]⟩
  · exact ⟨true, rfl⟩

/-- The text of a number is taken apart, up to the delimiter behind it. -/
theorem NumberText.numeral_ok {text rest : List Char} (h : NumberText text) (hrest : Delimited rest)
    (cause : Cause) : ∃ n, numeral cause (text ++ rest) = .ok (n, rest) := by
  obtain ⟨sign, whole, fraction, exponent, rfl, hsign, hwhole, hzero, hfraction, hexponent⟩ := h
  obtain ⟨x, hx, hmark⟩ := exponentPart_ok hrest hexponent cause
  obtain ⟨y, hy, hpoint⟩ := fractionPart_ok hfraction hmark cause
  obtain ⟨negative, hnegative⟩ := signPart_ok hsign hwhole (fraction ++ (exponent ++ rest))
  refine ⟨⟨negative, whole, y, x.1, x.2⟩, ?_⟩
  simp only [List.append_assoc]
  unfold numeral
  rw [bind_ok hnegative, bind_ok (wholeDigits_ok hwhole hzero hpoint cause), bind_ok hy, bind_ok hx]
  rfl

/-- A number starts with its sign or a digit. -/
theorem NumberText.exists_cons {text : List Char} (h : NumberText text) :
    ∃ c r, text = c :: r ∧ (c = '-' ∨ c.isDigit = true) := by
  obtain ⟨sign, whole, fraction, exponent, rfl, hsign, hwhole, -⟩ := h
  obtain rfl | rfl := hsign
  · obtain ⟨c, r, rfl⟩ := List.exists_cons_of_ne_nil hwhole.1
    exact ⟨c, _, rfl, .inr (hwhole.2 c (List.mem_cons_self ..))⟩
  · exact ⟨'-', _, rfl, .inl rfl⟩

theorem ne_of_startsNumber {c d : Char} (hc : c = '-' ∨ c.isDigit = true) (hminus : d ≠ '-')
    (hdigit : d.isDigit = false) : c ≠ d := by
  rintro rfl
  obtain rfl | hc := hc
  · exact hminus rfl
  · exact nomatch hc.symm.trans hdigit

/-! ## Pieces between commas -/

/-- A piece that the reader passes, with blanks around it. It does not start like the end of an
object. -/
structure Padded (r : Reader Unit) (text : List Char) : Prop where
  parts : ∃ before piece behind, text = before ++ (piece ++ behind) ∧ AreBlanks before ∧
    AreBlanks behind ∧ Reads r piece () ∧ piece.head? ≠ some '\x7d'

/-- Pieces with commas between them. -/
inductive Separated (r : Reader Unit) : List Char → Prop
  | one {text : List Char} (h : Padded r text) : Separated r text
  | more {text rest : List Char} (h : Padded r text) (hrest : Separated r rest) :
      Separated r (text ++ ',' :: rest)

theorem delimited_blanks_append {blanks : List Char} (h : AreBlanks blanks) {c : Char}
    (hc : c = ',' ∨ IsClosing c) (t : List Char) : Delimited (blanks ++ c :: t) := by
  cases blanks with
  | nil => exact delimited_cons (.inr hc) t
  | cons b r => exact delimited_cons (.inl (h b (List.mem_cons_self ..))) _

theorem skipBlanks_blanks_append {blanks : List Char} (h : AreBlanks blanks) {c : Char}
    (hc : isBlank c = false) (t : List Char) : skipBlanks (blanks ++ c :: t) = c :: t := by
  rw [skipBlanks_append h, skipBlanks_of_not_blank hc]

theorem advance_cons (c : Char) (s : List Char) : advance (c :: s) = .ok ((), s) := rfl

theorem length_skipBlanks_le (s : List Char) : (skipBlanks s).length ≤ s.length :=
  List.length_dropWhile_le ..

section

variable {r : Reader Unit} {close : Char} (orEnd atEnd : Cause)

/-- A round of a list passes a piece, and the comma or the bracket behind it. -/
theorem Padded.round_ok {text s t : List Char} {c : Char} (h : Padded r text)
    (hclose : IsClosing close) (hc : c = ',' ∨ c = close)
    (hs : skipBlanks s = skipBlanks (text ++ c :: t)) :
    (do r; if ← passSeparator close orEnd atEnd then return .more () else return .done () :
      Reader (Step Unit Unit)) s =
        .ok (if c = ',' then .more () else .done (), t) ∧ t.length < s.length := by
  obtain ⟨before, piece, behind, rfl, hbefore, hbehind, hreads, -⟩ := h.parts
  have hdelimiter : c = ',' ∨ IsClosing c := by
    obtain rfl | rfl := hc
    · exact .inl rfl
    · exact .inr hclose
  have hblank : isBlank c = false := by
    rcases hdelimiter with rfl | rfl | rfl <;> decide
  have hskip : skipBlanks s = piece ++ (behind ++ c :: t) := by
    rw [hs, List.append_assoc, skipBlanks_append hbefore, List.append_assoc, hreads.skipBlanks_eq]
  have hpiece := hreads.ok s _ hskip (delimited_blanks_append hbehind hdelimiter t)
  constructor
  · rw [bind_ok hpiece]
    unfold passSeparator
    rw [bind_assoc, bind_ok (next?_cons (skipBlanks_blanks_append hbehind hblank t))]
    by_cases hcomma : c = ','
    · subst hcomma
      rfl
    · obtain rfl : c = close := hc.resolve_left hcomma
      simp only [if_neg hcomma, if_true]
      rfl
  · have hle := length_skipBlanks_le s
    rw [hskip, List.length_append, List.length_append, List.length_cons] at hle
    omega

/-- Pieces between commas are passed, and the bracket behind them. -/
theorem Separated.untilDone_ok {text : List Char} (h : Separated r text) (hclose : IsClosing close)
    (rest : List Char) : ∀ s, skipBlanks s = skipBlanks (text ++ close :: rest) →
      untilDone (fun _ => do
        r; if ← passSeparator close orEnd atEnd then return .more () else return .done ()) () s =
        .ok ((), rest) := by
  have hcomma : close ≠ ',' := by rcases hclose with rfl | rfl <;> decide
  induction h with
  | one h =>
    intro s hs
    have hround := (h.round_ok orEnd atEnd hclose (.inr rfl) hs).1
    rw [if_neg hcomma] at hround
    exact untilDone_of_done hround
  | more h _ ih =>
    intro s hs
    rw [List.append_assoc, List.cons_append] at hs
    obtain ⟨hround, hlength⟩ := h.round_ok orEnd atEnd hclose (.inl rfl) hs
    exact untilDone_of_more hround hlength (ih _ rfl)

theorem Separated.skipBlanks_eq {text : List Char} (h : Separated r text) (t : List Char) :
    ∃ c u, skipBlanks (text ++ t) = c :: u ∧ isBlank c = false ∧ c ≠ ']' ∧ c ≠ '\x7d' := by
  have hpadded : ∀ {text : List Char}, Padded r text → ∀ t, ∃ c u,
      skipBlanks (text ++ t) = c :: u ∧ isBlank c = false ∧ c ≠ ']' ∧ c ≠ '\x7d' := by
    intro text h t
    obtain ⟨before, piece, behind, rfl, hbefore, -, hreads, hhead⟩ := h.parts
    obtain ⟨c, u, rfl, hc, hlist⟩ := hreads.opens
    refine ⟨c, u ++ (behind ++ t), ?_, hc, hlist, fun hobject => hhead (congrArg some hobject)⟩
    rw [List.append_assoc, List.append_assoc, skipBlanks_append hbefore]
    exact skipBlanks_of_not_blank hc _
  cases h with
  | one h => exact hpadded h t
  | @more text rest h _ =>
    rw [List.append_assoc]
    exact hpadded h _

/-- Between brackets, pieces between commas are passed. -/
theorem Separated.passElements_ok {text : List Char} (h : Separated r text)
    (hclose : IsClosing close) (o : Char) (rest : List Char) :
    passElements close orEnd atEnd r (o :: (text ++ close :: rest)) = .ok ((), rest) := by
  obtain ⟨c, u, hskip, hc, hlist, hobject⟩ := h.skipBlanks_eq (close :: rest)
  have hne : c ≠ close := by rcases hclose with rfl | rfl <;> assumption
  have hrounds := h.untilDone_ok orEnd atEnd hclose rest (c :: u)
    (by rw [hskip, skipBlanks_of_not_blank hc])
  unfold passElements
  rw [bind_ok (advance_cons o _), bind_ok (next?_cons hskip)]
  simp only [if_neg hne]
  exact hrounds

/-- Between brackets there may be nothing but blanks. -/
theorem passElements_blanks {blanks : List Char} (h : AreBlanks blanks) (hclose : IsClosing close)
    (o : Char) (rest : List Char) :
    passElements close orEnd atEnd r (o :: (blanks ++ close :: rest)) = .ok ((), rest) := by
  have hblank : isBlank close = false := by rcases hclose with rfl | rfl <;> decide
  unfold passElements
  rw [bind_ok (advance_cons o _),
    bind_ok (next?_cons (skipBlanks_blanks_append h hblank rest))]
  simp only [if_true]
  rfl

end

/-! ## Values -/

/-- The first character of a value that nobody wants says how to pass it. -/
theorem passNested_eq (k : Nat) {s t : List Char} {c : Char} : skipBlanks s = c :: t →
    passNested (k + 1) s = (match c with
      | 'n' => word "null"
      | 't' => word "true"
      | 'f' => word "false"
      | '"' => passString
      | '[' => passElements ']' .expectedListEnd .endInList (passNested k)
      | '\x7b' =>
        passElements '\x7d' .expectedObjectEnd .endInObject (do passName; passNested k)
      | c =>
        if c = '-' ∨ c.isDigit then do
          let _ ← numeral .invalidNumber
          return
        else failNext .expectedValue : Reader Unit) (c :: t) := by
  intro hs
  rw [passNested]
  exact bind_ok (start_cons hs)

/-- The texts of the grammar are passed, at a depth that they do not reach. -/
def Passed : Kind → List Char → Prop
  | .array, text | .value, text =>
    ∀ k, text.length < k → Reads (passNested k) text () ∧ text.head? ≠ some '\x7d'
  | .element, text => ∀ k, text.length < k → Padded (passNested k) text
  | .member, text => ∀ k, text.length < k → Padded (do passName; passNested k) text
  | .elements, text => ∀ k, text.length < k → Separated (passNested k) text
  | .members, text => ∀ k, text.length < k → Separated (do passName; passNested k) text

/-- A value is passed if it is where its first character comes next. -/
theorem passed_of_cons {c : Char} {r : List Char} (hblank : isBlank c = false) (hlist : c ≠ ']')
    (hobject : c ≠ '\x7d') (h : ∀ k, r.length < k → ∀ rest, Delimited rest →
      ∀ s, skipBlanks s = c :: (r ++ rest) → passNested (k + 1) s = .ok ((), rest)) :
    Passed .value (c :: r) := by
  intro k hk
  obtain ⟨k, rfl⟩ := Nat.exists_eq_add_one_of_ne_zero (Nat.ne_zero_of_lt hk)
  refine ⟨⟨⟨c, r, rfl, hblank, hlist⟩, fun s rest hs hd => ?_⟩, fun hhead => ?_⟩
  · exact h k (Nat.lt_of_succ_lt_succ hk) rest hd s hs
  · exact hobject (Option.some.inj hhead)

theorem passed_word {w : String} (hw : w ∈ ["null", "true", "false"]) :
    Passed .value w.toList := by
  simp only [List.mem_cons, List.not_mem_nil, or_false] at hw
  rcases hw with rfl | rfl | rfl
  all_goals
    refine passed_of_cons (by decide) (by decide) (by decide) fun k _ rest _ s hs => ?_
    exact (passNested_eq k hs).trans (word_append rfl rest)

theorem passed_number {text : List Char} (h : NumberText text) : Passed .value text := by
  obtain ⟨c, r, rfl, hc⟩ := h.exists_cons
  have hfirst : ∀ d : Char, d ≠ '-' → d.isDigit = false → c ≠ d :=
    fun d => ne_of_startsNumber hc
  have hblank : isBlank c = false := by
    simp only [isBlank, decide_eq_false_iff_not, not_or]
    exact ⟨hfirst _ (by decide) (by decide), hfirst _ (by decide) (by decide),
      hfirst _ (by decide) (by decide), hfirst _ (by decide) (by decide)⟩
  refine passed_of_cons hblank (hfirst _ (by decide) (by decide))
    (hfirst _ (by decide) (by decide)) fun k _ rest hd s hs => ?_
  obtain ⟨n, hn⟩ := h.numeral_ok hd .invalidNumber
  refine (passNested_eq k hs).trans ?_
  split
  all_goals first
    | exact absurd rfl (hfirst _ (by decide) (by decide))
    | skip
  rw [if_pos hc]
  exact bind_ok hn

theorem passed_string {name : List Char} (h : StringText name) :
    Passed .value ('"' :: (name ++ ['"'])) := by
  refine passed_of_cons (by decide) (by decide) (by decide) fun k _ rest _ s hs => ?_
  rw [List.append_assoc] at hs
  exact (passNested_eq k hs).trans (h.passString_ok rest)

/-- A value in brackets is passed if what stands between them is. -/
theorem passed_bracketed {o close : Char} {body : List Char} {r : Nat → Reader Unit}
    {orEnd atEnd : Cause} (ho : IsOpening o) (hnested : ∀ k {s t : List Char},
      skipBlanks s = o :: t → passNested (k + 1) s = passElements close orEnd atEnd (r k) (o :: t))
    (hbody : ∀ k, body.length < k → ∀ rest,
      passElements close orEnd atEnd (r k) (o :: (body ++ close :: rest)) = .ok ((), rest)) :
    Passed .value (o :: (body ++ [close])) := by
  have hfirst : isBlank o = false ∧ o ≠ ']' ∧ o ≠ '\x7d' := by rcases ho with rfl | rfl <;> decide
  refine passed_of_cons hfirst.1 hfirst.2.1 hfirst.2.2 fun k hk rest _ s hs => ?_
  rw [List.length_append, List.length_singleton] at hk
  rw [List.append_assoc] at hs
  exact (hnested k hs).trans (hbody k (by omega) rest)

theorem colon_ok {gap : List Char} (h : AreBlanks gap) (t : List Char) :
    colon (gap ++ ':' :: t) = .ok ((), t) := by
  unfold colon
  rw [bind_ok (next?_cons (skipBlanks_blanks_append h (by decide) t))]
  rfl

/-- A member without blanks around it: its name, the blanks on both sides of the colon, its value. -/
def memberPiece (name gap lead value : List Char) : List Char :=
  '"' :: (name ++ '"' :: (gap ++ ':' :: (lead ++ value)))

theorem memberPiece_append (name gap lead value rest : List Char) :
    memberPiece name gap lead value ++ rest =
      '"' :: (name ++ '"' :: (gap ++ ':' :: (lead ++ (value ++ rest)))) := by
  simp [memberPiece]

/-- A member is passed as a name and a piece. -/
theorem Padded.member {before name gap text : List Char} {r : Reader Unit}
    (hbefore : AreBlanks before) (hname : StringText name) (hgap : AreBlanks gap)
    (h : Padded r text) :
    Padded (do passName; r) (before ++ '"' :: (name ++ '"' :: (gap ++ ':' :: text))) := by
  obtain ⟨lead, piece, behind, rfl, hlead, hbehind, hreads, -⟩ := h.parts
  refine ⟨before, memberPiece name gap lead piece, behind, ?_, hbefore, hbehind,
    ⟨⟨'"', _, rfl, by decide, by decide⟩, fun s rest hs hd => ?_⟩, by simp [memberPiece]⟩
  · rw [memberPiece_append]
  have hpassName : passName s = .ok ((), lead ++ (piece ++ rest)) := by
    rw [memberPiece_append] at hs
    unfold passName
    rw [bind_ok (next?_cons hs)]
    show (passString >>= fun _ => colon) _ = _
    rw [bind_ok (hname.passString_ok _)]
    exact colon_ok hgap _
  rw [bind_ok hpassName]
  refine hreads.ok _ rest ?_ hd
  rw [skipBlanks_append hlead, hreads.skipBlanks_eq]

theorem Derives.passed {kind : Kind} {text : List Char} (h : Derives kind text) :
    Passed kind text := by
  induction h with
  | word hw => exact passed_word hw
  | number h => exact passed_number h
  | string h => exact passed_string h
  | ofArray _ ih => exact ih
  | emptyObject h =>
    exact passed_bracketed (.inr rfl) (fun k _ _ hs => passNested_eq k hs) fun k _ rest =>
      passElements_blanks _ _ h (.inr rfl) _ rest
  | object _ ih =>
    exact passed_bracketed (.inr rfl) (fun k _ _ hs => passNested_eq k hs) fun k hk rest =>
      (ih k hk).passElements_ok _ _ (.inr rfl) _ rest
  | emptyArray h =>
    exact passed_bracketed (.inl rfl) (fun k _ _ hs => passNested_eq k hs) fun k _ rest =>
      passElements_blanks _ _ h (.inl rfl) _ rest
  | array _ ih =>
    exact passed_bracketed (.inl rfl) (fun k _ _ hs => passNested_eq k hs) fun k hk rest =>
      (ih k hk).passElements_ok _ _ (.inl rfl) _ rest
  | element hbefore _ hbehind ih =>
    intro k hk
    simp only [List.length_append] at hk
    obtain ⟨hreads, hhead⟩ := ih k (by omega)
    exact ⟨_, _, _, rfl, hbefore, hbehind, hreads, hhead⟩
  | oneElement _ ih => exact fun k hk => .one (ih k hk)
  | moreElements _ _ ih ihrest =>
    intro k hk
    rw [List.length_append, List.length_cons] at hk
    exact .more (ih k (by omega)) (ihrest k (by omega))
  | member hbefore hname hbehind _ ih =>
    intro k hk
    simp only [List.length_append, List.length_cons] at hk
    exact .member hbefore hname hbehind (ih k (by omega))
  | oneMember _ ih => exact fun k hk => .one (ih k hk)
  | moreMembers _ _ ih ihrest =>
    intro k hk
    rw [List.length_append, List.length_cons] at hk
    exact .more (ih k (by omega)) (ihrest k (by omega))

/-- A value that nobody wants is passed, and nothing behind it is. -/
theorem passValue_reads {text : List Char} (h : Derives .value text) : Reads passValue text () := by
  have hpassed := h.passed
  refine ⟨(hpassed _ (Nat.lt_succ_self _)).1.opens, fun s rest hs hd => ?_⟩
  have hle := length_skipBlanks_le s
  rw [hs, List.length_append] at hle
  exact (hpassed (s.length + 1) (by omega)).1.ok s rest hs hd

end OrmDdl.Json
