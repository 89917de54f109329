import Mathlib.Data.List.TakeWhile
import OrmDdl.Json.Characters
import OrmDdl.Json.Numeral
import OrmDdl.Json.Print
import OrmDdl.Proofs.Json.Reading
/-!
# Strings and numbers are read back

`string_stringChars`: a printed string is read as it was, whatever characters it holds.
`number_chars`: so is a printed number. For whole numbers of 64 bits this is a theorem; a double is
required to be one whose text reads back (`Double.ReadsBack`), since a reader that scales a
significand by one power of ten misses some.
-/

namespace OrmDdl

namespace Json

namespace Reader

variable {α β : Type}

/-! ## Strings -/

theorem hexValue?_digitChar : ∀ k < 16, Text.hexValue? (Nat.digitChar k) = some k := by decide

theorem hexUnit_digitChar {m n : Nat} (hm : m < 16) (hn : n < 16) (t : List Char) :
    hexUnit ('0' :: '0' :: Nat.digitChar m :: Nat.digitChar n :: t) = .ok (m * 16 + n, t) := by
  have h0 : Text.hexValue? '0' = some 0 := by decide
  simp only [hexUnit, h0, hexValue?_digitChar m hm, hexValue?_digitChar n hn]
  simp

/-- Below the surrogates an escape stands for the character of its number. -/
theorem unitEscape_of_lt {u : Nat} {s t : List Char} (h : hexUnit s = .ok (u, t))
    (hu : u < 0xD800) : unitEscape s = .ok (Char.ofNat u, t) := by
  have ht : isTrailing u = false := by simp only [isTrailing]; simp; omega
  have hl : isLeading u = false := by simp only [isLeading]; simp; omega
  unfold unitEscape
  rw [bind_ok h]
  simp only [ht, hl]
  rfl

theorem stringChar_escapedChar (c : Char) (t : List Char) :
    stringChar (escapedChar c ++ t) = .ok (some c, t) := by
  unfold escapedChar
  by_cases h₁ : c = '"'
  · subst h₁; rfl
  by_cases h₂ : c = '\\'
  · subst h₂; rfl
  by_cases h₃ : c = '\x08'
  · subst h₃; rfl
  by_cases h₄ : c = '\x0c'
  · subst h₄; rfl
  by_cases h₅ : c = '\n'
  · subst h₅; rfl
  by_cases h₆ : c = '\r'
  · subst h₆; rfl
  by_cases h₇ : c = '\t'
  · subst h₇; rfl
  simp only [h₁, h₂, h₃, h₄, h₅, h₆, h₇, if_false]
  by_cases h₈ : c.toNat < 0x20
  · -- a control character is written by its number
    have hu := hexUnit_digitChar (m := c.toNat / 16) (n := c.toNat % 16) (by omega) (by omega) t
    have hc : c.toNat / 16 * 16 + c.toNat % 16 = c.toNat := by omega
    rw [hc] at hu
    rw [if_pos h₈]
    show (some <$> unitEscape) ('0' :: '0' :: Nat.digitChar (c.toNat / 16) ::
      Nat.digitChar (c.toNat % 16) :: t) = _
    rw [map_ok (unitEscape_of_lt hu (by omega)), Char.ofNat_toNat]
  · rw [if_neg h₈]
    show stringChar (c :: t) = _
    have hplain : stringChar (c :: t) =
        if c.toNat < 0x20 then failNext .controlCharacter (c :: t) else .ok (some c, t) := by
      simp [stringChar, h₂]
    rw [hplain, if_neg h₈]

theorem escapedChar_ne_nil (c : Char) : escapedChar c ≠ [] := by
  unfold escapedChar
  repeat' split
  all_goals simp

/-- The characters of a string up to its closing quote, with those read before. -/
theorem string_go (cs : List Char) : ∀ read rest : List Char,
    untilDone stringStep read (cs.flatMap escapedChar ++ '"' :: rest) =
      .ok (String.ofList (read.reverse ++ cs), rest) := by
  induction cs with
  | nil =>
    intro read rest
    rw [List.append_nil]
    exact untilDone_of_done rfl
  | cons c cs ih =>
    intro read rest
    have hlen := List.length_pos_iff.2 (escapedChar_ne_nil c)
    have hstep : stringStep read (escapedChar c ++ (cs.flatMap escapedChar ++ '"' :: rest)) =
        .ok (.more (c :: read), cs.flatMap escapedChar ++ '"' :: rest) := by
      unfold stringStep
      rw [bind_ok (stringChar_escapedChar c _)]
      rfl
    rw [List.flatMap_cons, List.append_assoc]
    refine untilDone_of_more hstep ?_ ?_
    · simp only [List.length_append]
      omega
    · rw [ih (c :: read) rest, List.reverse_cons, List.append_assoc]
      rfl

theorem string_stringChars (s : String) (rest : List Char) :
    string (stringChars s ++ rest) = .ok (s, rest) := by
  unfold string stringChars
  rw [List.cons_append, List.append_assoc,
    bind_ok (show advance ('"' :: _) = .ok ((), _) from rfl)]
  show untilDone stringStep [] (s.toList.flatMap escapedChar ++ '"' :: rest) = _
  rw [string_go, List.reverse_nil, List.nil_append, String.ofList_toList]

/-! ## What follows a number -/

/-- No character of a numeral stands behind a delimiter. -/
theorem Delimited.head_ne {c : Char} {t : List Char} (h : Delimited (c :: t)) :
    c.isDigit = false ∧ c ≠ '.' ∧ c ≠ 'e' ∧ c ≠ 'E' ∧ c ≠ '+' ∧ c ≠ '-' := by
  have hc := h c rfl
  simp only [isBlank, decide_eq_true_eq] at hc
  rcases hc with (rfl | rfl | rfl | rfl) | rfl | rfl | rfl <;> decide

/-- What the reader takes of a text it also takes when a delimiter follows, and leaves the rest. -/
def Extensible (r : Reader α) : Prop :=
  ∀ s t rest a, r s = .ok (a, t) → Delimited rest → r (s ++ rest) = .ok (a, t ++ rest)

namespace Extensible

theorem pure (a : α) : Extensible (Pure.pure a : Reader α) := by
  intro s t rest b h _
  cases h
  rfl

theorem bind {x : Reader α} {f : α → Reader β} (hx : Extensible x)
    (hf : ∀ a, Extensible (f a)) : Extensible (x >>= f) := by
  intro s u rest b h hd
  obtain ⟨a, t, ha, hb⟩ := bind_eq_ok h
  rw [bind_ok (hx s t rest a ha hd)]
  exact hf a t u rest b hb hd

theorem map {x : Reader α} (hx : Extensible x) (f : α → β) : Extensible (f <$> x) := by
  rw [map_eq_pure_bind]
  exact hx.bind fun a => pure (f a)

end Extensible

theorem takeWhile_dropWhile_append {s rest : List Char} (hd : Delimited rest) :
    (s ++ rest).takeWhile Char.isDigit = s.takeWhile Char.isDigit ∧
      (s ++ rest).dropWhile Char.isDigit = s.dropWhile Char.isDigit ++ rest := by
  induction s with
  | nil =>
    match rest with
    | [] => exact ⟨rfl, rfl⟩
    | c :: t => simp [hd.head_ne.1]
  | cons c s ih =>
    by_cases hc : c.isDigit
    · simp [hc, ih]
    · simp [hc]

theorem extensible_digits : Extensible digits := by
  intro s t rest a h hd
  cases h
  unfold digits
  rw [(takeWhile_dropWhile_append hd).1, (takeWhile_dropWhile_append hd).2]

theorem extensible_someDigits (cause : Cause) : Extensible (someDigits cause) := by
  intro s t rest a h hd
  match s with
  | [] => cases h
  | c :: s =>
    by_cases hc : c.isDigit
    · simp only [someDigits, hc, if_true, List.cons_append] at h ⊢
      exact extensible_digits (c :: s) t rest a h hd
    · simp only [someDigits, hc] at h
      cases h

theorem wholeDigits_eq {cause : Cause} {s : List Char}
    (h : ∀ d r, s = '0' :: d :: r → d.isDigit = false) :
    wholeDigits cause s = someDigits cause s := by
  unfold wholeDigits
  split
  · rename_i d r
    have hd := h d r rfl
    simp [hd, someDigits, digits]
  · rfl

theorem extensible_wholeDigits (cause : Cause) : Extensible (wholeDigits cause) := by
  intro s t rest a h hd
  have h0 : ∀ d r, s = '0' :: d :: r → d.isDigit = false := by
    rintro d r rfl
    cases hdig : d.isDigit with
    | false => rfl
    | true =>
      simp only [wholeDigits, hdig, if_true] at h
      cases h
  have h1 : ∀ d r, s ++ rest = '0' :: d :: r → d.isDigit = false := by
    intro d r hs
    match s, hs with
    | [], _ => cases h
    | [_], hs =>
      obtain ⟨rfl, rfl⟩ := List.cons.inj hs
      exact hd.head_ne.1
    | _ :: e :: u, hs =>
      obtain ⟨rfl, he⟩ := List.cons.inj hs
      obtain ⟨rfl, -⟩ := List.cons.inj he
      exact h0 _ _ rfl
  rw [wholeDigits_eq h0] at h
  rw [wholeDigits_eq h1]
  exact extensible_someDigits cause s t rest a h hd

/-- A part that a mark opens, and that is absent where the mark is. -/
theorem extensible_of_mark {r : Reader α} (a₀ : α) (mark : Char → Bool)
    (hmark : ∀ c t, Delimited (c :: t) → mark c = false)
    (absent : ∀ s, (∀ c ∈ s.head?, mark c = false) → r s = .ok (a₀, s))
    (present : ∀ c s t rest a, mark c = true → r (c :: s) = .ok (a, t) →
      Delimited rest → r (c :: (s ++ rest)) = .ok (a, t ++ rest)) : Extensible r := by
  intro s t rest a h hd
  match s with
  | [] =>
    have hrest : ∀ c ∈ rest.head?, mark c = false := by
      intro c hc
      match rest, hc, hd with
      | d :: u, hc, hd =>
        cases hc
        exact hmark _ u hd
    rw [absent [] (by simp)] at h
    cases h
    exact absent rest hrest
  | c :: s =>
    cases hc : mark c with
    | true => exact present c s t rest a hc h hd
    | false =>
      rw [absent (c :: s) (by simp [hc])] at h
      cases h
      exact absent _ (by simp [hc])

theorem extensible_minus : Extensible minus := by
  refine extensible_of_mark false (· == '-') ?_ ?_ ?_
  · intro c t h
    simpa using h.head_ne.2.2.2.2.2
  · intro s hs
    unfold minus
    split
    · simp at hs
    · rfl
  · intro c s t rest a hc h _
    rw [eq_of_beq hc] at h ⊢
    cases h
    rfl

theorem extensible_fractionDigits (cause : Cause) : Extensible (fractionDigits cause) := by
  refine extensible_of_mark [] (· == '.') ?_ ?_ ?_
  · intro c t h
    simpa using h.head_ne.2.1
  · intro s hs
    unfold fractionDigits
    split
    · simp at hs
    · rfl
  · intro c s t rest a hc h hd
    rw [eq_of_beq hc] at h ⊢
    exact extensible_someDigits cause s t rest a h hd

theorem extensible_exponentDigits (cause : Cause) : Extensible (exponentDigits cause) := by
  have hsome (b : Bool) : Extensible ((b, ·) <$> someDigits cause) :=
    (extensible_someDigits cause).map (b, ·)
  refine extensible_of_mark (false, []) (fun c => c == 'e' || c == 'E') ?_ ?_ ?_
  · intro c t h
    have hc := h.head_ne
    simp [hc.2.2.1, hc.2.2.2.1]
  · intro s hs
    unfold exponentDigits
    split
    · simp at hs
    · simp at hs
    · rfl
  · intro c s t rest a hc h hd
    have hc : c = 'e' ∨ c = 'E' := by simpa using hc
    -- the digits, or the sign before them, are there without the rest already
    match s with
    | [] => rcases hc with rfl | rfl <;> cases h
    | d :: s =>
      by_cases hp : d = '+'
      · subst hp
        rcases hc with rfl | rfl <;> exact hsome false s t rest a h hd
      by_cases hm : d = '-'
      · subst hm
        rcases hc with rfl | rfl <;> exact hsome true s t rest a h hd
      · have hu : ∀ u, exponentDigits cause (c :: d :: u) =
            ((false, ·) <$> someDigits cause) (d :: u) := by
          intro u
          rcases hc with rfl | rfl <;> simp [exponentDigits, hp, hm]
        rw [hu] at h
        show exponentDigits cause (c :: d :: (s ++ rest)) = _
        rw [hu]
        exact hsome false (d :: s) t rest a h hd

theorem extensible_numeral (cause : Cause) : Extensible (numeral cause) := by
  unfold numeral
  refine extensible_minus.bind fun negative => ?_
  refine (extensible_wholeDigits cause).bind fun whole => ?_
  refine (extensible_fractionDigits cause).bind fun fraction => ?_
  exact (extensible_exponentDigits cause).bind fun exponent => Extensible.pure _

theorem extensible_number : Extensible number := by
  refine (extensible_numeral .endInValue).bind fun n => ?_
  split
  · exact Extensible.pure _
  · intro s t rest a h _
    cases h

/-! ## Whole numbers -/

/-- No digits are written before the first that counts. -/
theorem toDigits_ne_zero_cons (n : Nat) : ∀ d r, Nat.toDigits 10 n ≠ '0' :: d :: r := by
  induction n using Nat.strongRecOn with
  | ind n ih =>
    intro d r h
    by_cases hn : n < 10
    · rw [Nat.toDigits_of_lt_base hn] at h
      simp at h
    · rw [Nat.toDigits_of_base_le (by decide) (by omega)] at h
      match hq : Nat.toDigits 10 (n / 10) with
      | [] => exact Nat.toDigits_ne_nil hq
      | [c] =>
        rw [hq] at h
        obtain ⟨rfl, -⟩ := List.cons.inj h
        have hzero := @Nat.ofDigitChars_ten_toDigits (n / 10)
        rw [hq] at hzero
        have : 0 = n / 10 := hzero
        omega
      | c :: e :: u =>
        rw [hq] at h
        obtain ⟨rfl, -⟩ := List.cons.inj h
        exact ih (n / 10) (by omega) e u hq

/-- Digits without a point or an exponent. -/
theorem numeral_digits {ds : List Char} (cause : Cause) (negative : Bool) (hne : ds ≠ [])
    (hall : ∀ c ∈ ds, c.isDigit = true) (hzero : ∀ d r, ds ≠ '0' :: d :: r) :
    numeral cause ((if negative then ['-'] else []) ++ ds) =
      .ok (⟨negative, ds, [], false, []⟩, []) := by
  obtain ⟨c, t, rfl⟩ := List.exists_cons_of_ne_nil hne
  have hminus : minus ((if negative then ['-'] else []) ++ c :: t) = .ok (negative, c :: t) := by
    cases negative with
    | true => rfl
    | false =>
      have hc : c ≠ '-' := by
        rintro rfl
        exact absurd (hall '-' (List.mem_cons_self ..)) (by decide)
      show minus (c :: t) = _
      simp [minus, hc]
  have hwhole : wholeDigits cause (c :: t) = .ok (c :: t, []) := by
    rw [wholeDigits_eq fun d r h => absurd h (hzero d r)]
    show (if c.isDigit then digits (c :: t) else _) = _
    rw [if_pos (hall c (List.mem_cons_self ..))]
    unfold digits
    rw [List.takeWhile_eq_self_iff.2 hall, List.dropWhile_eq_nil_iff.2 hall]
  unfold numeral
  rw [bind_ok hminus, bind_ok hwhole]
  rfl

theorem le_ofDigitChars (ds : List Char) (n : Nat) : n ≤ Nat.ofDigitChars 10 ds n := by
  induction ds generalizing n with
  | nil => exact Nat.le_refl n
  | cons c ds ih =>
    rw [Nat.ofDigitChars_cons]
    exact Nat.le_trans (by omega) (ih _)

/-- Digits whose value stays within the limit are all taken. -/
theorem accumulate_eq {limit : Nat} {ds : List Char} {n : Nat}
    (h : Nat.ofDigitChars 10 ds n ≤ limit) :
    accumulate limit n ds = (Nat.ofDigitChars 10 ds n, []) := by
  induction ds generalizing n with
  | nil => rfl
  | cons c ds ih =>
    rw [Nat.ofDigitChars_cons] at h ⊢
    have hle := Nat.le_trans (le_ofDigitChars ds _) h
    rw [← ih h]
    show (if 10 * n + digitValue c ≤ limit then _ else _) = _
    exact if_pos hle

theorem accumulate_toDigits {limit n : Nat} (h : n ≤ limit) :
    accumulate limit 0 (Nat.toDigits 10 n) = (n, []) := by
  rw [accumulate_eq (by rw [Nat.ofDigitChars_ten_toDigits]; exact h),
    Nat.ofDigitChars_ten_toDigits]

theorem numeral_toDigits (negative : Bool) (n : Nat) :
    numeral .endInValue ((if negative then ['-'] else []) ++ Nat.toDigits 10 n) =
      .ok (⟨negative, Nat.toDigits 10 n, [], false, []⟩, []) :=
  numeral_digits _ _ Nat.toDigits_ne_nil
    (fun _ => Nat.isDigit_of_mem_toDigits (by decide) (by decide)) (toDigits_ne_zero_cons n)

theorem toNumber_toDigits (negative : Bool) {n : Nat} (h : n < Nat.pow 2 64) :
    (Numeral.mk negative (Nat.toDigits 10 n) [] false []).toNumber =
      .ok (.ofWhole negative n) := by
  unfold Numeral.toNumber
  dsimp only
  rw [accumulate_toDigits (show n ≤ Numeral.maxSignificand from Nat.le_sub_one_of_lt h),
    if_pos ⟨rfl, rfl, rfl⟩]

theorem number_whole (negative : Bool) {n : Nat} (h : n < Nat.pow 2 64) :
    number ((if negative then ['-'] else []) ++ Nat.toDigits 10 n) =
      .ok (.ofWhole negative n, []) := by
  unfold number
  rw [bind_ok (numeral_toDigits negative n), toNumber_toDigits negative h]
  rfl

theorem number_natural (n : Nat) (h : n < Nat.pow 2 64) :
    number (Nat.toDigits 10 n) = .ok (.natural n h, []) := by
  have hn : Number.ofWhole false n = .natural n h := by
    unfold Number.ofWhole
    rw [if_neg (by decide), dif_pos h]
  rw [← hn]
  exact number_whole false h

theorem number_negative (m : Nat) (h : 0 < m ∧ m ≤ Nat.pow 2 63) :
    number ('-' :: Nat.toDigits 10 m) = .ok (.negative m h, []) := by
  have hn : Number.ofWhole true m = .negative m h := by
    unfold Number.ofWhole
    rw [if_pos rfl, dif_pos h]
  rw [← hn]
  exact number_whole true (Nat.lt_of_le_of_lt h.2 (by decide))

/-- A number starts with a digit or a minus sign. -/
theorem number_head {s t : List Char} {n : Number} (h : number s = .ok (n, t)) :
    ∃ c u, s = c :: u ∧ (c = '-' ∨ c.isDigit = true) := by
  obtain ⟨_, _, hnumeral, -⟩ := bind_eq_ok h
  obtain ⟨_, _, hminus, hrest⟩ := bind_eq_ok hnumeral
  obtain ⟨_, _, hwhole, -⟩ := bind_eq_ok hrest
  match s with
  | [] =>
    cases hminus
    cases hwhole
  | c :: u =>
    refine ⟨c, u, rfl, ?_⟩
    by_cases hc : c = '-'
    · exact .inl hc
    · have hm : minus (c :: u) = .ok (false, c :: u) := by simp [minus, hc]
      rw [hm] at hminus
      cases hminus
      by_cases hd : c.isDigit
      · exact .inr hd
      · have hc0 : c ≠ '0' := by
          rintro rfl
          exact hd (by decide)
        rw [wholeDigits_eq fun d r hs => absurd (List.cons.inj hs).1 hc0] at hwhole
        simp only [someDigits, hd] at hwhole
        cases hwhole

end Reader

end Json

/-- The text that JSON has for the double is read as the same double. -/
structure Double.ReadsBack (x : Double) : Prop where
  finite : x.isFinite = true
  number : Json.Reader.number (Json.doubleLayout.chars x) = .ok (.double x, [])

instance (x : Double) : Decidable x.ReadsBack :=
  decidable_of_iff
    (x.isFinite = true ∧ Json.Reader.number (Json.doubleLayout.chars x) = .ok (.double x, []))
    ⟨fun h => ⟨h.1, h.2⟩, fun h => ⟨h.finite, h.number⟩⟩

namespace Json

/-- The doubles of a number: itself, unless it is exact. -/
def Number.doubles : Number → List Double
  | double x => [x]
  | _ => []

namespace Reader

theorem number_chars {n : Number} (h : ∀ x ∈ n.doubles, x.ReadsBack) :
    number n.chars = .ok (n, []) := by
  cases n with
  | natural n fits => exact number_natural n fits
  | negative m fits => exact number_negative m fits
  | double x => exact (h x (by simp [Number.doubles])).number

theorem number_chars_append {n : Number} (h : ∀ x ∈ n.doubles, x.ReadsBack) {rest : List Char}
    (hd : Delimited rest) : number (n.chars ++ rest) = .ok (n, rest) :=
  extensible_number _ _ _ _ (number_chars h) hd

end Reader

end Json

end OrmDdl
