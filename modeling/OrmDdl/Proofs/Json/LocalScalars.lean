import OrmDdl.Json.Numeral
import OrmDdl.Json.Characters
import OrmDdl.Proofs.Json.Locality
import OrmDdl.Proofs.Json.Scalars
/-!
# Strings and numbers are read by themselves

A string ends at its quote, so its reader looks at nothing behind it (`agreesOn_string`). A number
ends where no digit, point or exponent follows, so its reader looks at one character more
(`agrees_number`). Both hold of what is read and of what is passed, and without an excuse.
-/

namespace OrmDdl.Json

namespace Reader

variable {α β σ : Type}

/-! ## Strings -/

/-- No excuse. -/
abbrev Never (_ : List Char) : Prop := False

theorem agrees_hexUnit : Agrees (fun _ => InString) Never hexUnit hexUnit := by
  intro s v t h
  unfold hexUnit at h
  split at h
  · split at h
    · next ha hb hc hd =>
      cases h
      refine ⟨[_, _, _, _], rfl, ?_, fun _ t' _ => .inl ?_⟩
      · exact (inString_of_hexValue? ha).append ((inString_of_hexValue? hb).append
          ((inString_of_hexValue? hc).append (inString_of_hexValue? hd)))
      · unfold hexUnit
        simp only [List.cons_append, List.nil_append, ha, hb, hc, hd]
    · cases h
  · split at h <;> cases h

/-- One character that is fixed. -/
theorem agrees_inPair (d : Char) : Agrees (fun _ c => c = [d]) Never (inPair d) (inPair d) := by
  intro s a t h
  match s with
  | [] => cases h
  | e :: s =>
    have hd : ∀ v, inPair d (d :: v) = .ok ((), v) := fun v => if_pos rfl
    by_cases he : e = d
    · subst he
      rw [hd] at h
      cases h
      exact ⟨[e], rfl, rfl, fun _ t' _ => .inl (hd t')⟩
    · have hfail : inPair d (e :: s) = failNext .endOfEscape (e :: s) := if_neg he
      rw [hfail] at h
      cases h

/-- A sequence that has no excuse. -/
theorem AgreesOn.chain {P : α → List Char → Prop} {Q : α → β → List Char → Prop}
    {R : β → List Char → Prop} {r r' : Reader α} {f f' : α → Reader β} {s : List Char}
    (h : AgreesOn P Never r r' s)
    (hf : ∀ a t, r s = .ok (a, t) → AgreesOn (Q a) Never (f a) (f' a) t)
    (hR : ∀ a b c d, P a c → Q a b d → R b (c ++ d)) : AgreesOn R Never (r >>= f) (r' >>= f') s :=
  h.bind hf hR (fun h => h) fun _ _ _ _ h => h

theorem agrees_unitEscape : Agrees (fun _ => InString) Never unitEscape unitEscape := by
  have happend : ∀ (a : Nat) (b : Char) (c d : List Char), InString c → InString d →
      InString (c ++ d) := fun _ _ _ _ => InString.append
  intro s
  unfold unitEscape
  refine (agrees_hexUnit s).chain (fun unit t _ => ?_) happend
  split
  · exact .of_fails fun a t h => nomatch h
  split
  · -- the second half of a pair is escaped like the first
    refine (agrees_inPair '\\' t).chain (Q := fun _ _ c => ∃ r, c = 'u' :: r ∧ InString r)
      (fun _ t _ => ?_) ?_
    · refine (agrees_inPair 'u' t).chain (Q := fun _ _ => InString) (fun _ t _ => ?_) ?_
      · refine (agrees_hexUnit t).chain (fun second t _ => ?_) happend
        split
        · exact agrees_pure inString_nil t
        · exact .of_fails fun a t h => nomatch h
      · rintro _ _ _ d rfl hd
        exact ⟨d, rfl, hd⟩
    · rintro _ _ _ _ rfl ⟨r, rfl, hr⟩
      exact (inString_escape 'u').append hr
  · exact agrees_pure inString_nil t

/-- What a round of a string takes: the quote that closes it, or something of it. -/
def CharShape (closes : Bool) (c : List Char) : Prop :=
  if closes then EndsString c else InString c ∧ c ≠ []

theorem charShape_more {c : List Char} (hc : InString c) (hne : c ≠ []) : CharShape false c :=
  ⟨hc, hne⟩

/-- Either the reader fails at a text with this front, or it takes the front and nothing else. -/
def TakesFront (closes : α → Bool) (r : Reader α) (front : List Char) : Prop :=
  (∀ v a t, r (front ++ v) ≠ .ok (a, t)) ∨
    ∃ a, closes a = false ∧ ∀ v, r (front ++ v) = .ok (a, v)

theorem TakesFront.agreesOn {closes : α → Bool} {r : Reader α} {front u : List Char}
    (h : TakesFront closes r front) (hfront : InString front) (hne : front ≠ []) :
    AgreesOn (fun a => CharShape (closes a)) Never r r (front ++ u) := by
  intro a t ha
  obtain hfails | ⟨b, hb, hok⟩ := h
  · exact absurd ha (hfails u a t)
  · rw [hok] at ha
    cases ha
    refine ⟨front, rfl, ?_, fun _ t' _ => .inl (hok t')⟩
    show CharShape (closes a) front
    rw [hb]
    exact charShape_more hfront hne

/-- A reader of one character of a string is known by what it does at a quote, at an escape, and at
any other character. -/
theorem agrees_of_chars {closes : α → Bool} {r q : Reader α} (hnil : ∀ a t, r [] ≠ .ok (a, t))
    (hquote : ∃ a, closes a = true ∧ ∀ v, r ('"' :: v) = .ok (a, v))
    (hlone : ∀ a t, r ['\\'] ≠ .ok (a, t)) (hunit : ∀ v, r ('\\' :: 'u' :: v) = q v)
    (hq : Agrees (fun a c => closes a = false ∧ InString c) Never q q)
    (hescape : ∀ e, e ≠ 'u' → TakesFront closes r ['\\', e])
    (hplain : ∀ c, c ≠ '"' → c ≠ '\\' → TakesFront closes r [c]) :
    Agrees (fun a => CharShape (closes a)) Never r r := by
  intro s a t h
  match s with
  | [] => exact absurd h (hnil a t)
  | c :: s =>
    by_cases hc : c = '"'
    · subst hc
      obtain ⟨b, hb, hok⟩ := hquote
      rw [hok] at h
      cases h
      refine ⟨['"'], rfl, ?_, fun _ t' _ => .inl (hok t')⟩
      show CharShape (closes a) ['"']
      rw [hb]
      exact endsString_quote
    by_cases hbackslash : c = '\\'
    · subst hbackslash
      match s with
      | [] => exact absurd h (hlone a t)
      | e :: s =>
        by_cases he : e = 'u'
        · subst he
          rw [hunit] at h
          obtain ⟨d, rfl, ⟨hb, hd⟩, htakes⟩ := hq s a t h
          refine ⟨'\\' :: 'u' :: d, rfl, ?_, fun ht t' hhead => ?_⟩
          · show CharShape (closes a) ('\\' :: 'u' :: d)
            rw [hb]
            exact charShape_more ((inString_escape 'u').append hd) (List.cons_ne_nil _ _)
          · rw [List.cons_append, List.cons_append, hunit]
            exact (htakes ht t' hhead).imp_right fun hdeep => nomatch hdeep.1
        · exact (hescape e he).agreesOn (inString_escape e) (List.cons_ne_nil _ _) a t h
    · exact (hplain c hc hbackslash).agreesOn (inString_char hc hbackslash) (List.cons_ne_nil _ _)
        a t h

theorem agrees_stringChar :
    Agrees (fun o => CharShape o.isNone) Never stringChar stringChar := by
  have hmap : Agrees (fun o c => o.isNone = false ∧ InString c) Never (some <$> unitEscape)
      (some <$> unitEscape) :=
    fun s => (agrees_unitEscape s).map fun _ _ hc => ⟨rfl, hc⟩
  refine agrees_of_chars (fun a t h => nomatch h) ⟨none, rfl, fun _ => rfl⟩ (fun a t h => nomatch h)
    (fun _ => rfl) hmap (fun e he => ?_) fun c hquote hescape => ?_
  · cases hd : escaped? e with
    | none =>
      refine .inl fun v a t h => ?_
      rw [List.cons_append, List.cons_append, stringChar, hd] at h
      · cases h
      · exact he
    | some d =>
      refine .inr ⟨some d, rfl, fun v => ?_⟩
      rw [List.cons_append, List.cons_append, stringChar, hd]
      · rfl
      · exact he
  · have hchar : ∀ v, stringChar (c :: v) =
        if c.toNat < 0x20 then failNext .controlCharacter (c :: v) else .ok (some c, v) := by
      intro v
      rw [stringChar]
      · exact hquote
      · rintro rfl
        exact absurd rfl hescape
      · rintro _ rfl
        exact absurd rfl hescape
      · rintro _ _ rfl
        exact absurd rfl hescape
    by_cases hcontrol : c.toNat < 0x20
    · refine .inl fun v a t h => ?_
      rw [List.singleton_append, hchar, if_pos hcontrol] at h
      cases h
    · refine .inr ⟨some c, rfl, fun v => ?_⟩
      rw [List.singleton_append, hchar, if_neg hcontrol]

/-- A character of a string that is passed. -/
theorem agrees_passChar : Agrees CharShape Never passChar passChar := by
  have hmap : Agrees (fun closes c => closes = false ∧ InString c) Never
      ((fun _ => false) <$> hexUnit) ((fun _ => false) <$> hexUnit) :=
    fun s => (agrees_hexUnit s).map fun _ _ hc => ⟨rfl, hc⟩
  show Agrees (fun closes => CharShape (id closes)) Never passChar passChar
  refine agrees_of_chars (fun a t h => nomatch h) ⟨true, rfl, fun _ => rfl⟩
    (fun a t h => nomatch h) (fun _ => rfl) hmap (fun e he => ?_) fun c hquote hescape => ?_
  · by_cases hd : (escaped? e).isSome = true
    · refine .inr ⟨false, rfl, fun v => ?_⟩
      rw [List.cons_append, List.cons_append, passChar, if_pos hd]
      · rfl
      · exact he
    · refine .inl fun v a t h => ?_
      rw [List.cons_append, List.cons_append, passChar, if_neg hd] at h
      · cases h
      · exact he
  · have hchar : ∀ v, passChar (c :: v) =
        if c.toNat < 0x20 then failHere .controlCharacter (c :: v) else .ok (false, v) := by
      intro v
      rw [passChar]
      · exact hquote
      · rintro rfl
        exact absurd rfl hescape
      · rintro _ rfl
        exact absurd rfl hescape
      · rintro _ _ rfl
        exact absurd rfl hescape
    by_cases hcontrol : c.toNat < 0x20
    · refine .inl fun v a t h => ?_
      rw [List.singleton_append, hchar, if_pos hcontrol] at h
      cases h
    · refine .inr ⟨false, rfl, fun v => ?_⟩
      rw [List.singleton_append, hchar, if_neg hcontrol]

def InStringStep : Step σ α → List Char → Prop :=
  StepShape (fun c => InString c ∧ c ≠ []) fun _ => EndsString

/-- A round that decides by the character taken whether it is the last. -/
theorem agrees_round {closes : β → Bool} {char : Reader β} {f : β → Reader (Step σ α)}
    (hchar : Agrees (fun b => CharShape (closes b)) Never char char)
    (hf : ∀ b, ∃ x, f b = pure x ∧ ∀ c, CharShape (closes b) c → InStringStep x c) :
    Agrees InStringStep Never (char >>= f) (char >>= f) :=
  fun s => (hchar s).bind_of_pure hf

/-- A string, whose quote comes next, is read in rounds. -/
theorem agreesOn_rounds {step : σ → Reader (Step σ α)} {E : List Char → Prop}
    (hstep : ∀ x, Agrees InStringStep Never (step x) (step x)) (x : σ) (u : List Char) :
    AgreesOn (fun _ => Solid) E (advance >>= fun _ => untilDone step x)
      (advance >>= fun _ => untilDone step x) ('"' :: u) := by
  have hrest : Agrees (fun _ => EndsString) Never (untilDone step x) (untilDone step x) :=
    agrees_untilDone hstep (fun hc => hc.2) (fun hc hd => hc.1.append_endsString hd) (fun h => h)
      (fun _ h => h) x
  exact (hrest u).cons (fun _ => rfl) (fun _ => rfl)
    (fun _ _ hd => ⟨hd.balanced, List.cons_ne_nil _ _⟩) fun _ h => nomatch h

theorem agreesOn_string {E : List Char → Prop} (u : List Char) :
    AgreesOn (fun _ => Solid) E string string ('"' :: u) := by
  refine agreesOn_rounds (fun read => agrees_round agrees_stringChar fun o => ?_) [] u
  cases o with
  | none => exact ⟨.done _, rfl, fun _ h => h⟩
  | some c => exact ⟨.more _, rfl, fun _ h => h⟩

theorem agreesOn_passString {E : List Char → Prop} (u : List Char) :
    AgreesOn (fun _ => Solid) E passString passString ('"' :: u) := by
  refine agreesOn_rounds (fun read => agrees_round agrees_passChar fun closes => ?_) () u
  cases closes with
  | true => exact ⟨.done (), rfl, fun _ h => h⟩
  | false => exact ⟨.more (), rfl, fun _ h => h⟩

/-! ## Numbers -/

theorem span_append {p : Char → Bool} {c t : List Char} (hc : ∀ d ∈ c, p d = true)
    (ht : ∀ d ∈ t.head?, p d = false) :
    (c ++ t).takeWhile p = c ∧ (c ++ t).dropWhile p = t := by
  rw [List.takeWhile_append_of_pos hc, List.dropWhile_append_of_pos hc]
  cases t with
  | nil => exact ⟨List.append_nil c, rfl⟩
  | cons d t =>
    have hd : ¬p d = true := Bool.eq_false_iff.1 (ht d rfl)
    rw [List.takeWhile_cons_of_neg hd, List.dropWhile_cons_of_neg hd, List.append_nil]
    exact ⟨rfl, rfl⟩

section

variable {E : List Char → Prop}

/-- Digits, of which there is one at least. -/
theorem agrees_someDigits (cause : Cause) :
    Agrees (fun _ => Solid) E (someDigits cause) (someDigits cause) := by
  intro s a t h
  match s with
  | [] => cases h
  | c :: s =>
    by_cases hc : c.isDigit = true
    · have hdigits : ∀ v, someDigits cause (c :: v) = digits (c :: v) := fun v => if_pos hc
      rw [hdigits] at h
      cases h
      have hall : ∀ d ∈ (c :: s).takeWhile Char.isDigit, d.isDigit = true :=
        List.all_eq_true.1 List.all_takeWhile
      have hcons : (c :: s).takeWhile Char.isDigit = c :: s.takeWhile Char.isDigit :=
        List.takeWhile_cons_of_pos hc
      refine ⟨(c :: s).takeWhile Char.isDigit, List.takeWhile_append_dropWhile.symm, ?_, ?_⟩
      · refine ⟨balanced_of_plain (List.all_eq_true.2 fun d hd => ?_), ?_⟩
        · exact isPlain_of_isDigit (hall d hd)
        · rw [hcons]
          exact List.cons_ne_nil _ _
      · intro ht t' hhead
        have hstop : ∀ d ∈ t'.head?, d.isDigit = false := by
          intro d hd
          rw [hhead, List.head?_eq_some_head ht] at hd
          cases hd
          exact List.head_dropWhile_not Char.isDigit ht
        obtain ⟨htake, hdrop⟩ := span_append hall hstop
        refine .inl ?_
        rw [hcons] at htake hdrop ⊢
        rw [List.cons_append, hdigits, ← List.cons_append]
        unfold digits
        rw [htake, hdrop]
    · have hfail : someDigits cause (c :: s) = failNext .invalidNumber (c :: s) := if_neg hc
      rw [hfail] at h
      cases h

theorem agrees_wholeDigits (cause : Cause) :
    Agrees (fun _ => Solid) E (wholeDigits cause) (wholeDigits cause) := by
  intro s a t h
  have hzero : ∀ d r, s = '0' :: d :: r → d.isDigit = false := by
    rintro d r rfl
    cases hdigit : d.isDigit with
    | false => rfl
    | true =>
      simp only [wholeDigits, hdigit, if_true] at h
      cases h
  rw [wholeDigits_eq hzero] at h
  obtain ⟨c, rfl, hc, htakes⟩ := agrees_someDigits cause s a t h
  refine ⟨c, rfl, hc, fun ht t' hhead => ?_⟩
  have hzero' : ∀ d r, c ++ t' = '0' :: d :: r → d.isDigit = false := by
    intro d r heq
    obtain ⟨e, c, rfl⟩ := List.exists_cons_of_ne_nil hc.ne_nil
    obtain ⟨rfl, hrest⟩ := List.cons.inj heq
    -- the second character is the same in both texts
    have hsecond : (c ++ t).head? = some d := by
      rw [List.head?_append, ← hhead, ← List.head?_append]
      exact congrArg List.head? hrest
    obtain ⟨v, hv⟩ := List.head?_eq_some_iff.1 hsecond
    exact hzero d v (by rw [List.cons_append, hv])
  rw [wholeDigits_eq hzero']
  exact htakes ht t' hhead

/-- A part that a mark opens, and that is absent where the mark is. -/
theorem agrees_of_mark {r : Reader α} (a₀ : α) (mark : Char → Bool)
    (absent : ∀ s, (∀ c ∈ s.head?, mark c = false) → r s = .ok (a₀, s))
    (present : ∀ c u, mark c = true → AgreesOn (fun _ => Balanced) E r r (c :: u)) :
    Agrees (fun _ => Balanced) E r r := by
  intro s a t h
  match s with
  | [] =>
    rw [absent [] (fun c hc => nomatch hc)] at h
    cases h
    exact ⟨[], rfl, balanced_nil, fun ht => absurd rfl ht⟩
  | c :: s =>
    cases hc : mark c with
    | true => exact present c s hc a t h
    | false =>
      have habsent : ∀ t : List Char, t.head? = some c → r t = .ok (a₀, t) := by
        intro t ht
        refine absent t fun d hd => ?_
        rw [ht] at hd
        cases hd
        exact hc
      rw [habsent (c :: s) rfl] at h
      cases h
      exact ⟨[], rfl, balanced_nil, fun _ t' hhead => .inl (habsent t' hhead)⟩

theorem agrees_minus : Agrees (fun _ => Balanced) E minus minus := by
  refine agrees_of_mark false (· == '-') (fun s hs => ?_) fun c u hc => ?_
  · unfold minus
    split
    · exact nomatch hs '-' rfl
    · rfl
  · rw [eq_of_beq hc]
    intro a t h
    cases h
    exact ⟨['-'], rfl, balanced_cons (by decide) balanced_nil, fun _ t' _ => .inl rfl⟩

theorem agrees_fractionDigits (hE : Spreads E) (cause : Cause) :
    Agrees (fun _ => Balanced) E (fractionDigits cause) (fractionDigits cause) := by
  refine agrees_of_mark [] (· == '.') (fun s hs => ?_) fun c u hc => ?_
  · unfold fractionDigits
    split
    · exact nomatch hs '.' rfl
    · rfl
  · rw [eq_of_beq hc]
    exact (agrees_someDigits cause u).cons (fun _ => rfl) (fun _ => rfl)
      (fun _ _ hd => balanced_cons (by decide) hd.balanced)
      fun _ => hE.right (balanced_cons (by decide) balanced_nil)

theorem agrees_exponentDigits (hE : Spreads E) (cause : Cause) :
    Agrees (fun _ => Balanced) E (exponentDigits cause) (exponentDigits cause) := by
  have hsome : ∀ negative : Bool, Agrees (fun _ => Solid) E ((negative, ·) <$> someDigits cause)
      ((negative, ·) <$> someDigits cause) :=
    fun negative s => (agrees_someDigits cause s).map fun _ _ hc => hc
  refine agrees_of_mark (false, []) (fun c => c == 'e' || c == 'E') (fun s hs => ?_)
    fun c u hc => ?_
  · unfold exponentDigits
    split
    · exact nomatch hs 'e' rfl
    · exact nomatch hs 'E' rfl
    · rfl
  · have hc : c = 'e' ∨ c = 'E' := by simpa using hc
    have hplain : isPlain c = true := by rcases hc with rfl | rfl <;> decide
    have hcons : ∀ {d}, Balanced d → Balanced (c :: d) := balanced_cons hplain
    have hright : ∀ d, E d → E (c :: d) := fun d => hE.right (hcons balanced_nil)
    -- the digits, behind a sign or without one
    have hdigits : AgreesOn (fun _ => Balanced) E (fun v => exponentDigits cause (c :: v))
        (fun v => exponentDigits cause (c :: v)) u := by
      match u with
      | [] => rcases hc with rfl | rfl <;> exact .of_fails fun a t h => nomatch h
      | d :: u =>
        have hsign : ∀ d', isPlain d' = true → ∀ e, E e → E (d' :: e) :=
          fun d' hd' e => hE.right (balanced_cons hd' balanced_nil)
        by_cases hplus : d = '+'
        · subst hplus
          refine (hsome false u).cons (fun _ => ?_) (fun _ => ?_)
            (fun _ _ hd => balanced_cons (by decide) hd.balanced) (hsign '+' (by decide))
          all_goals rcases hc with rfl | rfl <;> rfl
        by_cases hminus : d = '-'
        · subst hminus
          refine (hsome true u).cons (fun _ => ?_) (fun _ => ?_)
            (fun _ _ hd => balanced_cons (by decide) hd.balanced) (hsign '-' (by decide))
          all_goals rcases hc with rfl | rfl <;> rfl
        · have hnone : ∀ v, exponentDigits cause (c :: d :: v) =
              ((false, ·) <$> someDigits cause) (d :: v) := by
            intro v
            rcases hc with rfl | rfl <;> simp [exponentDigits, hplus, hminus]
          exact ((hsome false (d :: u)).of_head hnone hnone).solid_balanced
    exact hdigits.cons (fun _ => rfl) (fun _ => rfl) (fun _ _ => hcons) hright

theorem agrees_numeral (hE : Spreads E) (cause : Cause) :
    Agrees (fun _ => Solid) E (numeral cause) (numeral cause) := by
  intro s
  unfold numeral
  refine (agrees_minus s).seq (fun negative s _ => ?_) solid_append hE
  refine (agrees_wholeDigits cause s).seq_solid (fun whole s _ => ?_) hE
  refine (agrees_fractionDigits hE cause s).seq (fun fraction s _ => ?_) balanced_append hE
  refine (agrees_exponentDigits hE cause s).seq (fun exponent s _ => ?_) balanced_append hE
  exact agrees_pure balanced_nil s

theorem agrees_number (hE : Spreads E) : Agrees (fun _ => Solid) E number number := by
  intro s
  unfold number
  refine (agrees_numeral hE .endInValue s).seq_solid (fun n s _ => ?_) hE
  split
  · exact agrees_pure balanced_nil s
  · exact .of_fails fun a t h => nomatch h

end

end Reader

end OrmDdl.Json
