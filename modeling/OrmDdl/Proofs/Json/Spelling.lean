import OrmDdl.Json.Value
import OrmDdl.Proofs.Json.Grammar
/-!
# What strings spell

The text between two quotes spells characters, by themselves or by escapes (`Spells`). Of the
well-formed texts those that spell something are read, as what they spell, and no others are
(`Spells.string_ok`, `string_eq_ok`). Passed are all of them, also those with surrogates that are not
in pairs (`StringText.passString_ok`).
-/

namespace OrmDdl.Json

open Reader

/-! ## Spelling -/

/-- The number of four hexadecimal digits. -/
def unit? (a b c d : Char) : Option Nat := do
  let a ← Text.hexValue? a
  let b ← Text.hexValue? b
  let c ← Text.hexValue? c
  let d ← Text.hexValue? d
  return ((a * 16 + b) * 16 + c) * 16 + d

/-- The character of a leading and a trailing surrogate. -/
def pairChar (u v : Nat) : Char := Char.ofNat (0x10000 + (u - 0xD800) * 0x400 + (v - 0xDC00))

/-- The text between two quotes stands for these characters. -/
inductive Spells : List Char → List Char → Prop
  | nil : Spells [] []
  | plain {c : Char} {r s : List Char} (hc : isUnescaped c = true) (hr : Spells r s) :
      Spells (c :: r) (c :: s)
  | escape {e c : Char} {r s : List Char} (hc : escaped? e = some c) (hr : Spells r s) :
      Spells ('\\' :: e :: r) (c :: s)
  | unit {a b c d : Char} {u : Nat} {r s : List Char} (hu : unit? a b c d = some u)
      (htrailing : isTrailing u = false) (hleading : isLeading u = false) (hr : Spells r s) :
      Spells ('\\' :: 'u' :: a :: b :: c :: d :: r) (Char.ofNat u :: s)
  | pair {a b c d a' b' c' d' : Char} {u v : Nat} {r s : List Char} (hu : unit? a b c d = some u)
      (hv : unit? a' b' c' d' = some v) (hleading : isLeading u = true)
      (htrailing : isTrailing v = true) (hr : Spells r s) :
      Spells ('\\' :: 'u' :: a :: b :: c :: d :: '\\' :: 'u' :: a' :: b' :: c' :: d' :: r)
        (pairChar u v :: s)

theorem Spells.of_unescaped {text : List Char} (h : text.all isUnescaped = true) :
    Spells text text := by
  induction text with
  | nil => exact .nil
  | cons c r ih =>
    rw [List.all_cons, Bool.and_eq_true] at h
    exact .plain h.1 (ih h.2)

theorem isSome_escaped? {e : Char} (h : e ∈ ['"', '\\', '/', 'b', 'f', 'n', 'r', 't']) :
    (escaped? e).isSome = true := by
  simp only [List.mem_cons, List.not_mem_nil, or_false] at h
  rcases h with rfl | rfl | rfl | rfl | rfl | rfl | rfl | rfl <;> rfl

theorem hexUnit_of_unit? {a b c d : Char} {u : Nat} (h : unit? a b c d = some u)
    (rest : List Char) : hexUnit (a :: b :: c :: d :: rest) = .ok (u, rest) := by
  simp only [unit?, Option.bind_eq_bind, Option.bind_eq_some_iff] at h
  obtain ⟨p, hp, q, hq, r, hr, s, hs, ⟨⟩⟩ := h
  simp only [hexUnit, hp, hq, hr, hs]

theorem isTrailing_of_isLeading {u : Nat} (h : isLeading u = true) : isTrailing u = false := by
  simp only [isLeading, Bool.and_eq_true, decide_eq_true_eq] at h
  simp only [isTrailing, Bool.and_eq_false_iff, decide_eq_false_iff_not]
  omega

/-! ## Reading strings -/

theorem stringChar_plain {c : Char} (hc : isUnescaped c = true) (rest : List Char) :
    stringChar (c :: rest) = .ok (some c, rest) := by
  simp only [isUnescaped, Bool.and_eq_true, decide_eq_true_eq] at hc
  obtain ⟨⟨hcontrol, hquote⟩, hescape⟩ := hc
  have hchar : stringChar (c :: rest) = if c.toNat < 0x20 then
      failNext .controlCharacter (c :: rest) else .ok (some c, rest) := by
    rw [stringChar]
    · exact hquote
    · rintro rfl
      exact absurd rfl hescape
    · rintro _ rfl
      exact absurd rfl hescape
    · rintro _ _ rfl
      exact absurd rfl hescape
  rw [hchar, if_neg (Nat.not_lt.2 hcontrol)]

theorem stringChar_escape {e c : Char} (hc : escaped? e = some c) (rest : List Char) :
    stringChar ('\\' :: e :: rest) = .ok (some c, rest) := by
  rw [stringChar, hc]
  rintro rfl
  cases hc

theorem stringChar_unit {a b c d : Char} {u : Nat} (hu : unit? a b c d = some u)
    (htrailing : isTrailing u = false) (hleading : isLeading u = false) (rest : List Char) :
    stringChar ('\\' :: 'u' :: a :: b :: c :: d :: rest) = .ok (some (Char.ofNat u), rest) := by
  refine map_ok ?_
  unfold unitEscape
  rw [bind_ok (hexUnit_of_unit? hu rest), htrailing, hleading]
  rfl

theorem stringChar_pair {a b c d a' b' c' d' : Char} {u v : Nat} (hu : unit? a b c d = some u)
    (hv : unit? a' b' c' d' = some v) (hleading : isLeading u = true)
    (htrailing : isTrailing v = true) (rest : List Char) :
    stringChar ('\\' :: 'u' :: a :: b :: c :: d :: '\\' :: 'u' :: a' :: b' :: c' :: d' :: rest) =
      .ok (some (pairChar u v), rest) := by
  have hpass : ∀ c r, inPair c (c :: r) = .ok ((), r) := fun c r => if_pos rfl
  refine map_ok ?_
  unfold unitEscape
  rw [bind_ok (hexUnit_of_unit? hu _), if_neg (Bool.eq_false_iff.1 (isTrailing_of_isLeading hleading)),
    if_pos hleading, bind_ok (hpass _ _), bind_ok (hpass _ _), bind_ok (hexUnit_of_unit? hv _),
    if_pos htrailing]
  rfl

/-- The characters that a text spells are read up to its quote, with those read before. -/
theorem Spells.untilDone_ok {name s : List Char} (h : Spells name s) (rest : List Char) :
    ∀ read, untilDone stringStep read (name ++ '"' :: rest) =
      .ok (String.ofList (read.reverse ++ s), rest) := by
  -- a round reads one character, and leaves a shorter text
  have hround : ∀ (b : Char) (front : List Char) {r s : List Char} {c : Char},
      stringChar (b :: (front ++ r)) = .ok (some c, r) →
      (∀ read, untilDone stringStep read r = .ok (String.ofList (read.reverse ++ s), rest)) →
      ∀ read, untilDone stringStep read (b :: (front ++ r)) =
        .ok (String.ofList (read.reverse ++ c :: s), rest) := by
    intro b front r s c hchar hrest read
    have hstep : stringStep read (b :: (front ++ r)) = .ok (.more (c :: read), r) := by
      unfold stringStep
      rw [bind_ok hchar]
      rfl
    have hread := hrest (c :: read)
    rw [List.reverse_cons, List.append_assoc] at hread
    refine untilDone_of_more hstep ?_ hread
    rw [List.length_cons, List.length_append]
    omega
  induction h with
  | nil =>
    intro read
    rw [List.append_nil]
    exact untilDone_of_done rfl
  | plain hc _ ih => exact hround _ [] (stringChar_plain hc _) ih
  | escape hc _ ih => exact hround _ [_] (stringChar_escape hc _) ih
  | unit hu htrailing hleading _ ih =>
    exact hround _ ['u', _, _, _, _] (stringChar_unit hu htrailing hleading _) ih
  | pair hu hv hleading htrailing _ ih =>
    exact hround _ ['u', _, _, _, _, '\\', 'u', _, _, _, _]
      (stringChar_pair hu hv hleading htrailing _) ih

theorem Spells.string_ok {name s : List Char} (h : Spells name s) (rest : List Char) :
    Reader.string ('"' :: (name ++ '"' :: rest)) = .ok (String.ofList s, rest) :=
  h.untilDone_ok rest []

/-! ## Strings that are read -/

theorem inPair_eq_ok {c : Char} {s t : List Char} (h : inPair c s = .ok ((), t)) : s = c :: t := by
  match s with
  | [] => cases h
  | d :: s =>
    have h : (if d = c then .ok ((), s) else failNext .endOfEscape (d :: s)) = .ok ((), t) := h
    split at h
    · cases h
      rw [‹d = c›]
    · cases h

theorem exists_unit? {a b c d : Char}
    (h : ∀ digit ∈ [a, b, c, d], (Text.hexValue? digit).isSome = true) :
    ∃ u, unit? a b c d = some u := by
  simp only [List.forall_mem_cons, Option.isSome_iff_exists] at h
  obtain ⟨⟨p, hp⟩, ⟨q, hq⟩, ⟨r, hr⟩, ⟨s, hs⟩, -⟩ := h
  exact ⟨_, by simp only [unit?, hp, hq, hr, hs]; rfl⟩

/-- Of two units that are read as one character, the second follows at once. -/
theorem StringText.unitEscape_eq_ok {a b c d : Char} {u : Nat} {r rest t : List Char} {x : Char}
    (hu : unit? a b c d = some u) (hr : StringText r)
    (h : unitEscape (a :: b :: c :: d :: (r ++ '"' :: rest)) = .ok (x, t)) :
    ∃ r', StringText r' ∧ t = r' ++ '"' :: rest ∧
      ∀ s, Spells r' s → Spells ('\\' :: 'u' :: a :: b :: c :: d :: r) (x :: s) := by
  unfold unitEscape at h
  rw [bind_ok (hexUnit_of_unit? hu _)] at h
  cases htrailing : isTrailing u with
  | true =>
    rw [if_pos htrailing] at h
    cases h
  | false =>
    rw [if_neg (Bool.eq_false_iff.1 htrailing)] at h
    cases hleading : isLeading u with
    | false =>
      rw [if_neg (Bool.eq_false_iff.1 hleading)] at h
      cases h
      exact ⟨r, hr, rfl, fun s => .unit hu htrailing hleading⟩
    | true =>
      rw [if_pos hleading] at h
      obtain ⟨_, _, hescape, hpair⟩ := bind_eq_ok h
      obtain ⟨_, _, hletter, hsecond⟩ := bind_eq_ok hpair
      have htext := inPair_eq_ok hescape
      rw [inPair_eq_ok hletter] at htext
      cases hr with
      | nil => cases htext
      | plain hc _ =>
        rw [(List.cons.inj htext).1] at hc
        exact absurd hc (by decide)
      | escape he _ =>
        rw [(List.cons.inj (List.cons.inj htext).2).1] at he
        exact absurd he (by decide)
      | @unit a' b' c' d' r hdigits hr =>
        obtain ⟨v, hv⟩ := exists_unit? hdigits
        simp only [List.cons_append, List.cons.injEq, true_and] at htext
        rw [← htext, bind_ok (hexUnit_of_unit? hv _)] at hsecond
        cases htrailing : isTrailing v with
        | false =>
          rw [if_neg (Bool.eq_false_iff.1 htrailing)] at hsecond
          cases hsecond
        | true =>
          rw [if_pos htrailing, pure_eq, ← pairChar, Except.ok.injEq, Prod.mk.injEq] at hsecond
          obtain ⟨rfl, rfl⟩ := hsecond
          exact ⟨r, hr, rfl, fun s => .pair hu hv hleading htrailing⟩

/-- Of a text with something in it, a character is read, and what is left spells the others. -/
theorem StringText.stringChar_eq_ok {name rest t : List Char} {o : Option Char}
    (h : StringText name) (hchar : stringChar (name ++ '"' :: rest) = .ok (o, t)) :
    (name = [] ∧ o = none ∧ t = rest) ∨ ∃ c r, o = some c ∧ StringText r ∧ t = r ++ '"' :: rest ∧
      ∀ s, Spells r s → Spells name (c :: s) := by
  cases h with
  | nil =>
    cases hchar
    exact .inl ⟨rfl, rfl, rfl⟩
  | @plain c r hc hr =>
    rw [List.cons_append, stringChar_plain hc] at hchar
    cases hchar
    exact .inr ⟨c, r, rfl, hr, rfl, fun s => .plain hc⟩
  | @escape e r he hr =>
    obtain ⟨c, hc⟩ := Option.isSome_iff_exists.1 (isSome_escaped? he)
    rw [List.cons_append, List.cons_append, stringChar_escape hc] at hchar
    cases hchar
    exact .inr ⟨c, r, rfl, hr, rfl, fun s => .escape hc⟩
  | @unit a b c d r hdigits hr =>
    obtain ⟨u, hu⟩ := exists_unit? hdigits
    have hchar : (some <$> unitEscape) (a :: b :: c :: d :: (r ++ '"' :: rest)) = .ok (o, t) :=
      hchar
    rw [map_eq_pure_bind] at hchar
    obtain ⟨x, _, hx, ⟨⟩⟩ := bind_eq_ok hchar
    obtain ⟨r', hr', ht, hspells⟩ := hr.unitEscape_eq_ok hu hx
    exact .inr ⟨x, r', rfl, hr', ht, hspells⟩

theorem StringText.rounds_eq {read text t : List Char} {s : String}
    (h : Rounds stringStep read text s t) : ∀ {name rest : List Char}, StringText name →
      text = name ++ '"' :: rest →
      ∃ cs, Spells name cs ∧ s = String.ofList (read.reverse ++ cs) ∧ t = rest := by
  induction h with
  | done h =>
    rintro name rest hname rfl
    obtain ⟨o, u, hchar, h⟩ := bind_eq_ok h
    cases o with
    | some c => cases h
    | none =>
      cases h
      obtain ⟨rfl, -, rfl⟩ | ⟨c, r, hc, -⟩ := hname.stringChar_eq_ok hchar
      · exact ⟨[], .nil, by rw [List.append_nil], rfl⟩
      · cases hc
  | more h _ ih =>
    rintro name rest hname rfl
    obtain ⟨o, u, hchar, h⟩ := bind_eq_ok h
    cases o with
    | none => cases h
    | some c =>
      cases h
      obtain ⟨-, hc, -⟩ | ⟨_, r, ⟨⟩, hr, rfl, hspells⟩ := hname.stringChar_eq_ok hchar
      · cases hc
      · obtain ⟨cs, hcs, rfl, ht⟩ := ih hr rfl
        exact ⟨c :: cs, hspells cs hcs, by simp, ht⟩

/-- What is read of a well-formed text is what it spells. -/
theorem string_eq_ok {name rest t : List Char} {s : String} (h : StringText name)
    (hstring : Reader.string ('"' :: (name ++ '"' :: rest)) = .ok (s, t)) :
    ∃ cs, Spells name cs ∧ s = String.ofList cs ∧ t = rest :=
  StringText.rounds_eq (.of_untilDone hstring) h rfl

/-! ## Strings that are passed -/

theorem passChar_plain {c : Char} (hc : isUnescaped c = true) (rest : List Char) :
    passChar (c :: rest) = .ok (false, rest) := by
  simp only [isUnescaped, Bool.and_eq_true, decide_eq_true_eq] at hc
  obtain ⟨⟨hcontrol, hquote⟩, hescape⟩ := hc
  have hchar : passChar (c :: rest) = if c.toNat < 0x20 then
      failHere .controlCharacter (c :: rest) else .ok (false, rest) := by
    rw [passChar]
    · exact hquote
    · rintro rfl
      exact absurd rfl hescape
    · rintro _ rfl
      exact absurd rfl hescape
    · rintro _ _ rfl
      exact absurd rfl hescape
  rw [hchar, if_neg (Nat.not_lt.2 hcontrol)]

theorem StringText.untilDone_ok {name : List Char} (h : StringText name) (rest : List Char) :
    untilDone (fun _ => do if ← passChar then return .done () else return .more ()) ()
      (name ++ '"' :: rest) = .ok ((), rest) := by
  have hround : ∀ (b : Char) (front : List Char) {r : List Char},
      passChar (b :: (front ++ r)) = .ok (false, r) →
      untilDone (fun _ => do if ← passChar then return .done () else return .more ()) () r =
        .ok ((), rest) →
      untilDone (fun _ => do if ← passChar then return .done () else return .more ()) ()
        (b :: (front ++ r)) = .ok ((), rest) := by
    intro b front r hchar hrest
    have hstep : (do if ← passChar then return .done () else return .more () :
        Reader (Step Unit Unit)) (b :: (front ++ r)) = .ok (.more (), r) := by
      rw [bind_ok hchar]
      rfl
    refine untilDone_of_more hstep ?_ hrest
    rw [List.length_cons, List.length_append]
    omega
  induction h with
  | nil => exact untilDone_of_done rfl
  | plain hc _ ih => exact hround _ [] (passChar_plain hc _) ih
  | @escape e r he _ ih =>
    have hsome := isSome_escaped? he
    have hne : e ≠ 'u' := by
      rintro rfl
      cases hsome
    have hchar : passChar ('\\' :: e :: (r ++ '"' :: rest)) = .ok (false, r ++ '"' :: rest) := by
      rw [passChar, if_pos hsome]
      exact hne
    exact hround _ [e] hchar ih
  | @unit a b c d r hdigits _ ih =>
    obtain ⟨u, hu⟩ := exists_unit? hdigits
    have hchar : passChar ('\\' :: 'u' :: a :: b :: c :: d :: (r ++ '"' :: rest)) =
        .ok (false, r ++ '"' :: rest) := map_ok (hexUnit_of_unit? hu _)
    exact hround _ ['u', a, b, c, d] hchar ih

/-- Every well-formed text is passed. -/
theorem StringText.passString_ok {name : List Char} (h : StringText name) (rest : List Char) :
    passString ('"' :: (name ++ '"' :: rest)) = .ok ((), rest) :=
  h.untilDone_ok rest

end OrmDdl.Json
