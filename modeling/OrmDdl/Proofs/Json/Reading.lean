import OrmDdl.Json.Reader
/-!
# Readers on a known text

`Reads r text a`: the reader `r` takes `text` for `a`, whatever blanks stand before it and whatever
delimiter behind it. What follows says how readers act when the text at hand is known, one lemma
for each; the repetition `untilDone` is opened a round at a time (`untilDone_of_more`), its count
of rounds is never looked at again.
-/

namespace OrmDdl.Json

namespace Reader

variable {α β σ : Type}

/-! ## Sequencing -/

theorem bind_ok {x : Reader α} {f : α → Reader β} {s t : List Char} {a : α}
    (h : x s = .ok (a, t)) : (x >>= f) s = f a t := by
  show (x s >>= fun p => f p.1 p.2) = f a t
  rw [h]
  rfl

theorem map_ok {x : Reader α} {f : α → β} {s t : List Char} {a : α}
    (h : x s = .ok (a, t)) : (f <$> x) s = .ok (f a, t) := by
  show (x s >>= fun p => pure (f p.1, p.2)) = _
  rw [h]
  rfl

theorem pure_eq (a : α) (s : List Char) : (pure a : Reader α) s = .ok (a, s) := rfl

/-- A value read at the front of a sequence was read by its first part. -/
theorem bind_eq_ok {x : Reader α} {f : α → Reader β} {s u : List Char} {b : β}
    (h : (x >>= f) s = .ok (b, u)) : ∃ a t, x s = .ok (a, t) ∧ f a t = .ok (b, u) := by
  have h : (x s >>= fun p => f p.1 p.2) = .ok (b, u) := h
  cases hx : x s with
  | error e => rw [hx] at h; cases h
  | ok p =>
    rw [hx] at h
    exact ⟨p.1, p.2, rfl, h⟩

theorem settled_ok {x : Reader α} {s t : List Char} {a : α} (h : x s = .ok (a, t)) :
    settled x s = .ok (a, t) := by
  unfold settled
  rw [h]
  rfl

/-! ## Blanks -/

theorem skipBlanks_of_not_blank {c : Char} (h : isBlank c = false) (t : List Char) :
    skipBlanks (c :: t) = c :: t := by
  unfold skipBlanks
  rw [List.dropWhile_cons_of_neg (by simp [h])]

theorem skipBlanks_append {b : List Char} (h : ∀ c ∈ b, isBlank c = true) (t : List Char) :
    skipBlanks (b ++ t) = skipBlanks t := by
  induction b with
  | nil => rfl
  | cons c b ih =>
    have hc := h c (List.mem_cons_self ..)
    show List.dropWhile isBlank (c :: (b ++ t)) = _
    rw [List.dropWhile_cons_of_pos hc]
    exact ih fun d hd => h d (List.mem_cons_of_mem _ hd)

theorem next?_eq (s : List Char) : next? s = .ok ((skipBlanks s).head?, skipBlanks s) := rfl

theorem next?_cons {s t : List Char} {c : Char} (h : skipBlanks s = c :: t) :
    next? s = .ok (some c, c :: t) := by
  rw [next?_eq, h]
  rfl

theorem start_cons {s t : List Char} {c : Char} (h : skipBlanks s = c :: t) :
    start s = .ok (c, c :: t) := by
  unfold start
  rw [bind_ok (next?_cons h)]
  rfl

theorem restOfWord_append (w t : List Char) : restOfWord w (w ++ t) = .ok ((), t) := by
  induction w with
  | nil => rfl
  | cons c w ih =>
    show (if c = c then restOfWord w (w ++ t) else _) = _
    rw [if_pos rfl, ih]

theorem word_append {w : String} {c : Char} {r : List Char} (h : w.toList = c :: r)
    (t : List Char) : word w (c :: (r ++ t)) = .ok ((), t) := by
  show restOfWord w.toList.tail (r ++ t) = _
  rw [h]
  exact restOfWord_append r t

/-! ## Repetition -/

/-- More rounds keep a finished result. -/
theorem iterate_mono {step : σ → Reader (Step σ α)} {x : α × List Char} :
    ∀ {rounds more : List Char} {s : σ} {text : List Char}, rounds.length ≤ more.length →
      iterate step rounds s text = .ok x → iterate step more s text = .ok x := by
  intro rounds
  induction rounds with
  | nil => intro _ _ _ _ h; cases h
  | cons c rounds ih =>
    intro more s text hle h
    match more with
    | [] => simp at hle
    | d :: more =>
      obtain ⟨a, t, ha, hr⟩ := bind_eq_ok (x := step s) h
      show (step s >>= _) text = _
      rw [bind_ok ha]
      cases a with
      | done a => exact hr
      | more s' => exact ih (by simpa using hle) hr

theorem untilDone_of_done {step : σ → Reader (Step σ α)} {s : σ} {text rest : List Char} {a : α}
    (h : step s text = .ok (.done a, rest)) : untilDone step s text = .ok (a, rest) := by
  show (step s >>= _) text = _
  rw [bind_ok h]
  rfl

/-- A round that reads something can be split off. -/
theorem untilDone_of_more {step : σ → Reader (Step σ α)} {s s' : σ} {text text' : List Char}
    {x : α × List Char} (h : step s text = .ok (.more s', text'))
    (shorter : text'.length < text.length) (hx : untilDone step s' text' = .ok x) :
    untilDone step s text = .ok x := by
  show (step s >>= _) text = _
  rw [bind_ok h]
  exact iterate_mono (by simp only [List.length_cons]; omega) hx

/-- The rounds of a repetition that comes to its end, with the result and the text that is left. -/
inductive Rounds (step : σ → Reader (Step σ α)) : σ → List Char → α → List Char → Prop
  | done {s : σ} {text rest : List Char} {a : α} (h : step s text = .ok (.done a, rest)) :
      Rounds step s text a rest
  | more {s s' : σ} {text text' rest : List Char} {a : α}
      (h : step s text = .ok (.more s', text')) (hrest : Rounds step s' text' a rest) :
      Rounds step s text a rest

theorem Rounds.of_iterate {step : σ → Reader (Step σ α)} {a : α} {rest : List Char} :
    ∀ {rounds : List Char} {s : σ} {text : List Char},
      iterate step rounds s text = .ok (a, rest) → Rounds step s text a rest := by
  intro rounds
  induction rounds with
  | nil => intro _ _ h; cases h
  | cons c rounds ih =>
    intro s text h
    obtain ⟨x, t, hx, h⟩ := bind_eq_ok (x := step s) h
    cases x with
    | done b =>
      cases h
      exact .done hx
    | more s' => exact .more hx (ih h)

theorem Rounds.of_untilDone {step : σ → Reader (Step σ α)} {s : σ} {text rest : List Char} {a : α}
    (h : untilDone step s text = .ok (a, rest)) : Rounds step s text a rest :=
  .of_iterate h

theorem Rounds.exists_step {step : σ → Reader (Step σ α)} {s : σ} {text rest : List Char} {a : α}
    (h : Rounds step s text a rest) : ∃ x t, step s text = .ok (x, t) := by
  cases h with
  | done h => exact ⟨_, _, h⟩
  | more h _ => exact ⟨_, _, h⟩

theorem Rounds.iff_of_more {step : σ → Reader (Step σ α)} {s s' : σ} {text text' rest : List Char}
    {a : α} (h : step s text = .ok (.more s', text')) :
    Rounds step s text a rest ↔ Rounds step s' text' a rest := by
  refine ⟨fun hrounds => ?_, .more h⟩
  cases hrounds with
  | done hdone => cases hdone.symm.trans h
  | more hmore hrest =>
    cases hmore.symm.trans h
    exact hrest

/-- If every round but the last reads something, no more rounds are needed than are counted. -/
theorem Rounds.untilDone {step : σ → Reader (Step σ α)} {s : σ} {text rest : List Char} {a : α}
    (h : Rounds step s text a rest) (hshorter : ∀ {s text s' text'},
      step s text = .ok (.more s', text') → text'.length < text.length) :
    untilDone step s text = .ok (a, rest) := by
  induction h with
  | done h => exact untilDone_of_done h
  | more h _ ih => exact untilDone_of_more h (hshorter h) ih

/-! ## Frames -/

/-- What may stand behind a value: nothing, a blank, a comma or a closing bracket. -/
def Delimited (rest : List Char) : Prop :=
  ∀ c ∈ rest.head?, isBlank c = true ∨ c = ',' ∨ c = ']' ∨ c = '\x7d'

theorem delimited_nil : Delimited [] := by simp [Delimited]

theorem delimited_cons {c : Char} (h : isBlank c = true ∨ c = ',' ∨ c = ']' ∨ c = '\x7d')
    (t : List Char) : Delimited (c :: t) := by
  simpa [Delimited] using h

/-- The reader takes this text for `a`. A text of a value starts with a character that is neither a
blank nor the end of a list. -/
structure Reads (r : Reader α) (text : List Char) (a : α) : Prop where
  opens : ∃ c t, text = c :: t ∧ isBlank c = false ∧ c ≠ ']'
  ok : ∀ s rest, skipBlanks s = text ++ rest → Delimited rest → r s = .ok (a, rest)

namespace Reads

theorem skipBlanks_eq {r : Reader α} {text : List Char} {a : α} (h : Reads r text a)
    (rest : List Char) : skipBlanks (text ++ rest) = text ++ rest := by
  obtain ⟨c, t, rfl, hc, -⟩ := h.opens
  exact skipBlanks_of_not_blank hc _

theorem length_pos {r : Reader α} {text : List Char} {a : α} (h : Reads r text a) :
    0 < text.length := by
  obtain ⟨c, t, rfl, -, -⟩ := h.opens
  exact Nat.zero_lt_succ _

theorem ok_append {r : Reader α} {text rest : List Char} {a : α} (h : Reads r text a)
    (hd : Delimited rest) : r (text ++ rest) = .ok (a, rest) :=
  h.ok _ _ (h.skipBlanks_eq rest) hd

theorem map {r : Reader α} {text : List Char} {a : α} (h : Reads r text a) (f : α → β) :
    Reads (f <$> r) text (f a) where
  opens := h.opens
  ok s rest hs hd := map_ok (h.ok s rest hs hd)

theorem bind_pure {r : Reader α} {text : List Char} {a : α} (h : Reads r text a) (f : α → β) :
    Reads (do return f (← r)) text (f a) where
  opens := h.opens
  ok s rest hs hd := bind_ok (h.ok s rest hs hd)

/-- A whole text of one value. -/
theorem run {r : Reader α} {text : List Char} {a : α} (h : Reads r text a) :
    r.run (String.ofList text) = .ok a := by
  have hr : r text = .ok (a, []) := by
    rw [← List.append_nil text]
    exact h.ok_append delimited_nil
  unfold Reader.run
  dsimp only
  rw [String.toList_ofList, bind_ok hr]
  rfl

end Reads

theorem framed_ok {close : Reader Unit} {leave : List Char → List Char} {body : Reader α}
    {c : Char} {s t rest : List Char} {a : α} (hb : body s = .ok (a, t))
    (hc : close t = .ok ((), rest)) : framed close leave body (c :: s) = .ok (a, rest) := by
  have hs : (fun s => (body s).mapError (·.settle leave) : Reader α) s = .ok (a, t) := by
    show (body s).mapError _ = _
    rw [hb]
    rfl
  unfold framed
  rw [bind_ok (show advance (c :: s) = .ok ((), s) from rfl), bind_ok hs, bind_ok hc]
  rfl

theorem inList_ok {body : Reader α} {c : Char} {s rest : List Char} {a : α}
    (h : body s = .ok (a, ']' :: rest)) : inList body (c :: s) = .ok (a, rest) := by
  refine framed_ok h ?_
  unfold closeList
  rw [bind_ok (next?_cons (skipBlanks_of_not_blank (by decide) _))]
  rfl

theorem inObject_ok {body : Reader α} {c : Char} {s rest : List Char} {a : α}
    (h : body s = .ok (a, '\x7d' :: rest)) : inObject body (c :: s) = .ok (a, rest) := by
  refine framed_ok h ?_
  unfold closeObject
  rw [bind_ok (next?_cons (skipBlanks_of_not_blank (by decide) _))]
  rfl

end Reader

end OrmDdl.Json
