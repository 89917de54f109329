import OrmDdl.Proofs.Json.Members
/-!
# Outcomes

`outcome r s` is what the reader `r` takes of a text and what it leaves, or nothing if it fails,
with whatever fault. Outcomes are computed: that of a sequence from those of its parts
(`outcome_bind`), that of a repetition over pieces between commas (`Listed`) by a fold over them
(`Repeats.outcome_untilDone`).
-/

namespace OrmDdl.Json

open Reader

variable {α β σ ι : Type}

namespace Reader

def outcome (r : Reader α) (s : List Char) : Option (α × List Char) := (r s).toOption

theorem outcome_eq_some {r : Reader α} {s t : List Char} {a : α} :
    outcome r s = some (a, t) ↔ r s = .ok (a, t) := by
  unfold outcome
  cases r s with
  | error fault => exact ⟨(nomatch ·), (nomatch ·)⟩
  | ok p =>
    exact ⟨fun h => congrArg _ (Option.some.inj h), fun h => congrArg some (Except.ok.inj h)⟩

theorem outcome_of_ok {r : Reader α} {s t : List Char} {a : α} (h : r s = .ok (a, t)) :
    outcome r s = some (a, t) :=
  outcome_eq_some.2 h

theorem outcome_eq_none {r : Reader α} {s : List Char} (h : ∀ a t, r s ≠ .ok (a, t)) :
    outcome r s = none := by
  cases hread : outcome r s with
  | none => rfl
  | some p => exact absurd (outcome_eq_some.1 hread) (h p.1 p.2)

theorem outcome_bind (x : Reader α) (f : α → Reader β) (s : List Char) :
    outcome (x >>= f) s = (outcome x s).bind fun p => outcome (f p.1) p.2 := by
  show (x s >>= fun p => f p.1 p.2).toOption = _
  unfold outcome
  cases x s with
  | error fault => rfl
  | ok p => rfl

theorem outcome_bind_ok {x : Reader α} {f : α → Reader β} {s t : List Char} {a : α}
    (h : x s = .ok (a, t)) : outcome (x >>= f) s = outcome (f a) t :=
  congrArg Except.toOption (bind_ok h)

theorem outcome_map (f : α → β) (x : Reader α) (s : List Char) :
    outcome (f <$> x) s = (outcome x s).map fun p => (f p.1, p.2) := by
  rw [map_eq_pure_bind, outcome_bind]
  cases outcome x s with
  | none => rfl
  | some p => rfl

theorem outcome_bind_pure (f : α → β) (x : Reader α) (s : List Char) :
    outcome (do return f (← x)) s = (outcome x s).map fun p => (f p.1, p.2) := by
  rw [← map_eq_pure_bind, outcome_map]

theorem outcome_settled (r : Reader α) (s : List Char) :
    outcome (settled r) s = outcome r s := by
  unfold outcome settled
  cases r s with
  | error fault => rfl
  | ok p => rfl

theorem outcome_mismatch (expected : String) (s : List Char) :
    outcome (mismatch expected : Reader α) s = none :=
  outcome_eq_none (mismatch_ne_ok expected s)

/-- Between two brackets the body is read, then the closing one. -/
theorem outcome_framed (close : Reader Unit) (leave : List Char → List Char) (body : Reader α)
    (o : Char) (s : List Char) : outcome (framed close leave body) (o :: s) =
      outcome (do let a ← body; close; return a) s := by
  have hbody : outcome (fun s => (body s).mapError (·.settle leave) : Reader α) s =
      outcome body s := by
    show ((body s).mapError _).toOption = (body s).toOption
    cases body s with
    | error fault => rfl
    | ok p => rfl
  unfold framed
  rw [outcome_bind_ok (advance_cons o s), outcome_bind, outcome_bind, hbody]

/-- A text on which the body ends at the bracket. -/
theorem outcome_framed_map {close : Reader Unit} {leave : List Char → List Char} {body : Reader α}
    {o c : Char} {s rest : List Char} {x : Option α} (hclose : close (c :: rest) = .ok ((), rest))
    (h : outcome body s = x.map fun a => (a, c :: rest)) :
    outcome (framed close leave body) (o :: s) = x.map fun a => (a, rest) := by
  rw [outcome_framed, outcome_bind, h]
  cases x with
  | none => rfl
  | some a => exact outcome_bind_ok hclose

theorem closeList_ok (rest : List Char) : closeList (']' :: rest) = .ok ((), rest) := by
  unfold closeList
  rw [bind_ok (next?_cons (skipBlanks_of_not_blank (by decide) _))]
  rfl

theorem closeObject_ok (rest : List Char) : closeObject ('\x7d' :: rest) = .ok ((), rest) := by
  unfold closeObject
  rw [bind_ok (next?_cons (skipBlanks_of_not_blank (by decide) _))]
  rfl

theorem outcome_inList {body : Reader α} {o : Char} {s rest : List Char} {x : Option α}
    (h : outcome body s = x.map fun a => (a, ']' :: rest)) :
    outcome (inList body) (o :: s) = x.map fun a => (a, rest) :=
  outcome_framed_map (closeList_ok rest) h

theorem outcome_inObject {body : Reader α} {o : Char} {s rest : List Char} {x : Option α}
    (h : outcome body s = x.map fun a => (a, '\x7d' :: rest)) :
    outcome (inObject body) (o :: s) = x.map fun a => (a, rest) :=
  outcome_framed_map (closeObject_ok rest) h

theorem nextElement_end (first : Bool) {blanks : List Char} (h : AreBlanks blanks) (t : List Char) :
    nextElement first (blanks ++ ']' :: t) = .ok (false, ']' :: t) := by
  unfold nextElement
  rw [bind_ok (next?_cons (skipBlanks_blanks_append h (by decide) t))]
  rfl

theorem nextMember_end (first : Bool) {blanks : List Char} (h : AreBlanks blanks) (t : List Char) :
    nextMember first (blanks ++ '\x7d' :: t) = .ok (false, '\x7d' :: t) := by
  unfold nextMember
  rw [bind_ok (next?_cons (skipBlanks_blanks_append h (by decide) t))]
  rfl

theorem nextElement_ok {first : Bool} {pre : List Char} (h : LeadsIn first pre) {c : Char}
    (hblank : isBlank c = false) (hc : c ≠ ']') (t : List Char) :
    nextElement first (pre ++ c :: t) = .ok (true, c :: t) := by
  unfold nextElement
  cases first with
  | true =>
    rw [bind_ok (next?_cons (skipBlanks_blanks_append h hblank t))]
    refine congrFun (g := (pure true : Reader Bool)) ?_ (c :: t)
    simp only [if_true]
    split
    · next heq => exact absurd (Option.some.inj heq) hc
    · rfl
    · rfl
    · next heq => cases heq
  | false =>
    obtain ⟨behind, before, rfl, hbehind, hbefore⟩ := h
    rw [List.append_assoc, List.cons_append,
      bind_ok (next?_cons (skipBlanks_blanks_append hbehind (by decide) (before ++ c :: t)))]
    show (advance >>= fun _ => next? >>= _) (',' :: (before ++ c :: t)) = _
    rw [bind_ok (advance_cons _ _),
      bind_ok (next?_cons (skipBlanks_blanks_append hbefore hblank t))]
    refine congrFun (g := (pure true : Reader Bool)) ?_ (c :: t)
    split
    · next heq => exact absurd (Option.some.inj heq) hc
    · rfl
    · next heq => cases heq

end Reader

/-! ## Pieces between commas -/

/-- Pieces with commas between them and blanks around them. A comma stands before the first as well
if it is not the first of all. -/
inductive Listed : Bool → List (List Char) → List Char → Prop
  | nil {first : Bool} {blanks : List Char} (h : AreBlanks blanks) : Listed first [] blanks
  | cons {first : Bool} {pre piece rest : List Char} {pieces : List (List Char)}
      (hpre : LeadsIn first pre) (hrest : Listed false pieces rest) :
      Listed first (piece :: pieces) (pre ++ (piece ++ rest))

namespace Listed

/-- What stands behind a piece ends it. -/
theorem delimited {pieces : List (List Char)} {rest : List Char} {close : Char}
    (h : Listed false pieces rest) (hclose : IsClosing close) (t : List Char) :
    Delimited (rest ++ close :: t) := by
  cases h with
  | nil h => exact delimited_blanks_append h (.inr hclose) t
  | cons hpre _ =>
    obtain ⟨behind, before, rfl, hbehind, -⟩ := hpre
    rw [List.append_assoc, List.append_assoc]
    exact delimited_blanks_append hbehind (.inl rfl) _

theorem length_le {first : Bool} {pieces : List (List Char)} {body : List Char}
    (h : Listed first pieces body) (hpieces : ∀ piece ∈ pieces, piece ≠ []) :
    pieces.length ≤ body.length := by
  induction h with
  | nil => exact Nat.zero_le _
  | @cons first pre piece rest pieces _ _ ih =>
    obtain ⟨hpiece, hpieces⟩ := List.forall_mem_cons.1 hpieces
    have hpos := List.length_pos_iff.2 hpiece
    have hle := ih hpieces
    simp only [List.length_append, List.length_cons]
    omega

end Listed

/-- A repetition that takes pieces one after the other, up to a bracket. `act` says what a piece
makes of the state, `fin` what the bracket makes of it. -/
structure Repeats (step : σ → Reader (Step σ β)) (first : σ → Bool) (close : Char)
    (text : ι → List Char) (act : σ → ι → Option σ) (fin : σ → Option β) (xs : List ι) : Prop where
  isClosing : IsClosing close
  ne_nil : ∀ x ∈ xs, text x ≠ []
  /-- Behind a piece no other is the first. -/
  later : ∀ s, ∀ x ∈ xs, ∀ s', act s x = some s' → first s' = false
  more : ∀ s, ∀ x ∈ xs, ∀ pre rest, LeadsIn (first s) pre → Delimited rest →
    outcome (step s) (pre ++ (text x ++ rest)) = (act s x).map fun s' => (.more s', rest)
  done : ∀ s blanks rest, AreBlanks blanks →
    outcome (step s) (blanks ++ close :: rest) = (fin s).map fun b => (.done b, close :: rest)

namespace Repeats

variable {step : σ → Reader (Step σ β)} {first : σ → Bool} {close : Char} {text : ι → List Char}
  {act : σ → ι → Option σ} {fin : σ → Option β} {xs : List ι}

theorem tail {x : ι} (h : Repeats step first close text act fin (x :: xs)) :
    Repeats step first close text act fin xs where
  isClosing := h.isClosing
  ne_nil y hy := h.ne_nil y (List.mem_cons_of_mem _ hy)
  later s y hy := h.later s y (List.mem_cons_of_mem _ hy)
  more s y hy := h.more s y (List.mem_cons_of_mem _ hy)
  done := h.done

theorem outcome_iterate (h : Repeats step first close text act fin xs) (rest : List Char) :
    ∀ {rounds : List Char} {s : σ} {body : List Char}, xs.length < rounds.length →
      Listed (first s) (xs.map text) body →
      outcome (iterate step rounds s) (body ++ close :: rest) =
        ((xs.foldlM act s).bind fin).map fun b => (b, close :: rest) := by
  induction xs with
  | nil =>
    intro rounds s body hrounds hbody
    obtain ⟨c, rounds, rfl⟩ := List.exists_cons_of_length_pos hrounds
    cases hbody with
    | nil hblanks =>
      show outcome (step s >>= _) _ = _
      rw [outcome_bind, h.done s _ rest hblanks]
      show _ = (fin s).map _
      cases fin s with
      | none => rfl
      | some b => rfl
  | cons x xs ih =>
    intro rounds s body hrounds hbody
    obtain ⟨c, rounds, rfl⟩ := List.exists_cons_of_length_pos (Nat.zero_lt_of_lt hrounds)
    cases hbody with
    | @cons _ pre _ behind _ hpre hbehind =>
      have hdelimited := hbehind.delimited h.isClosing rest
      have hx := List.mem_cons_self (a := x) (l := xs)
      rw [List.append_assoc, List.append_assoc]
      show outcome (step s >>= _) _ = _
      rw [outcome_bind, h.more s x hx pre _ hpre hdelimited, List.foldlM_cons]
      cases hact : act s x with
      | none => rfl
      | some s' =>
        have hs' := h.later s x hx s' hact
        exact ih h.tail (Nat.lt_of_succ_lt_succ hrounds) (hs' ▸ hbehind)

/-- The rounds of a repetition are those of a fold over the pieces. -/
theorem outcome_untilDone (h : Repeats step first close text act fin xs) {s : σ}
    {body : List Char} (hbody : Listed (first s) (xs.map text) body) (rest : List Char) :
    outcome (untilDone step s) (body ++ close :: rest) =
      ((xs.foldlM act s).bind fin).map fun b => (b, close :: rest) := by
  have hlength : xs.length ≤ body.length := by
    have hpieces : ∀ piece ∈ xs.map text, piece ≠ [] := List.forall_mem_map.2 h.ne_nil
    have hle := hbody.length_le hpieces
    rwa [List.length_map] at hle
  refine h.outcome_iterate rest ?_ hbody
  rw [List.length_cons, List.length_append]
  omega

end Repeats

end OrmDdl.Json
