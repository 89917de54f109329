/-!
# Outcomes in sequence

What a sequence of steps that may fail comes to: the last result if all succeed, or else the first
error. `First` names the element of a list at which a pass over it stops.
-/

namespace OrmDdl.Outcome

variable {ε α β : Type}

/-! ## Two steps -/

theorem bind_eq_ok {x : Except ε α} {f : α → Except ε β} {b : β} :
    (x >>= f) = .ok b ↔ ∃ a, x = .ok a ∧ f a = .ok b := by
  cases x with
  | error e =>
    constructor
    · intro h
      cases h
    · rintro ⟨a, ⟨⟩, _⟩
  | ok a =>
    constructor
    · intro h
      exact ⟨a, rfl, h⟩
    · rintro ⟨_, ⟨⟩, h⟩
      exact h

theorem bind_eq_error {x : Except ε α} {f : α → Except ε β} {e : ε} :
    (x >>= f) = .error e ↔ x = .error e ∨ ∃ a, x = .ok a ∧ f a = .error e := by
  cases x with
  | error d =>
    constructor
    · rintro ⟨⟩
      exact .inl rfl
    · rintro (⟨⟨⟩⟩ | ⟨a, ⟨⟩, _⟩)
      rfl
  | ok a =>
    constructor
    · intro h
      exact .inr ⟨a, rfl, h⟩
    · rintro (⟨⟨⟩⟩ | ⟨_, ⟨⟩, h⟩)
      exact h

/-- Both steps succeed, where the second succeeds after any result of the first or after none. -/
theorem exists_bind_eq_ok {x : Except ε α} {f : α → Except ε β} {q : Prop}
    (h : ∀ a, x = .ok a → ((∃ b, f a = .ok b) ↔ q)) :
    (∃ b, (x >>= f) = .ok b) ↔ (∃ a, x = .ok a) ∧ q := by
  constructor
  · rintro ⟨b, hb⟩
    obtain ⟨a, ha, hf⟩ := bind_eq_ok.1 hb
    exact ⟨⟨a, ha⟩, (h a ha).1 ⟨b, hf⟩⟩
  · rintro ⟨⟨a, ha⟩, hq⟩
    obtain ⟨b, hb⟩ := (h a ha).2 hq
    exact ⟨b, bind_eq_ok.2 ⟨a, ha, hb⟩⟩

/-- The first step fails, or the second fails after any result of the first or after none. -/
theorem bind_eq_error_iff {x : Except ε α} {f : α → Except ε β} {e : ε} {q : Prop}
    (h : ∀ a, x = .ok a → (f a = .error e ↔ q)) :
    (x >>= f) = .error e ↔ x = .error e ∨ (∃ a, x = .ok a) ∧ q := by
  rw [bind_eq_error]
  constructor
  · rintro (hx | ⟨a, ha, hf⟩)
    · exact .inl hx
    · exact .inr ⟨⟨a, ha⟩, (h a ha).1 hf⟩
  · rintro (hx | ⟨⟨a, ha⟩, hq⟩)
    · exact .inl hx
    · exact .inr ⟨a, ha, (h a ha).2 hq⟩

theorem exists_ok_iff {x : Except ε α} : (∃ a, x = .ok a) ↔ ∀ e, x ≠ .error e := by
  cases x with
  | error e => simp
  | ok a => simp

theorem mapError_eq_error {δ : Type} {x : Except ε α} {f : ε → δ} {e : δ} :
    x.mapError f = .error e ↔ ∃ d, x = .error d ∧ e = f d := by
  cases x with
  | error d =>
    constructor
    · rintro ⟨⟩
      exact ⟨d, rfl, rfl⟩
    · rintro ⟨_, ⟨⟩, rfl⟩
      rfl
  | ok a =>
    constructor
    · rintro ⟨⟩
    · rintro ⟨_, ⟨⟩, _⟩

theorem mapError_eq_ok {δ : Type} {x : Except ε α} {f : ε → δ} {a : α} :
    x.mapError f = .ok a ↔ x = .ok a := by
  cases x with
  | error d =>
    constructor
    · rintro ⟨⟩
    · rintro ⟨⟩
  | ok b =>
    constructor
    · rintro ⟨⟩
      rfl
    · rintro ⟨⟩
      rfl

/-- A last step that cannot fail changes no error. -/
theorem bind_pure_eq_error {x : Except ε α} {f : α → β} {e : ε} :
    (x >>= fun a => pure (f a)) = .error e ↔ x = .error e := by
  rw [bind_eq_error]
  constructor
  · rintro (h | ⟨_, _, ⟨⟩⟩)
    exact h
  · exact .inl

theorem exists_bind_pure {x : Except ε α} {f : α → β} :
    (∃ b, (x >>= fun a => pure (f a)) = .ok b) ↔ ∃ a, x = .ok a := by
  simp only [exists_ok_iff, ne_eq, bind_pure_eq_error]

/-! ## The first of a list -/

/-- `x` is the first element of the list with the property. -/
def First (p : α → Prop) (l : List α) (x : α) : Prop :=
  ∃ before after, l = before ++ x :: after ∧ p x ∧ ∀ y ∈ before, ¬p y

theorem First.mem {p : α → Prop} {l : List α} {x : α} (h : First p l x) : x ∈ l := by
  obtain ⟨before, after, rfl, -⟩ := h
  exact List.mem_append_right _ List.mem_cons_self

theorem not_first_nil {p : α → Prop} {x : α} : ¬First p [] x := by
  rintro ⟨before, after, h, -⟩
  simp at h

theorem first_cons {p : α → Prop} {x y : α} {l : List α} :
    First p (x :: l) y ↔ (p x ∧ y = x) ∨ (¬p x ∧ First p l y) := by
  constructor
  · rintro ⟨before, after, h, hy, hbefore⟩
    cases before with
    | nil =>
      obtain ⟨rfl, rfl⟩ := List.cons.inj h
      exact .inl ⟨hy, rfl⟩
    | cons z before =>
      obtain ⟨rfl, rfl⟩ := List.cons.inj h
      refine .inr ⟨hbefore _ (List.mem_cons_self ..), before, after, rfl, hy, ?_⟩
      exact fun w hw => hbefore w (List.mem_cons_of_mem _ hw)
  · rintro (⟨hx, rfl⟩ | ⟨hx, before, after, rfl, hy, hbefore⟩)
    · exact ⟨[], l, rfl, hx, fun _ h => nomatch h⟩
    · refine ⟨x :: before, after, rfl, hy, fun w hw => ?_⟩
      rcases List.mem_cons.1 hw with rfl | hw
      · exact hx
      · exact hbefore w hw

theorem first_append {p : α → Prop} {x : α} (l r : List α) :
    First p (l ++ r) x ↔ First p l x ∨ (∀ y ∈ l, ¬p y) ∧ First p r x := by
  induction l with
  | nil => simp [not_first_nil]
  | cons z l ih =>
    rw [List.cons_append, first_cons, first_cons, ih, List.forall_mem_cons]
    constructor
    · rintro (h | ⟨hz, h | ⟨hl, h⟩⟩)
      · exact .inl (.inl h)
      · exact .inl (.inr ⟨hz, h⟩)
      · exact .inr ⟨⟨hz, hl⟩, h⟩
    · rintro ((h | ⟨hz, h⟩) | ⟨⟨hz, hl⟩, h⟩)
      · exact .inl h
      · exact .inr ⟨hz, .inl h⟩
      · exact .inr ⟨hz, .inr ⟨hl, h⟩⟩

/-- What holds of the first such element holds of the head, or the head is passed. -/
theorem exists_first_cons {p q : α → Prop} {x : α} {l : List α} :
    (∃ y, First p (x :: l) y ∧ q y) ↔ (p x ∧ q x) ∨ (¬p x ∧ ∃ y, First p l y ∧ q y) := by
  constructor
  · rintro ⟨y, hy, hq⟩
    rcases first_cons.1 hy with ⟨hx, rfl⟩ | ⟨hx, hy⟩
    · exact .inl ⟨hx, hq⟩
    · exact .inr ⟨hx, y, hy, hq⟩
  · rintro (⟨hx, hq⟩ | ⟨hx, y, hy, hq⟩)
    · exact ⟨x, first_cons.2 (.inl ⟨hx, rfl⟩), hq⟩
    · exact ⟨y, first_cons.2 (.inr ⟨hx, hy⟩), hq⟩

/-- The first such element stands behind a front of others. -/
theorem first_iff_take {p : α → Prop} {l : List α} {x : α} :
    First p l x ↔ ∃ i, l[i]? = some x ∧ p x ∧ ∀ y ∈ l.take i, ¬p y := by
  constructor
  · rintro ⟨before, after, rfl, hx, hbefore⟩
    refine ⟨before.length, ?_, hx, ?_⟩
    · rw [List.getElem?_append_right (Nat.le_refl _), Nat.sub_self]
      rfl
    · rw [List.take_left]
      exact hbefore
  · rintro ⟨i, hi, hx, hbefore⟩
    refine ⟨l.take i, l.drop (i + 1), ?_, hx, hbefore⟩
    obtain ⟨hlt, rfl⟩ := List.getElem?_eq_some_iff.1 hi
    rw [← List.drop_eq_getElem_cons hlt, List.take_append_drop]

theorem find?_eq_some_iff_first {p : α → Bool} {l : List α} {x : α} :
    l.find? p = some x ↔ First (fun y => p y = true) l x := by
  rw [List.find?_eq_some_iff_append]
  constructor
  · rintro ⟨hx, before, after, h, hbefore⟩
    exact ⟨before, after, h, hx, fun y hy => by simpa using hbefore y hy⟩
  · rintro ⟨before, after, h, hx, hbefore⟩
    exact ⟨hx, before, after, h, fun y hy => by simpa using hbefore y hy⟩

/-! ## All of a list -/

/-- A pass over a list succeeds if every step does. -/
theorem mapM_eq_ok {f : α → Except ε β} {l : List α} : ∀ {r : List β},
    l.mapM f = .ok r ↔ l.map f = r.map .ok := by
  induction l with
  | nil =>
    intro r
    rw [List.mapM_nil, List.map_nil]
    cases r with
    | nil => exact ⟨fun _ => rfl, fun _ => rfl⟩
    | cons y r =>
      constructor
      · rintro ⟨⟩
      · rintro ⟨⟩
  | cons x l ih =>
    intro r
    rw [List.mapM_cons, List.map_cons, bind_eq_ok]
    simp only [bind_eq_ok, ih]
    constructor
    · rintro ⟨y, hy, ys, hys, ⟨⟩⟩
      rw [hy, hys, List.map_cons]
    · intro h
      cases r with
      | nil => cases h
      | cons y ys =>
        obtain ⟨hy, hys⟩ := List.cons.inj h
        exact ⟨y, hy, ys, hys, rfl⟩

/-- A pass over a list fails as its first step that fails. -/
theorem mapM_eq_error {f : α → Except ε β} {l : List α} {e : ε} :
    l.mapM f = .error e ↔ ∃ x, First (fun x => ∃ e, f x = .error e) l x ∧ f x = .error e := by
  induction l with
  | nil =>
    constructor
    · rintro ⟨⟩
    · rintro ⟨x, hx, -⟩
      exact absurd hx not_first_nil
  | cons x l ih =>
    have hok : (∃ y, f x = .ok y) ↔ ¬∃ e, f x = .error e := by
      rw [exists_ok_iff, not_exists]
    rw [List.mapM_cons, bind_eq_error_iff fun _ _ => bind_pure_eq_error, ih, exists_first_cons,
      ← hok]
    exact or_congr_left ⟨fun h => ⟨⟨e, h⟩, h⟩, And.right⟩

end OrmDdl.Outcome
