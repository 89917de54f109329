import OrmDdl.Json.Value
import OrmDdl.Proofs.Json.LocalScalars
/-!
# Values are read by themselves

`graded_value`: a value is read as the same wherever it stands, and with any number of brackets to
open that it does not exceed. `agrees_passValue`: a value that nobody wants is passed alike, and its
brackets are not counted.
-/

namespace OrmDdl.Json

namespace Reader

variable {α β : Type}

/-! ## Members -/

section

variable {E : List Char → Prop} {r r' : Reader α}

theorem next?_eq_ok {s t : List Char} {o : Option Char} (h : next? s = .ok (o, t)) :
    t.head? = o := by
  rw [next?_eq] at h
  cases h
  rfl

/-- A member starts at the quote of its name. -/
theorem nextMember_eq_true {first : Bool} {s t : List Char}
    (h : nextMember first s = .ok (true, t)) : ∃ u, t = '"' :: u := by
  obtain ⟨o, u, hnext, h⟩ := bind_eq_ok h
  have hhead := next?_eq_ok hnext
  split at h
  · cases h
  · split at h
    · cases h
      exact List.head?_eq_some_iff.1 hhead
    · cases h
  · split at h
    · cases h
    · obtain ⟨_, v, -, h⟩ := bind_eq_ok h
      obtain ⟨o, w, hnext, h⟩ := bind_eq_ok h
      have hhead := next?_eq_ok hnext
      split at h
      · cases h
        exact List.head?_eq_some_iff.1 hhead
      · cases h
      · cases h
      · cases h
  · split at h <;> cases h
  · cases h

/-- Behind what starts a member its name is read. -/
theorem agreesOn_name {f f' : String → Reader β} {Q : β → List Char → Prop} (hE : Spreads E)
    {first : Bool} {s t : List Char} (h : nextMember first s = .ok (true, t))
    (hf : ∀ name u, AgreesOn Q E (f name) (f' name) u)
    (hQ : ∀ b c d, Solid c → Q b d → Q b (c ++ d)) :
    AgreesOn Q E (string >>= f) (string >>= f') t := by
  obtain ⟨u, rfl⟩ := nextMember_eq_true h
  exact (agreesOn_string u).bind (fun name u _ => hf name u) (fun _ => hQ) hE.left
    fun _ _ _ hc => hE.right hc.balanced

theorem agrees_members (hE : Spreads E) (h : Agrees (fun _ => Solid) E r r') :
    Agrees (fun _ => Balanced) E (members r) (members r') := by
  refine agrees_values hE (fun read s => ?_) []
  unfold memberStep
  refine (agrees_nextMember hE _ s).seq (fun more s hmore => ?_) stepShape_append hE
  cases more with
  | true =>
    refine agreesOn_name hE hmore (fun name s => ?_)
      fun x c d hc hd => stepShape_append x c d hc.balanced hd
    refine (agrees_colon hE s).solid_balanced.seq (fun _ s _ => ?_) stepShape_append hE
    exact (h s).bind_pure fun _ _ hc => hc
  | false => exact agrees_pure balanced_nil s

end

/-! ## Values -/

/-- A reader that may open so many brackets takes the same with fewer, unless the text opens too
many, and the same with more. -/
def Graded (r : Nat → Reader α) : Prop := ∀ n n', Agrees (fun _ => Solid) (Spent n n') (r n) (r n')

theorem value_eq (n : Nat) : value n = (start >>= fun c =>
    match c with
    | 'n' => word "null" >>= fun _ => pure .null
    | 't' => word "true" >>= fun _ => pure (.bool true)
    | 'f' => word "false" >>= fun _ => pure (.bool false)
    | '"' => string >>= fun s => pure (.string s)
    | '[' => Json.array <$> deeper n fun m => inList (elements (value m))
    | '\x7b' => Json.object <$> deeper n fun m => inObject (members (value m))
    | c => if c = '-' ∨ c.isDigit then number >>= fun n => pure (.number n)
      else failNext .expectedValue) := by
  cases n with
  | zero =>
    rw [value]
    rfl
  | succ n =>
    rw [value]
    rfl

theorem graded_value : Graded value := by
  intro n
  induction n using Nat.strong_induction_on with
  | _ n ih =>
    intro n' s
    have hE := spreads_spent n n'
    rw [value_eq, value_eq]
    refine agrees_start solid_append hE (fun c u _ => ?_) s
    split
    · exact (agreesOn_word rfl (by decide)).bind_pure fun _ _ hc => hc
    · exact (agreesOn_word rfl (by decide)).bind_pure fun _ _ hc => hc
    · exact (agreesOn_word rfl (by decide)).bind_pure fun _ _ hc => hc
    · exact (agreesOn_string u).bind_pure fun _ _ hc => hc
    · refine ((closedOn_inList (fun m hm m' => ?_) n' u).map _).agreesOn
      exact agrees_elements (spreads_spent m m') (ih m (by omega) m')
    · refine ((closedOn_inObject (fun m hm m' => ?_) n' u).map _).agreesOn
      exact agrees_members (spreads_spent m m') (ih m (by omega) m')
    · split
      · exact (agrees_number hE _).bind_pure fun _ _ hc => hc
      · exact .of_fails fun a t h => nomatch h

/-! ## Passing values -/

/-- What follows an opening bracket, up to the bracket that closes it. -/
def EndsBracket (text : List Char) : Prop :=
  ∃ inner k, text = inner ++ [k] ∧ IsClosing k ∧ Balanced inner

theorem EndsBracket.append_left {c d : List Char} (hc : Balanced c) (hd : EndsBracket d) :
    EndsBracket (c ++ d) := by
  obtain ⟨inner, k, rfl, hk, hinner⟩ := hd
  exact ⟨c ++ inner, k, (List.append_assoc c inner [k]).symm, hk, hc.append hinner⟩

theorem EndsBracket.solid {o : Char} {r : List Char} (ho : IsOpening o) (h : EndsBracket r) :
    Solid (o :: r) := by
  obtain ⟨inner, k, rfl, hk, hinner⟩ := h
  exact ⟨balanced_bracketed ho hk hinner, List.cons_ne_nil _ _⟩

/-- What is passed behind an element: a comma, or the bracket that ends the list. -/
def SeparatorShape : Bool → List Char → Prop
  | true, c => Balanced c
  | false, c => EndsBracket c

section

variable {E : List Char → Prop} {close : Char} {orEnd atEnd : Cause}

theorem agreesOn_advance_close {k : Char} (hk : IsClosing k) (u : List Char) :
    AgreesOn (fun _ => EndsBracket) E advance advance (k :: u) := by
  intro a t ha
  cases ha
  exact ⟨[k], rfl, ⟨[], k, rfl, hk, balanced_nil⟩, fun _ _ _ => .inl rfl⟩

theorem agrees_passSeparator (hclose : IsClosing close) (hE : Spreads E) :
    Agrees SeparatorShape E (passSeparator close orEnd atEnd)
      (passSeparator close orEnd atEnd) := by
  unfold passSeparator
  refine agrees_next? ?_ hE (fun a t h => nomatch h) fun c u _ => ?_
  · intro more c d hc hd
    cases more with
    | true => exact hc.append hd
    | false => exact hd.append_left hc
  by_cases hcomma : c = ','
  · subst hcomma
    exact (agreesOn_advance_end (by decide)).bind_pure fun _ _ hd => hd.balanced
  by_cases hend : c = close
  · subst hend
    simp only [if_neg hcomma, if_true]
    exact (agreesOn_advance_close hclose u).bind_pure fun _ _ hd => hd
  · simp only [if_neg hcomma, if_neg hend]
    exact .of_fails fun a t h => nomatch h

/-- Behind an opening bracket. -/
theorem AgreesOn.opened {E' : List Char → Prop} {q q' : Reader α} {o : Char} {u : List Char}
    (ho : IsOpening o) (hE' : ∀ {c}, E c → E' (o :: c))
    (h : AgreesOn (fun _ => EndsBracket) E q q' u) :
    AgreesOn (fun _ => Solid) E' (advance >>= fun _ => q) (advance >>= fun _ => q') (o :: u) :=
  h.cons (fun _ => rfl) (fun _ => rfl) (fun _ _ hd => hd.solid ho) fun _ hd => hE' hd

theorem agreesOn_passElements {E' : List Char → Prop} {element element' : Reader Unit}
    {o : Char} (ho : IsOpening o) (hclose : IsClosing close) (hE : Spreads E)
    (hE' : ∀ {c}, E c → E' (o :: c)) (helement : Agrees (fun _ => Solid) E element element')
    (u : List Char) :
    AgreesOn (fun _ => Solid) E' (passElements close orEnd atEnd element)
      (passElements close orEnd atEnd element') (o :: u) := by
  unfold passElements
  refine .opened ho hE' (agrees_next? (fun _ _ _ => EndsBracket.append_left) hE ?_ ?_ u)
  · exact fun a t h => nomatch h
  intro c u _
  by_cases hc : c = close
  · subst hc
    simp only [if_true]
    exact agreesOn_advance_close hclose u
  simp only [if_neg hc]
  refine agrees_untilDone (M := Solid) (fun x s => ?_) (fun hc => hc.ne_nil)
    (fun hc hd => hd.append_left hc.balanced) hE.left (fun hc hd => hE.right hc.balanced hd) () _
  refine (helement s).bind (Q := fun _ => StepShape Balanced fun _ => EndsBracket)
    (fun _ t _ => ?_) ?_ hE.left fun _ _ _ hc => hE.right hc.balanced
  · refine (agrees_passSeparator hclose hE t).bind_of_pure fun more => ?_
    cases more with
    | true => exact ⟨.more (), rfl, fun _ hd => hd⟩
    | false => exact ⟨.done (), rfl, fun _ hd => hd⟩
  · intro _ y c d hc hd
    cases y with
    | more => exact hc.append_right hd
    | done => exact hd.append_left hc.balanced

/-- A name that is passed, and its colon. -/
theorem agrees_passName (hE : Spreads E) : Agrees (fun _ => Solid) E passName passName := by
  unfold passName
  refine agrees_next? solid_append hE (fun a t h => nomatch h) fun c u _ => ?_
  split
  · next heq =>
    cases heq
    exact (agreesOn_passString u).seq_solid (fun _ s _ => (agrees_colon hE s).solid_balanced) hE
  · exact .of_fails fun a t h => nomatch h
  · exact .of_fails fun a t h => nomatch h

end

/-- The excuse of passing a value: it is as long as it may be deep. -/
def Exhausted (k : Nat) (c : List Char) : Prop := k ≤ c.length

theorem spreads_exhausted (k : Nat) : Spreads (Exhausted k) where
  left h := by
    unfold Exhausted at h ⊢
    rw [List.length_append]
    omega
  right _ h := by
    unfold Exhausted at h ⊢
    rw [List.length_append]
    omega

theorem Exhausted.cons {k : Nat} {o : Char} {c : List Char} (h : Exhausted k c) :
    Exhausted (k + 1) (o :: c) := Nat.succ_le_succ h

theorem agrees_passNested (k : Nat) :
    ∀ k', Agrees (fun _ => Solid) (Exhausted k') (passNested k) (passNested k') := by
  induction k with
  | zero => exact fun _ _ => .of_fails fun a t h => nomatch h
  | succ k ih =>
    have hsucc : ∀ k', Agrees (fun _ => Solid) (Exhausted (k' + 1)) (passNested (k + 1))
        (passNested (k' + 1)) := by
      intro k' s
      have hE := spreads_exhausted (k' + 1)
      have hE' := spreads_exhausted k'
      unfold passNested
      refine agrees_start solid_append hE (fun c u _ => ?_) s
      split
      · exact agreesOn_word rfl (by decide)
      · exact agreesOn_word rfl (by decide)
      · exact agreesOn_word rfl (by decide)
      · exact agreesOn_passString u
      · exact agreesOn_passElements (.inl rfl) (.inl rfl) hE' .cons (ih k') u
      · refine agreesOn_passElements (.inr rfl) (.inr rfl) hE' .cons (fun s => ?_) u
        exact (agrees_passName hE' s).seq_solid (fun _ s _ => (ih k' s).solid_balanced) hE'
      · split
        · exact (agrees_numeral hE _ _).bind_pure fun _ _ hc => hc
        · exact .of_fails fun a t h => nomatch h
    intro k'
    cases k' with
    | succ k' => exact hsucc k'
    | zero =>
      intro s a t h
      obtain ⟨c, hs, hc, -⟩ := hsucc 0 s a t h
      exact ⟨c, hs, hc, fun _ _ _ => .inr ⟨Nat.zero_le _, _, rfl⟩⟩

/-- No text is nested deeper than it is long, so passing a value needs no excuse. -/
theorem agrees_passValue {E : List Char → Prop} :
    Agrees (fun _ => Solid) E passValue passValue := by
  intro s a t h
  obtain ⟨c, hs, hc, -⟩ := agrees_passNested (s.length + 1) 0 s a t h
  refine ⟨c, hs, hc, fun ht t' hhead => .inl ?_⟩
  obtain ⟨c', hs', -, htakes⟩ := agrees_passNested _ ((c ++ t').length + 1) s a t h
  obtain rfl : c' = c := List.append_cancel_right (hs'.symm.trans hs)
  obtain htaken | ⟨hexcuse, -⟩ := htakes ht t' hhead
  · exact htaken
  · unfold Exhausted at hexcuse
    rw [List.length_append] at hexcuse
    omega

end Reader

end OrmDdl.Json
