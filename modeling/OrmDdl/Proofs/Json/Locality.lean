import Mathlib.Tactic.Choose
import OrmDdl.Json.Reader
import OrmDdl.Proofs.Json.Nesting
/-!
# Readers look no further than their value

`AgreesOn P E r r' s`: what `r` takes of `s` the reader `r'` takes as the same, whatever stands
behind the character that follows it; `P` says what is taken. There is one excuse: too many
brackets are open for `r'`, and then `E` holds of what was taken.
-/

namespace OrmDdl.Json

namespace Reader

variable {α β σ : Type}

/-- The outcome is a fault of this cause. -/
def FailsWith (cause : Cause) (x : Except Fault (α × List Char)) : Prop :=
  ∃ place, x = .error ⟨cause, place⟩

/-- The reader takes the front `c` as `a` wherever what follows starts as `t` does. -/
def Takes (E : List Char → Prop) (r : Reader α) (a : α) (c t : List Char) : Prop :=
  t ≠ [] → ∀ t', t'.head? = t.head? →
    r (c ++ t') = .ok (a, t') ∨ E c ∧ FailsWith .tooDeep (r (c ++ t'))

/-- What the first reader takes of the text, the second takes as the same. -/
def AgreesOn (P : α → List Char → Prop) (E : List Char → Prop) (r r' : Reader α)
    (s : List Char) : Prop :=
  ∀ a t, r s = .ok (a, t) → ∃ c, s = c ++ t ∧ P a c ∧ Takes E r' a c t

def Agrees (P : α → List Char → Prop) (E : List Char → Prop) (r r' : Reader α) : Prop :=
  ∀ s, AgreesOn P E r r' s

/-- An excuse for a part is one for the whole. -/
structure Spreads (E : List Char → Prop) : Prop where
  left : ∀ {a b}, E a → E (a ++ b)
  right : ∀ {a b}, Balanced a → E b → E (a ++ b)

namespace FailsWith

variable {cause : Cause} {s : List Char}

theorem bind {x : Reader α} {f : α → Reader β} (h : FailsWith cause (x s)) :
    FailsWith cause ((x >>= f) s) := by
  obtain ⟨place, h⟩ := h
  refine ⟨place, ?_⟩
  show (x s >>= fun p => f p.1 p.2) = _
  rw [h]
  rfl

theorem map {x : Reader α} {f : α → β} (h : FailsWith cause (x s)) :
    FailsWith cause ((f <$> x) s) := by
  rw [map_eq_pure_bind]
  exact h.bind

theorem mapError {x : Except Fault (α × List Char)} (h : FailsWith cause x)
    (leave : List Char → List Char) : FailsWith cause (x.mapError (·.settle leave)) := by
  obtain ⟨place, rfl⟩ := h
  cases place with
  | left n => exact ⟨_, rfl⟩
  | opened rest => exact ⟨_, rfl⟩

theorem framed {close : Reader Unit} {leave : List Char → List Char} {body : Reader α} {o : Char}
    (h : FailsWith cause (body s)) :
    FailsWith cause (Reader.framed close leave body (o :: s)) := by
  unfold Reader.framed
  rw [bind_ok (show advance (o :: s) = .ok ((), s) from rfl)]
  exact bind (h.mapError leave)

/-- A round that fails ends a repetition, be there one round before it. -/
theorem untilDone {step : σ → Reader (Step σ α)} {t t' : σ} {text : List Char}
    (hstep : step t text = .ok (.more t', s)) (hne : text ≠ []) (h : FailsWith cause (step t' s)) :
    FailsWith cause (Reader.untilDone step t text) := by
  obtain ⟨c, r, rfl⟩ := List.exists_cons_of_ne_nil hne
  have hnext : FailsWith cause (iterate step (c :: r) t' s) := h.bind
  show FailsWith cause ((step t >>= _) (c :: r))
  rw [bind_ok hstep]
  exact hnext

end FailsWith

section

variable {P : α → List Char → Prop} {E : List Char → Prop} {r r' : Reader α} {s : List Char}

theorem AgreesOn.of_fails (h : ∀ a t, r s ≠ .ok (a, t)) : AgreesOn P E r r' s :=
  fun a t ha => absurd ha (h a t)

theorem AgreesOn.mono {P' : α → List Char → Prop} {E' : List Char → Prop}
    (h : AgreesOn P E r r' s) (hP : ∀ a c, P a c → P' a c) (hE : ∀ c, E c → E' c) :
    AgreesOn P' E' r r' s := by
  intro a t ha
  obtain ⟨c, hs, hc, htakes⟩ := h a t ha
  refine ⟨c, hs, hP a c hc, fun ht t' hhead => ?_⟩
  exact (htakes ht t' hhead).imp_right fun hdeep => ⟨hE c hdeep.1, hdeep.2⟩

theorem agrees_pure {a : α} (h : P a []) : Agrees P E (pure a) (pure a) := by
  intro s b t hb
  cases hb
  exact ⟨[], rfl, h, fun _ t' _ => .inl rfl⟩

theorem AgreesOn.bind {Q : α → β → List Char → Prop} {R : β → List Char → Prop}
    {f f' : α → Reader β} (h : AgreesOn P E r r' s)
    (hf : ∀ a t, r s = .ok (a, t) → AgreesOn (Q a) E (f a) (f' a) t)
    (hR : ∀ a b c d, P a c → Q a b d → R b (c ++ d))
    (hleft : ∀ {c d}, E c → E (c ++ d)) (hright : ∀ a c d, P a c → E d → E (c ++ d)) :
    AgreesOn R E (r >>= f) (r' >>= f') s := by
  intro b u hb
  obtain ⟨a, t, ha, hrest⟩ := bind_eq_ok hb
  obtain ⟨c, rfl, hc, htakes⟩ := h a t ha
  obtain ⟨d, rfl, hd, hrest⟩ := hf a t ha b u hrest
  refine ⟨c ++ d, (List.append_assoc c d u).symm, hR a b c d hc hd, fun hu t' hhead => ?_⟩
  have hne : d ++ u ≠ [] := List.append_ne_nil_of_right_ne_nil d hu
  have hfirst : (d ++ t').head? = (d ++ u).head? := by
    rw [List.head?_append, List.head?_append, hhead]
  rw [List.append_assoc]
  obtain htaken | ⟨hexcuse, hdeep⟩ := htakes hne (d ++ t') hfirst
  · rw [bind_ok htaken]
    exact (hrest hu t' hhead).imp_right fun hdeep => ⟨hright a c d hc hdeep.1, hdeep.2⟩
  · exact .inr ⟨hleft hexcuse, hdeep.bind⟩

end

/-- What is taken by a reader of values is balanced, and not nothing. -/
structure Solid (c : List Char) : Prop where
  balanced : Balanced c
  ne_nil : c ≠ []

theorem Solid.append_left {c d : List Char} (hc : Balanced c) (hd : Solid d) : Solid (c ++ d) :=
  ⟨hc.append hd.balanced, List.append_ne_nil_of_right_ne_nil c hd.ne_nil⟩

theorem Solid.append_right {c d : List Char} (hc : Solid c) (hd : Balanced d) : Solid (c ++ d) :=
  ⟨hc.balanced.append hd, List.append_ne_nil_of_left_ne_nil hc.ne_nil d⟩

section

variable {P : α → List Char → Prop} {E : List Char → Prop} {r r' : Reader α} {s : List Char}

/-- What a sequence takes is as its second part takes it, behind something balanced. -/
theorem AgreesOn.seq {Q : β → List Char → Prop} {f f' : α → Reader β}
    (h : AgreesOn (fun _ => Balanced) E r r' s)
    (hf : ∀ a t, r s = .ok (a, t) → AgreesOn Q E (f a) (f' a) t)
    (hQ : ∀ b c d, Balanced c → Q b d → Q b (c ++ d)) (hE : Spreads E) :
    AgreesOn Q E (r >>= f) (r' >>= f') s :=
  h.bind hf (fun _ => hQ) hE.left fun _ _ _ => hE.right

theorem AgreesOn.seq_solid {f f' : α → Reader β} (h : AgreesOn (fun _ => Solid) E r r' s)
    (hf : ∀ a t, r s = .ok (a, t) → AgreesOn (fun _ => Balanced) E (f a) (f' a) t)
    (hE : Spreads E) : AgreesOn (fun _ => Solid) E (r >>= f) (r' >>= f') s :=
  h.bind hf (fun _ _ _ _ => Solid.append_right) hE.left fun _ _ _ hc => hE.right hc.balanced

theorem AgreesOn.map {Q : β → List Char → Prop} {f : α → β} (h : AgreesOn P E r r' s)
    (hf : ∀ a c, P a c → Q (f a) c) : AgreesOn Q E (f <$> r) (f <$> r') s := by
  intro b u hb
  rw [map_eq_pure_bind] at hb
  obtain ⟨a, t, ha, ⟨⟩⟩ := bind_eq_ok hb
  obtain ⟨c, hs, hc, htakes⟩ := h a u ha
  refine ⟨c, hs, hf a c hc, fun hu t' hhead => ?_⟩
  obtain htaken | ⟨hexcuse, hdeep⟩ := htakes hu t' hhead
  · exact .inl (map_ok htaken)
  · exact .inr ⟨hexcuse, hdeep.map⟩

theorem AgreesOn.bind_pure {Q : β → List Char → Prop} {f : α → β} (h : AgreesOn P E r r' s)
    (hf : ∀ a c, P a c → Q (f a) c) :
    AgreesOn Q E (r >>= fun a => pure (f a)) (r' >>= fun a => pure (f a)) s := by
  rw [← map_eq_pure_bind, ← map_eq_pure_bind]
  exact h.map hf

/-- A last step that takes nothing. -/
theorem AgreesOn.bind_of_pure {Q : β → List Char → Prop} {f : α → Reader β}
    (h : AgreesOn P E r r' s) (hf : ∀ a, ∃ b, f a = pure b ∧ ∀ c, P a c → Q b c) :
    AgreesOn Q E (r >>= f) (r' >>= f) s := by
  choose g hg hQ using hf
  obtain rfl : f = fun a => pure (g a) := funext hg
  exact h.bind_pure hQ

theorem AgreesOn.solid_balanced (h : AgreesOn (fun _ => Solid) E r r' s) :
    AgreesOn (fun _ => Balanced) E r r' s :=
  h.mono (fun _ _ hc => hc.balanced) fun _ hc => hc

theorem settled_eq_ok {a : α} {t : List Char} (h : settled r s = .ok (a, t)) :
    r s = .ok (a, t) := by
  unfold settled at h
  cases hr : r s with
  | error f =>
    rw [hr] at h
    cases h
  | ok p =>
    rw [hr] at h
    exact h

theorem AgreesOn.settled (h : AgreesOn P E r r' s) :
    AgreesOn P E (settled r) (Reader.settled r') s := by
  intro a t ha
  obtain ⟨c, hs, hc, htakes⟩ := h a t (settled_eq_ok ha)
  refine ⟨c, hs, hc, fun ht t' hhead => ?_⟩
  unfold Reader.settled
  obtain htaken | ⟨hexcuse, hdeep⟩ := htakes ht t' hhead
  · rw [htaken]
    exact .inl rfl
  · exact .inr ⟨hexcuse, hdeep.mapError id⟩

/-! ## Blanks -/

theorem exists_blanks (s : List Char) : ∃ blanks, s = blanks ++ skipBlanks s ∧
    (∀ c ∈ blanks, isBlank c = true) ∧ ∀ c ∈ (skipBlanks s).head?, isBlank c = false := by
  refine ⟨s.takeWhile isBlank, List.takeWhile_append_dropWhile.symm, ?_, fun c hc => ?_⟩
  · exact List.all_eq_true.1 List.all_takeWhile
  · have hne : skipBlanks s ≠ [] := by
      rintro hnil
      rw [hnil] at hc
      cases hc
    have hhead := List.head_dropWhile_not isBlank hne
    rw [List.head?_eq_some_head hne] at hc
    cases hc
    exact hhead

/-- A reader that looks at the next character behind blanks is known by what it does there. -/
theorem agrees_next? {k k' : Option Char → Reader α}
    (hP : ∀ a c d, Balanced c → P a d → P a (c ++ d)) (hE : Spreads E)
    (hnone : ∀ a t, k none [] ≠ .ok (a, t))
    (hsome : ∀ c u, isBlank c = false → AgreesOn P E (k (some c)) (k' (some c)) (c :: u)) :
    Agrees P E (next? >>= k) (next? >>= k') := by
  intro s a t ha
  obtain ⟨blanks, hs, hblanks, hfirst⟩ := exists_blanks s
  have ha : k (skipBlanks s).head? (skipBlanks s) = .ok (a, t) := ha
  cases hu : skipBlanks s with
  | nil =>
    rw [hu] at ha
    exact absurd ha (hnone a t)
  | cons c u =>
    rw [hu] at ha hfirst hs
    have hc : isBlank c = false := hfirst c rfl
    obtain ⟨d, hd, hPd, htakes⟩ := hsome c u hc a t ha
    have hbalanced := balanced_blanks hblanks
    refine ⟨blanks ++ d, by rw [hs, hd, List.append_assoc], hP a _ d hbalanced hPd, ?_⟩
    intro ht t' hhead
    -- behind the blanks the same character comes next, whether it is taken or not
    have hnext : (d ++ t').head? = some c := by
      have hdt : (d ++ t).head? = some c := by rw [← hd]; rfl
      rw [List.head?_append, hhead, ← List.head?_append]
      exact hdt
    have hskip : skipBlanks (blanks ++ (d ++ t')) = d ++ t' := by
      rw [skipBlanks_append hblanks]
      obtain ⟨v, hv⟩ : ∃ v, d ++ t' = c :: v := List.head?_eq_some_iff.1 hnext
      rw [hv]
      exact skipBlanks_of_not_blank hc v
    have hk : (next? >>= k') (blanks ++ d ++ t') = k' (some c) (d ++ t') := by
      show k' (skipBlanks (blanks ++ d ++ t')).head? (skipBlanks (blanks ++ d ++ t')) = _
      rw [List.append_assoc, hskip, hnext]
    rw [hk]
    exact (htakes ht t' hhead).imp_right fun hdeep => ⟨hE.right hbalanced hdeep.1, hdeep.2⟩

theorem agrees_start {k k' : Char → Reader α} (hP : ∀ a c d, Balanced c → P a d → P a (c ++ d))
    (hE : Spreads E)
    (hsome : ∀ c u, isBlank c = false → AgreesOn P E (k c) (k' c) (c :: u)) :
    Agrees P E (start >>= k) (start >>= k') := by
  unfold start
  rw [bind_assoc, bind_assoc]
  exact agrees_next? hP hE (fun a t h => nomatch h) hsome

/-! ## Characters and words -/

theorem agreesOn_advance {Q : α → List Char → Prop} {c : Char} {u : List Char}
    (hc : isPlain c = true) (hE : Spreads E) (h : AgreesOn P E r r' u)
    (hQ : ∀ a d, P a d → Q a (c :: d)) :
    AgreesOn Q E (advance >>= fun _ => r) (advance >>= fun _ => r') (c :: u) := by
  intro a t ha
  obtain ⟨d, rfl, hd, htakes⟩ := h a t ha
  have hone : Balanced [c] := balanced_cons hc balanced_nil
  refine ⟨c :: d, rfl, hQ a d hd, fun ht t' hhead => ?_⟩
  exact (htakes ht t' hhead).imp_right fun hdeep => ⟨hE.right hone hdeep.1, hdeep.2⟩

theorem agreesOn_advance_end {c : Char} {u : List Char} (hc : isPlain c = true) :
    AgreesOn (fun _ => Solid) E advance advance (c :: u) := by
  intro a t ha
  cases ha
  exact ⟨[c], rfl, ⟨balanced_cons hc balanced_nil, List.cons_ne_nil _ _⟩, fun _ _ _ => .inl rfl⟩

theorem restOfWord_eq_ok (w : List Char) : ∀ {s t : List Char}, restOfWord w s = .ok ((), t) →
    s = w ++ t := by
  induction w with
  | nil =>
    intro s t h
    cases h
    rfl
  | cons c w ih =>
    intro s t h
    match s with
    | [] => cases h
    | d :: s =>
      have h : (if d = c then restOfWord w s else failNext .expectedIdent (d :: s)) =
          .ok ((), t) := h
      split at h
      · rw [‹d = c›, ih h]
        rfl
      · cases h

theorem agreesOn_word {w : String} {c : Char} {u v : List Char} (hw : w.toList = c :: v)
    (hplain : w.toList.all isPlain = true) :
    AgreesOn (fun _ => Solid) E (word w) (word w) (c :: u) := by
  intro a t ha
  have hrest : restOfWord v u = .ok ((), t) := by
    have ha : restOfWord w.toList.tail u = .ok (a, t) := ha
    rw [hw] at ha
    exact ha
  rw [restOfWord_eq_ok v hrest]
  rw [hw] at hplain
  refine ⟨c :: v, rfl, ⟨balanced_of_plain hplain, List.cons_ne_nil _ _⟩, fun _ t' _ => .inl ?_⟩
  exact word_append hw t'

end

theorem balanced_append (_ : α) (c d : List Char) (hc : Balanced c) (hd : Balanced d) :
    Balanced (c ++ d) := hc.append hd

theorem solid_append (_ : α) (c d : List Char) (hc : Balanced c) (hd : Solid d) : Solid (c ++ d) :=
  hd.append_left hc

variable {E : List Char → Prop}

theorem agrees_nextElement (hE : Spreads E) (first : Bool) :
    Agrees (fun _ => Balanced) E (nextElement first) (nextElement first) := by
  have hpure : ∀ more s, AgreesOn (fun _ => Balanced) E (pure more : Reader Bool) (pure more) s :=
    fun _ => agrees_pure balanced_nil
  unfold nextElement
  refine agrees_next? balanced_append hE (fun a t h => nomatch h) fun c u hc => ?_
  split
  · exact hpure false _
  · next heq =>
    cases heq
    split
    · exact hpure true _
    · refine agreesOn_advance (by decide) hE (agrees_next? balanced_append hE ?_ ?_ u)
        fun _ _ hd => balanced_cons (by decide) hd
      · exact fun a t h => nomatch h
      intro c u hc
      split
      · exact .of_fails fun a t h => nomatch h
      · exact hpure true _
      · exact .of_fails fun a t h => nomatch h
  · split
    · exact hpure true _
    · exact .of_fails fun a t h => nomatch h
  · exact .of_fails fun a t h => nomatch h

theorem agrees_nextMember (hE : Spreads E) (first : Bool) :
    Agrees (fun _ => Balanced) E (nextMember first) (nextMember first) := by
  have hpure : ∀ more s, AgreesOn (fun _ => Balanced) E (pure more : Reader Bool) (pure more) s :=
    fun _ => agrees_pure balanced_nil
  unfold nextMember
  refine agrees_next? balanced_append hE (fun a t h => nomatch h) fun c u hc => ?_
  split
  · exact hpure false _
  · split
    · exact hpure true _
    · exact .of_fails fun a t h => nomatch h
  · next heq =>
    cases heq
    split
    · exact .of_fails fun a t h => nomatch h
    · refine agreesOn_advance (by decide) hE (agrees_next? balanced_append hE ?_ ?_ u)
        fun _ _ hd => balanced_cons (by decide) hd
      · exact fun a t h => nomatch h
      intro c u hc
      split
      · exact hpure true _
      · exact .of_fails fun a t h => nomatch h
      · exact .of_fails fun a t h => nomatch h
      · exact .of_fails fun a t h => nomatch h
  · split <;> exact .of_fails fun a t h => nomatch h
  · exact .of_fails fun a t h => nomatch h

theorem agrees_colon (hE : Spreads E) : Agrees (fun _ => Solid) E colon colon := by
  unfold colon
  refine agrees_next? solid_append hE (fun a t h => nomatch h) fun c u hc => ?_
  split
  · next heq =>
    cases heq
    exact agreesOn_advance_end (by decide)
  · exact .of_fails fun a t h => nomatch h
  · exact .of_fails fun a t h => nomatch h

/-! ## Repetition -/

/-- What a round of a repetition takes: as `M` says if it goes on, and as `D` says if it is the
last. -/
def StepShape (M : List Char → Prop) (D : α → List Char → Prop) : Step σ α → List Char → Prop
  | .more _, c => M c
  | .done a, c => D a c

/-- A repetition of rounds that each take something, but for the last. -/
theorem agrees_untilDone {M : List Char → Prop} {D : α → List Char → Prop}
    {step step' : σ → Reader (Step σ α)}
    (hstep : ∀ x, Agrees (StepShape M D) E (step x) (step' x)) (hne : ∀ {c}, M c → c ≠ [])
    (hD : ∀ {a c d}, M c → D a d → D a (c ++ d)) (hleft : ∀ {c d}, E c → E (c ++ d))
    (hright : ∀ {c d}, M c → E d → E (c ++ d)) (x : σ) :
    Agrees D E (untilDone step x) (untilDone step' x) := by
  -- as many rounds as what is taken has characters, and one more, are enough
  have hrounds : ∀ (rounds : List Char) (x : σ) (s : List Char) (a : α) (t : List Char),
      iterate step rounds x s = .ok (a, t) → ∃ c, s = c ++ t ∧ D a c ∧
        ∀ rounds', c.length < rounds'.length → Takes E (iterate step' rounds' x) a c t := by
    intro rounds
    induction rounds with
    | nil => intro x s a t h; cases h
    | cons _ rounds ih =>
      intro x s a t h
      obtain ⟨y, u, hy, hrest⟩ := bind_eq_ok (x := step x) h
      obtain ⟨c, rfl, hc, htakes⟩ := hstep x s y u hy
      cases y with
      | done b =>
        cases hrest
        refine ⟨c, rfl, hc, fun rounds' hlen ht t' hhead => ?_⟩
        obtain ⟨_, rounds', rfl⟩ := List.exists_cons_of_length_pos (Nat.zero_lt_of_lt hlen)
        obtain htaken | ⟨hexcuse, hdeep⟩ := htakes ht t' hhead
        · exact .inl (bind_ok htaken)
        · exact .inr ⟨hexcuse, hdeep.bind⟩
      | more y =>
        obtain ⟨d, rfl, hd, hagain⟩ := ih y u a t hrest
        have hpos : 0 < c.length := List.length_pos_iff.2 (hne hc)
        refine ⟨c ++ d, (List.append_assoc c d t).symm, hD hc hd, ?_⟩
        intro rounds' hlen ht t' hhead
        rw [List.length_append] at hlen
        obtain ⟨e, rounds', rfl⟩ := List.exists_cons_of_length_pos (Nat.zero_lt_of_lt hlen)
        rw [List.length_cons] at hlen
        have hdt : d ++ t ≠ [] := List.append_ne_nil_of_right_ne_nil d ht
        have hfirst : (d ++ t').head? = (d ++ t).head? := by
          rw [List.head?_append, List.head?_append, hhead]
        rw [List.append_assoc]
        obtain htaken | ⟨hexcuse, hdeep⟩ := htakes hdt (d ++ t') hfirst
        · have hnext : iterate step' (e :: rounds') x (c ++ (d ++ t')) =
              iterate step' rounds' y (d ++ t') := bind_ok htaken
          rw [hnext]
          have hagain := hagain rounds' (by omega) ht t' hhead
          exact hagain.imp_right fun hdeep => ⟨hright hc hdeep.1, hdeep.2⟩
        · exact .inr ⟨hleft hexcuse, hdeep.bind⟩
  intro s a t h
  obtain ⟨c, hs, hc, hagain⟩ := hrounds _ x s a t h
  refine ⟨c, hs, hc, fun ht t' hhead => ?_⟩
  refine hagain ('\x00' :: (c ++ t')) ?_ ht t' hhead
  rw [List.length_cons, List.length_append]
  omega

theorem AgreesOn.cons {P Q : α → List Char → Prop} {E' : List Char → Prop}
    {q q' r r' : Reader α} {c : Char} {u : List Char} (h : AgreesOn P E q q' u)
    (hr : ∀ v, r (c :: v) = q v) (hr' : ∀ v, r' (c :: v) = q' v)
    (hQ : ∀ a d, P a d → Q a (c :: d)) (hE : ∀ d, E d → E' (c :: d)) :
    AgreesOn Q E' r r' (c :: u) := by
  intro a t ha
  rw [hr] at ha
  obtain ⟨d, rfl, hd, htakes⟩ := h a t ha
  refine ⟨c :: d, rfl, hQ a d hd, fun ht t' hhead => ?_⟩
  rw [List.cons_append, hr']
  exact (htakes ht t' hhead).imp_right fun hdeep => ⟨hE d hdeep.1, hdeep.2⟩

/-- At a character that is taken, readers may be exchanged for others that agree there. -/
theorem AgreesOn.of_head {q q' r r' : Reader α} {d : Char} {u : List Char}
    (h : AgreesOn (fun _ => Solid) E q q' (d :: u)) (hr : ∀ v, r (d :: v) = q (d :: v))
    (hr' : ∀ v, r' (d :: v) = q' (d :: v)) : AgreesOn (fun _ => Solid) E r r' (d :: u) := by
  intro a t ha
  rw [hr] at ha
  obtain ⟨c, hs, hc, htakes⟩ := h a t ha
  refine ⟨c, hs, hc, fun ht t' hhead => ?_⟩
  obtain ⟨e, c, rfl⟩ := List.exists_cons_of_ne_nil hc.ne_nil
  obtain ⟨rfl, -⟩ := List.cons.inj hs
  rw [List.cons_append, hr']
  exact htakes ht t' hhead

/-! ## Frames -/

/-- What the first reader takes of the text is a list or an object, and the second takes it as the
same, whatever follows. -/
def ClosedOn (E : List Char → Prop) (r r' : Reader α) (s : List Char) : Prop :=
  ∀ a t, r s = .ok (a, t) → ∃ c, s = c ++ t ∧ Bracketed c ∧
    ∀ t', r' (c ++ t') = .ok (a, t') ∨ E c ∧ FailsWith .tooDeep (r' (c ++ t'))

theorem ClosedOn.agreesOn {E : List Char → Prop} {r r' : Reader α} {s : List Char}
    (h : ClosedOn E r r' s) : AgreesOn (fun _ => Solid) E r r' s := by
  intro a t ha
  obtain ⟨c, hs, hc, htakes⟩ := h a t ha
  exact ⟨c, hs, ⟨hc.balanced, hc.ne_nil⟩, fun _ t' _ => htakes t'⟩

theorem ClosedOn.map {E : List Char → Prop} {r r' : Reader α} {s : List Char}
    (h : ClosedOn E r r' s) (f : α → β) : ClosedOn E (f <$> r) (f <$> r') s := by
  intro b t hb
  rw [map_eq_pure_bind] at hb
  obtain ⟨a, u, ha, ⟨⟩⟩ := bind_eq_ok hb
  obtain ⟨c, hs, hc, htakes⟩ := h a t ha
  refine ⟨c, hs, hc, fun t' => ?_⟩
  obtain htaken | ⟨hexcuse, hdeep⟩ := htakes t'
  · exact .inl (map_ok htaken)
  · exact .inr ⟨hexcuse, hdeep.map⟩

theorem closed_start {E : List Char → Prop} {k k' : Char → Reader α} (hE : Spreads E)
    (hsome : ∀ c u, isBlank c = false → ClosedOn E (k c) (k' c) (c :: u)) (s : List Char) :
    ClosedOn E (start >>= k) (start >>= k') s := by
  intro a t ha
  obtain ⟨blanks, hs, hblanks, hfirst⟩ := exists_blanks s
  cases hu : skipBlanks s with
  | nil =>
    obtain ⟨c, u, hstart, -⟩ := bind_eq_ok ha
    unfold start at hstart
    rw [bind_ok (next?_eq s), hu] at hstart
    cases hstart
  | cons c u =>
    rw [hu] at hs hfirst
    rw [bind_ok (start_cons hu)] at ha
    obtain ⟨d, hd, hbracketed, htakes⟩ := hsome c u (hfirst c rfl) a t ha
    refine ⟨blanks ++ d, by rw [hs, hd, List.append_assoc], hbracketed.blanks_append hblanks, ?_⟩
    intro t'
    obtain ⟨e, d, rfl⟩ := List.exists_cons_of_ne_nil hbracketed.ne_nil
    obtain ⟨rfl, -⟩ := List.cons.inj hd
    have hskip : skipBlanks (blanks ++ c :: d ++ t') = c :: (d ++ t') := by
      rw [List.append_assoc, skipBlanks_append hblanks, List.cons_append]
      exact skipBlanks_of_not_blank (hfirst c rfl) _
    rw [bind_ok (start_cons hskip)]
    exact (htakes t').imp_right fun hdeep => ⟨hE.right (balanced_blanks hblanks) hdeep.1, hdeep.2⟩

/-- A reader that passes blanks and a closing bracket. -/
def Closes (close : Reader Unit) : Prop :=
  ∀ s t, close s = .ok ((), t) → ∃ blanks k, s = blanks ++ k :: t ∧
    (∀ c ∈ blanks, isBlank c = true) ∧ IsClosing k ∧
      ∀ t', close (blanks ++ k :: t') = .ok ((), t')

theorem closes_of_next? {k : Option Char → Reader Unit} {c : Char} (hc : IsClosing c)
    (hk : k (some c) = advance) (hother : ∀ o s t, o ≠ some c → k o s ≠ .ok ((), t)) :
    Closes (next? >>= k) := by
  intro s t h
  have hblank : isBlank c = false := by rcases hc with rfl | rfl <;> decide
  obtain ⟨blanks, hs, hblanks, -⟩ := exists_blanks s
  have h : k (skipBlanks s).head? (skipBlanks s) = .ok ((), t) := h
  by_cases hhead : (skipBlanks s).head? = some c
  · obtain ⟨u, hu⟩ := List.head?_eq_some_iff.1 hhead
    rw [hhead, hk, hu] at h
    cases h
    rw [hu] at hs
    refine ⟨blanks, c, hs, hblanks, hc, fun t' => ?_⟩
    have hskip : skipBlanks (blanks ++ c :: t') = c :: t' := by
      rw [skipBlanks_append hblanks, skipBlanks_of_not_blank hblank]
    show k (skipBlanks (blanks ++ c :: t')).head? (skipBlanks (blanks ++ c :: t')) = _
    rw [hskip, List.head?_cons, hk]
    rfl
  · exact absurd h (hother _ _ t hhead)

theorem closes_closeList : Closes closeList := by
  refine closes_of_next? (c := ']') (.inl rfl) rfl fun o s t hne h => ?_
  split at h
  · exact hne rfl
  · obtain ⟨_, u, -, h⟩ := bind_eq_ok h
    obtain ⟨o, v, -, h⟩ := bind_eq_ok h
    split at h <;> cases h
  · cases h
  · cases h

theorem closes_closeObject : Closes closeObject := by
  refine closes_of_next? (c := '\x7d') (.inr rfl) rfl fun o s t hne h => ?_
  split at h
  · exact hne rfl
  · cases h
  · cases h
  · cases h

/-- A body is taken if the frame is, and what is between the brackets is balanced. -/
theorem framed_eq_ok {close : Reader Unit} {leave : List Char → List Char} {body : Reader α}
    {o : Char} {u t : List Char} {a : α} (h : framed close leave body (o :: u) = .ok (a, t)) :
    ∃ v, body u = .ok (a, v) ∧ close v = .ok ((), t) := by
  obtain ⟨_, _, ⟨⟩, h⟩ := bind_eq_ok h
  obtain ⟨b, v, hbody, h⟩ := bind_eq_ok h
  obtain ⟨_, w, hclose, ⟨⟩⟩ := bind_eq_ok h
  have hbody : (body u).mapError (·.settle leave) = .ok (a, v) := hbody
  refine ⟨v, ?_, hclose⟩
  cases hu : body u with
  | error f =>
    rw [hu] at hbody
    cases hbody
  | ok p =>
    rw [hu] at hbody
    exact hbody

theorem closedOn_framed {E E' : List Char → Prop} {close : Reader Unit}
    {leave : List Char → List Char} {body body' : Reader α} (hclose : Closes close)
    (hbody : Agrees (fun _ => Balanced) E body body')
    (hE : ∀ {o inner r}, IsOpening o → E inner → E' (o :: (inner ++ r))) {o : Char}
    (ho : IsOpening o) (u : List Char) :
    ClosedOn E' (framed close leave body) (framed close leave body') (o :: u) := by
  intro a t h
  obtain ⟨v, hv, hend⟩ := framed_eq_ok h
  obtain ⟨inner, rfl, hinner, htakes⟩ := hbody u a v hv
  obtain ⟨blanks, k, rfl, hblanks, hk, hclosed⟩ := hclose v t hend
  refine ⟨o :: (inner ++ blanks ++ [k]), by simp, ?_, fun t' => ?_⟩
  · exact .of_brackets ho hk (hinner.append (balanced_blanks hblanks))
  have hne : blanks ++ k :: t ≠ [] := List.append_ne_nil_of_right_ne_nil _ (List.cons_ne_nil _ _)
  have hhead : (blanks ++ k :: t').head? = (blanks ++ k :: t).head? := by
    rw [List.head?_append, List.head?_append]
    rfl
  have htext : o :: (inner ++ blanks ++ [k]) ++ t' = o :: (inner ++ (blanks ++ k :: t')) := by simp
  rw [htext]
  obtain htaken | ⟨hexcuse, hdeep⟩ := htakes hne (blanks ++ k :: t') hhead
  · exact .inl (framed_ok htaken (hclosed t'))
  · refine .inr ⟨?_, hdeep.framed⟩
    rw [List.append_assoc]
    exact hE ho hexcuse

/-! ## Depth -/

/-- The excuse of a reader that may open fewer brackets: the text opens more. -/
structure Spent (n n' : Nat) (c : List Char) : Prop where
  fewer : n' < n
  rises : Rises n' c

theorem spreads_spent (n n' : Nat) : Spreads (Spent n n') where
  left h := ⟨h.fewer, h.rises.append_left _⟩
  right ha h := ⟨h.fewer, h.rises.append_right ha⟩

theorem Spent.bracketed {n n' : Nat} {o : Char} {inner r : List Char} (ho : IsOpening o)
    (h : Spent n n' inner) : Spent (n + 1) (n' + 1) (o :: (inner ++ r)) :=
  ⟨Nat.succ_lt_succ h.fewer, (h.rises.bracketed ho).append_left r⟩

theorem rises_zero_of_bracketed {c : List Char} (h : Bracketed c) : Rises 0 c := by
  obtain ⟨blanks, o, inner, k, rfl, hblanks, ho, -, -⟩ := h
  exact (rises_zero ho _).append_right (balanced_blanks hblanks)

/-- A bracket is read with one less to open for what it holds. Where none may be opened any more,
the text has one too many. -/
theorem closedOn_deeper {close : Reader Unit} {leave : List Char → List Char}
    {body : Nat → Reader α} (hclose : Closes close) {n : Nat}
    (hbody : ∀ m, n = m + 1 → ∀ m', Agrees (fun _ => Balanced) (Spent m m') (body m) (body m'))
    (n' : Nat) {o : Char} (ho : IsOpening o) (u : List Char) :
    ClosedOn (Spent n n') (deeper n fun m => framed close leave (body m))
      (deeper n' fun m => framed close leave (body m)) (o :: u) := by
  cases n with
  | zero => exact fun a t h => nomatch h
  | succ m =>
    cases n' with
    | zero =>
      intro a t h
      obtain ⟨c, hs, hc, -⟩ := closedOn_framed hclose (hbody m rfl m) Spent.bracketed ho u a t h
      exact ⟨c, hs, hc, fun t' => .inr ⟨⟨Nat.succ_pos m, rises_zero_of_bracketed hc⟩, _, rfl⟩⟩
    | succ m' => exact closedOn_framed hclose (hbody m rfl m') Spent.bracketed ho u

theorem closedOn_inList {body : Nat → Reader α} {n : Nat}
    (hbody : ∀ m, n = m + 1 → ∀ m', Agrees (fun _ => Balanced) (Spent m m') (body m) (body m'))
    (n' : Nat) (u : List Char) :
    ClosedOn (Spent n n') (deeper n fun m => inList (body m)) (deeper n' fun m => inList (body m))
      ('[' :: u) :=
  closedOn_deeper closes_closeList hbody n' (.inl rfl) u

theorem closedOn_inObject {body : Nat → Reader α} {n : Nat}
    (hbody : ∀ m, n = m + 1 → ∀ m', Agrees (fun _ => Balanced) (Spent m m') (body m) (body m'))
    (n' : Nat) (u : List Char) :
    ClosedOn (Spent n n') (deeper n fun m => inObject (body m))
      (deeper n' fun m => inObject (body m)) ('\x7b' :: u) :=
  closedOn_deeper closes_closeObject hbody n' (.inr rfl) u

section

variable {E : List Char → Prop} {r r' : Reader α}

/-- A repetition of rounds that each take a value, but for the last. -/
theorem agrees_values (hE : Spreads E) {step step' : σ → Reader (Step σ α)}
    (hstep : ∀ x, Agrees (StepShape Solid fun _ => Balanced) E (step x) (step' x)) (x : σ) :
    Agrees (fun _ => Balanced) E (untilDone step x) (untilDone step' x) :=
  agrees_untilDone hstep (fun hc => hc.ne_nil) (fun hc hd => hc.balanced.append hd) hE.left
    (fun hc hd => hE.right hc.balanced hd) x

theorem stepShape_append (x : Step σ α) (c d : List Char) (hc : Balanced c)
    (hd : StepShape Solid (fun _ => Balanced) x d) :
    StepShape Solid (fun _ => Balanced) x (c ++ d) := by
  cases x with
  | more y => exact hd.append_left hc
  | done a => exact hc.append hd

theorem agrees_elements (hE : Spreads E) (h : Agrees (fun _ => Solid) E r r') :
    Agrees (fun _ => Balanced) E (elements r) (elements r') := by
  refine agrees_values hE (fun read s => ?_) []
  unfold elementStep
  refine (agrees_nextElement hE _ s).seq (fun more s _ => ?_) stepShape_append hE
  cases more with
  | true => exact (h s).bind_pure fun _ _ hc => hc
  | false => exact agrees_pure balanced_nil s

end

/-! ## Whole texts -/

section

variable {r : Reader α} {text : String}

theorem run_of_ok {a : α} {rest : List Char} (h : r text.toList = .ok (a, rest))
    (hrest : skipBlanks rest = []) : r.run text = .ok a := by
  unfold Reader.run
  dsimp only
  rw [bind_ok h, bind_ok (next?_eq rest), hrest]
  rfl

theorem run_of_fails {cause : Cause} (h : FailsWith cause (r text.toList)) :
    ∃ e, r.run text = .error e ∧ e.cause = cause := by
  unfold Reader.run
  dsimp only
  split
  · next a u hwhole =>
    obtain ⟨place, h⟩ := h
    obtain ⟨b, rest, hr, -⟩ := bind_eq_ok hwhole
    exact nomatch h.symm.trans hr
  · next f hwhole =>
    obtain ⟨place, hfault⟩ := h.bind
    obtain rfl := Except.error.inj (hfault.symm.trans hwhole)
    exact ⟨_, rfl, rfl⟩

theorem run_eq_ok_iff {a : α} : r.run text = .ok a ↔
    ∃ rest, r text.toList = .ok (a, rest) ∧ skipBlanks rest = [] := by
  refine ⟨fun h => ?_, fun ⟨rest, h, hrest⟩ => run_of_ok h hrest⟩
  unfold Reader.run at h
  dsimp only at h
  split at h
  · next b u hwhole =>
    cases h
    obtain ⟨b, rest, hr, hend⟩ := bind_eq_ok hwhole
    rw [bind_ok (next?_eq rest)] at hend
    cases hskip : skipBlanks rest with
    | nil =>
      rw [hskip] at hend
      cases hend
      exact ⟨rest, hr, hskip⟩
    | cons c v =>
      rw [hskip] at hend
      cases hend
  · cases h

theorem run_eq_ok {a : α} (h : r.run text = .ok a) : ∃ rest, r text.toList = .ok (a, rest) := by
  obtain ⟨rest, hr, -⟩ := run_eq_ok_iff.1 h
  exact ⟨rest, hr⟩

end

end Reader

end OrmDdl.Json
