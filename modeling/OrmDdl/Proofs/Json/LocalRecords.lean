import OrmDdl.Json.Record
import OrmDdl.Proofs.Json.LocalValues
/-!
# Values of a known form are read by themselves

Each reader that expects a form is graded as that of any value is: a variant, a list, an object of
any names. `Record.graded_read`: a record is, if the readers of its fields are (`Slot.Graded`). Of a
list more is known, as it ends in a bracket: nothing behind it matters at all (`closed_list`).
-/

namespace OrmDdl.Json

namespace Reader

variable {α β : Type}

theorem mismatch_ne_ok (expected : String) (s : List Char) (a : α) (t : List Char) :
    mismatch expected s ≠ .ok (a, t) := by
  intro h
  obtain ⟨f, u, -, h⟩ := bind_eq_ok (settled_eq_ok h)
  cases h

section

variable {P : α → List Char → Prop} {E : List Char → Prop} {r r' : Reader α}

theorem agreesOn_mismatch (expected : String) (s : List Char) :
    AgreesOn P E (mismatch expected) r' s := .of_fails (mismatch_ne_ok expected s)

theorem agrees_text (hE : Spreads E) : Agrees (fun _ => Solid) E text text := by
  unfold text
  refine agrees_start solid_append hE fun c u _ => ?_
  split
  · exact agreesOn_string u
  · exact agreesOn_mismatch _ _

theorem agrees_double (hE : Spreads E) : Agrees (fun _ => Solid) E double double := by
  unfold double
  refine agrees_start solid_append hE fun c u _ => ?_
  split
  · exact (agrees_number hE _).bind_pure fun _ _ hc => hc
  · exact agreesOn_mismatch _ _

theorem agrees_natural32 (hE : Spreads E) : Agrees (fun _ => Solid) E natural32 natural32 := by
  unfold natural32
  refine agrees_start solid_append hE fun c u _ => ?_
  split
  · refine ((agrees_number hE _).seq_solid (fun m s _ => ?_) hE).settled
    split
    · exact .of_fails fun a t h => nomatch h
    · exact .of_fails fun a t h => nomatch h
    · split
      · exact agrees_pure balanced_nil s
      · exact .of_fails fun a t h => nomatch h
  · exact agreesOn_mismatch _ _

theorem agrees_optional (hE : Spreads E) (h : Agrees (fun _ => Solid) E r r') :
    Agrees (fun _ => Solid) E (optional r) (optional r') := by
  unfold optional
  refine agrees_start solid_append hE fun c u _ => ?_
  split
  · exact (agreesOn_word rfl (by decide)).bind_pure fun _ _ hc => hc
  · exact (h _).bind_pure fun _ _ hc => hc

theorem agrees_null (hE : Spreads E) : Agrees (fun _ => Solid) E null null := by
  unfold null
  refine agrees_start solid_append hE fun c u _ => ?_
  split
  · exact agreesOn_word rfl (by decide)
  · exact agreesOn_mismatch _ _

theorem agreesOn_decoded (decode : String → Except Cause α) (hE : Spreads E) (u : List Char) :
    AgreesOn (fun _ => Solid) E (decoded decode) (decoded decode) ('"' :: u) := by
  unfold decoded
  refine ((agreesOn_string u).seq_solid (fun s t _ => ?_) hE).settled
  cases decode s with
  | ok a => exact agrees_pure balanced_nil t
  | error cause => exact .of_fails fun a t h => nomatch h

end

/-- A value that stands behind a bracket of its own. -/
theorem agreesOn_deeper {body : Nat → Reader α} {n n' : Nat} {o : Char} {u : List Char}
    (ho : IsOpening o)
    (hbody : ∀ m m', AgreesOn (fun _ => EndsBracket) (Spent m m') (body m) (body m') u) :
    AgreesOn (fun _ => Solid) (Spent n n') (deeper n fun m => advance >>= fun _ => body m)
      (deeper n' fun m => advance >>= fun _ => body m) (o :: u) := by
  have hspent : ∀ {m m' c}, Spent m m' c → Spent (m + 1) (m' + 1) (o :: c) := by
    intro m m' c h
    have := h.bracketed (r := []) ho
    rwa [List.append_nil] at this
  cases n with
  | zero => exact fun a t h => nomatch h
  | succ m =>
    cases n' with
    | zero =>
      intro a t h
      obtain ⟨c, hs, hc, -⟩ := (hbody m m).opened ho hspent a t h
      obtain ⟨d, c, rfl⟩ := List.exists_cons_of_ne_nil hc.ne_nil
      obtain ⟨rfl, -⟩ := List.cons.inj hs
      exact ⟨o :: c, hs, hc, fun _ _ _ => .inr ⟨⟨Nat.succ_pos m, rises_zero ho c⟩, _, rfl⟩⟩
    | succ m' => exact (hbody m m').opened ho hspent

/-- A variant is a string, or an object that opens one bracket. -/
theorem graded_variant (decode : String → Except Cause α) : Graded (variant decode) := by
  intro n n' s
  unfold variant
  refine agrees_start solid_append (spreads_spent n n') (fun c u _ => ?_) s
  split
  · exact agreesOn_decoded decode (spreads_spent n n') u
  · refine agreesOn_deeper (.inr rfl) fun m m' => ?_
    have hE := spreads_spent m m'
    have happend : ∀ (_ : α) (c d : List Char), Balanced c → EndsBracket d → EndsBracket (c ++ d) :=
      fun _ _ _ => EndsBracket.append_left
    refine agrees_next? happend hE ?_ (fun c u _ => ?_) u
    · exact fun a t h => nomatch h
    split
    · next heq =>
      cases heq
      refine (agreesOn_decoded decode hE u).solid_balanced.seq (fun a s _ => ?_) happend hE
      refine (agrees_colon hE s).solid_balanced.seq (fun _ s _ => ?_) happend hE
      refine (agrees_null hE s).solid_balanced.seq (fun _ s _ => ?_) happend hE
      refine agrees_next? happend hE ?_ (fun c u _ => ?_) s
      · exact fun a t h => nomatch h
      split
      · next heq =>
        cases heq
        exact (agreesOn_advance_close (.inr rfl) u).bind_pure fun _ _ hd => hd
      · exact .of_fails fun a t h => nomatch h
      · exact .of_fails fun a t h => nomatch h
    · exact .of_fails fun a t h => nomatch h
    · exact .of_fails fun a t h => nomatch h
    · exact .of_fails fun a t h => nomatch h
  · exact .of_fails fun a t h => nomatch h

theorem graded_const {r : Reader α} (h : ∀ {E}, Spreads E → Agrees (fun _ => Solid) E r r) :
    Graded fun _ => r :=
  fun n n' => h (spreads_spent n n')

theorem graded_text : Graded fun _ => text := graded_const agrees_text

theorem map_deeper (f : α → β) (n : Nat) (r : Nat → Reader α) :
    f <$> deeper n r = deeper n fun m => f <$> r m := by
  cases n <;> rfl

/-- A list is read as the same, whatever follows its closing bracket. -/
theorem closed_list {r : Nat → Reader α} (hr : Graded r) (n n' : Nat) (s : List Char) :
    ClosedOn (Spent n n') (list r n) (list r n') s := by
  unfold list
  refine closed_start (spreads_spent n n') (fun c u _ => ?_) s
  split
  · refine closedOn_inList (fun m _ m' => ?_) n' u
    exact agrees_elements (spreads_spent m m') (hr m m')
  · exact fun a t h => absurd h (mismatch_ne_ok _ _ a t)

theorem graded_named {r : Nat → Reader α} (hr : Graded r) : Graded (named r) := by
  intro n n' s
  unfold named
  refine agrees_start solid_append (spreads_spent n n') (fun c u _ => ?_) s
  split
  · refine (closedOn_inObject (fun m _ m' => ?_) n' u).agreesOn
    exact agrees_members (spreads_spent m m') (hr m m')
  · exact agreesOn_mismatch _ _

end Reader

open Reader

/-! ## Records -/

/-- The value of a field is read by itself. -/
def Slot.Graded {δ : Type} (slot : Slot δ) : Prop :=
  ∀ n n' d, Agrees (fun _ => Solid) (Spent n n') (slot.read n d) (slot.read n' d)

theorem Slot.graded_of {δ β : Type} {name : String} {required : Bool} {get : δ → Option β}
    {set : δ → β → δ} {read : Nat → Reader β} {others : List String} (h : Reader.Graded read) :
    (Slot.of name required get set read others).Graded :=
  fun n n' _ s => (h n n' s).bind_pure fun _ _ hc => hc

namespace Record

variable {δ α : Type} {r : Record δ α}

section

variable {E : List Char → Prop} {n n' : Nat}

theorem agrees_complete (d : δ) : Agrees (fun _ => Balanced) E (r.complete d) (r.complete d) := by
  unfold complete
  cases r.finish d with
  | ok a => exact agrees_pure balanced_nil
  | error cause => exact fun _ => .of_fails fun a t h => nomatch h

theorem agrees_takeMember (h : ∀ slot ∈ r.slots, slot.Graded) (d : δ) (name : String) :
    Agrees (fun _ => Solid) (Spent n n') (r.takeMember n d name) (r.takeMember n' d name) := by
  have hE := spreads_spent n n'
  intro s
  unfold takeMember
  cases hslot : r.slot? name with
  | some slot =>
    have hslot : slot ∈ r.slots := List.mem_of_find?_eq_some hslot
    by_cases hread : slot.isRead d = true
    · simp only [if_pos hread]
      exact .of_fails fun a t h => nomatch h
    · simp only [if_neg hread]
      refine (agrees_colon hE s).seq_solid (fun _ s _ => ?_) hE
      exact (h slot hslot n n' d s).solid_balanced
  | none =>
    refine (agrees_colon hE s).seq_solid (fun _ s _ => ?_) hE
    exact (agrees_passValue s).bind_pure fun _ _ hc => hc.balanced

theorem agrees_memberStep (h : ∀ slot ∈ r.slots, slot.Graded) (x : Bool × δ) :
    Agrees (StepShape Solid fun _ => Balanced) (Spent n n') (r.memberStep n x)
      (r.memberStep n' x) := by
  have hE := spreads_spent n n'
  intro s
  unfold memberStep
  refine (agrees_nextMember hE _ s).seq (fun more s hmore => ?_) stepShape_append hE
  cases more with
  | true =>
    refine agreesOn_name hE hmore (fun name s => ?_)
      fun x c d hc hd => stepShape_append x c d hc.balanced hd
    exact (agrees_takeMember h x.2 name s).bind_pure fun _ _ hc => hc
  | false => exact (agrees_complete x.2 s).bind_pure fun _ _ hc => hc

theorem agrees_ofMembers (h : ∀ slot ∈ r.slots, slot.Graded) :
    Agrees (fun _ => Balanced) (Spent n n') (r.ofMembers n) (r.ofMembers n') :=
  agrees_values (spreads_spent n n') (agrees_memberStep h) (true, r.empty)

/-- Every round but the last reads a member. -/
theorem length_of_memberStep (h : ∀ slot ∈ r.slots, slot.Graded) {x y : Bool × δ} {s t : List Char}
    (hstep : r.memberStep n x s = .ok (.more y, t)) : t.length < s.length := by
  have hself : Agrees _ (Spent n n) (r.memberStep n x) (r.memberStep n x) := agrees_memberStep h x
  obtain ⟨c, rfl, hc, -⟩ := hself s _ t hstep
  have hpos := List.length_pos_iff.2 hc.ne_nil
  rw [List.length_append]
  omega

theorem agrees_ofElements (slots : List (Slot δ)) (h : ∀ slot ∈ slots, slot.Graded) :
    ∀ i d, Agrees (fun _ => Balanced) (Spent n n') (r.ofElements n slots i d)
      (r.ofElements n' slots i d) := by
  have hE := spreads_spent n n'
  induction slots with
  | nil => exact fun i d => agrees_pure balanced_nil
  | cons slot rest ih =>
    intro i d s
    obtain ⟨hslot, hrest⟩ := List.forall_mem_cons.1 h
    unfold ofElements
    refine (agrees_nextElement hE _ s).seq (fun more s _ => ?_) balanced_append hE
    cases more with
    | true =>
      refine (hslot n n' d s).solid_balanced.seq (fun d s _ => ?_) balanced_append hE
      exact ih hrest (i + 1) d s
    | false =>
      by_cases hrequired : slot.required = true
      · simp only [if_pos hrequired]
        exact .of_fails fun a t h => nomatch h
      · simp only [if_neg hrequired]
        exact ih hrest (i + 1) d s

end

/-- A record is read by itself if its fields are. -/
theorem graded_read (h : ∀ slot ∈ r.slots, slot.Graded) : Reader.Graded r.read := by
  intro n n' s
  unfold read
  refine agrees_start solid_append (spreads_spent n n') (fun c u _ => ?_) s
  split
  · refine (closedOn_inObject (fun m _ m' => ?_) n' u).agreesOn
    exact agrees_ofMembers h
  · refine (closedOn_inList (fun m _ m' s => ?_) n' u).agreesOn
    refine (agrees_ofElements r.slots h 0 r.empty s).seq (fun d s _ => ?_) balanced_append
      (spreads_spent m m')
    exact agrees_complete d s
  · exact agreesOn_mismatch _ _

end Record

end OrmDdl.Json
