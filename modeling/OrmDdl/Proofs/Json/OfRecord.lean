import OrmDdl.Proofs.Json.OfCompound
/-!
# Records by what they denote

A record is read by the tree that its text denotes (`denotes_read`), if its fields are: the members
of an object are taken one after the other (`Record.take?`), the elements of a list fill the fields
in their order (`Slot.fill?`).
-/

namespace OrmDdl.Json

open Reader

variable {α δ : Type}

/-- The fields read so far, with one field read of a value, if it was not there. -/
noncomputable def Slot.take? (slot : Slot δ) (n : Nat) (d : δ) (t : Tree) : Option δ :=
  if slot.isRead d then none else (slot.read n d).ofTree? t

/-- The fields read so far, with the values of these read in order. Only fields that need not be
there may be left out, and no value may be left over. -/
noncomputable def Slot.fill? (n : Nat) : List (Slot δ) → List Tree → δ → Option δ
  | [], [], d => some d
  | [], _ :: _, _ => none
  | slot :: slots, [], d => if slot.required then none else Slot.fill? n slots [] d
  | slot :: slots, t :: ts, d => ((slot.read n d).ofTree? t).bind (Slot.fill? n slots ts)

/-- The fields read so far, with one more member taken. Those of unknown names are passed. -/
noncomputable def Record.take? (r : Record δ α) (n : Nat) (d : δ) (m : Option String × Tree) :
    Option δ :=
  m.1.bind fun name =>
    match r.slot? name with
    | some slot => slot.take? n d m.2
    | none => some d

noncomputable def Tree.record? (r : Record δ α) : Nat → Tree → Option α
  | n + 1, object members =>
    (members.foldlM (r.take? n) r.empty).bind fun d => (r.finish d).toOption
  | n + 1, array items => (Slot.fill? n r.slots items r.empty).bind fun d => (r.finish d).toOption
  | _, _ => none

namespace Record

variable (r : Record δ α)

theorem outcome_complete (d : δ) (s : List Char) :
    outcome (r.complete d) s = (r.finish d).toOption.map (·, s) := by
  unfold complete
  cases r.finish d with
  | error cause => rfl
  | ok a => rfl

variable {r} {n : Nat} (hslots : ∀ slot ∈ r.slots, ∀ n d, Steady (slot.read n d))

include hslots

/-! ## Members -/

theorem outcome_takeMember {t : Tree} {m : MemberText} (ht : HasText t m.value) {rest : List Char}
    (hrest : Delimited rest) (d : δ) (name : String) :
    outcome (r.takeMember n d name) (m.gap ++ ':' :: (m.lead ++ (m.value ++ rest))) =
      (r.take? n d (some name, t)).map (·, rest) := by
  unfold takeMember take?
  rw [Option.bind_some]
  cases hslot : r.slot? name with
  | none =>
    have hpass := (passValue_reads ht.derives).ok _ rest (ht.skipBlanks_eq m.lead_blanks rest) hrest
    exact outcome_of_ok ((bind_ok (colon_ok m.gap_blanks _)).trans (bind_ok hpass))
  | some slot =>
    have hsteady := hslots slot (List.mem_of_find?_eq_some hslot) n d
    have hread := (hsteady t _ ht).outcome_append ht m.lead_blanks hrest
    simp only [Slot.take?]
    split
    · rfl
    · rw [outcome_bind_ok (colon_ok m.gap_blanks _), hread]

theorem repeats_memberStep {entries : List ((Option String × Tree) × MemberText)}
    (hnames : ∀ e ∈ entries, StringOf e.1.1 e.2.name) (h : ∀ e ∈ entries, HasText e.1.2 e.2.value) :
    Repeats (r.memberStep n) Prod.fst '\x7d' (·.2.text)
      (fun s e => (r.take? n s.2 e.1).map (false, ·)) (fun s => (r.finish s.2).toOption)
      entries where
  isClosing := .inr rfl
  ne_nil e he := List.cons_ne_nil _ _
  later s e _ s' hs' := by
    obtain ⟨d, -, rfl⟩ := Option.map_eq_some_iff.1 hs'
    rfl
  more s e he pre rest hpre hrest := by
    unfold memberStep
    rw [outcome_name hpre (hnames e he)]
    obtain ⟨⟨chars, t⟩, m⟩ := e
    cases chars with
    | none => rfl
    | some name =>
      rw [Option.bind_some, outcome_bind_pure, outcome_takeMember hslots (h _ he) hrest,
        Option.map_map, Option.map_map]
      rfl
  done s blanks rest hblanks := by
    unfold memberStep
    rw [outcome_bind_ok (nextMember_end _ hblanks rest)]
    refine (outcome_bind_pure ..).trans ?_
    rw [outcome_complete, Option.map_map]
    rfl

omit hslots in
/-- Whether a member is the first does not matter to what it is taken into. -/
theorem foldlM_take {ι β : Type} (g : δ → ι → Option δ) (fin : δ → Option β) (xs : List ι) :
    ∀ s : Bool × δ, (xs.foldlM (fun s x => (g s.2 x).map (false, ·)) s).bind (fun s => fin s.2) =
      (xs.foldlM g s.2).bind fin := by
  induction xs with
  | nil => exact fun s => rfl
  | cons x xs ih =>
    intro s
    rw [List.foldlM_cons, List.foldlM_cons]
    cases g s.2 x with
    | none => rfl
    | some d => exact ih (false, d)

theorem outcome_ofMembers {entries : List ((Option String × Tree) × MemberText)} {body : List Char}
    (hbody : Listed true (entries.map (·.2.text)) body)
    (hnames : ∀ e ∈ entries, StringOf e.1.1 e.2.name) (h : ∀ e ∈ entries, HasText e.1.2 e.2.value)
    (rest : List Char) : outcome (r.ofMembers n) (body ++ '\x7d' :: rest) =
      (((entries.map Prod.fst).foldlM (r.take? n) r.empty).bind fun d =>
        (r.finish d).toOption).map (·, '\x7d' :: rest) := by
  have hbody : Listed (Prod.fst (true, r.empty)) (entries.map (·.2.text)) body := hbody
  have hfold := foldlM_take (fun d e => r.take? n d e.1) (fun d => (r.finish d).toOption) entries
  unfold ofMembers
  rw [(repeats_memberStep hslots hnames h).outcome_untilDone hbody rest, hfold, List.foldlM_map]

/-! ## Elements -/

omit hslots in
theorem outcome_closeList_of_ne {s t : List Char} {c : Char} (hs : skipBlanks s = c :: t)
    (hc : c ≠ ']') : outcome closeList s = none := by
  unfold closeList
  rw [outcome_bind_ok (next?_cons hs)]
  split
  · next heq => exact absurd (Option.some.inj heq) hc
  · rw [outcome_bind_ok (advance_cons c t), outcome_bind_ok (next?_eq t)]
    split <;> rfl
  · rfl
  · rfl

omit hslots in
/-- Behind an element that is left over no list is closed. -/
theorem outcome_closeList_left {first : Bool} {t : Tree} {piece body : List Char}
    {pieces : List (List Char)} (ht : HasText t piece) (hbody : Listed first (piece :: pieces) body)
    (u : List Char) : outcome closeList (body ++ u) = none := by
  cases hbody with
  | @cons _ pre _ behind _ hpre _ =>
  rw [List.append_assoc, List.append_assoc]
  cases first with
  | true =>
    obtain ⟨c, v, hpiece, -, hc⟩ := ht.exists_cons
    refine outcome_closeList_of_ne (t := v ++ (behind ++ u)) ?_ hc
    rw [ht.skipBlanks_eq hpre, hpiece, List.cons_append]
  | false =>
    obtain ⟨gap, before, rfl, hgap, -⟩ := hpre
    rw [List.append_assoc]
    exact outcome_closeList_of_ne (skipBlanks_blanks_append hgap (by decide) _) (by decide)

/-- The elements of a list fill the fields; then the record is complete and the list closed. -/
theorem outcome_ofElements {slots : List (Slot δ)} (hsub : ∀ slot ∈ slots, slot ∈ r.slots) :
    ∀ {entries : List (Tree × List Char)} {body : List Char} (i : Nat) (d : δ),
      Listed (i == 0) (entries.map Prod.snd) body → (∀ e ∈ entries, HasText e.1 e.2) →
      ∀ rest : List Char, outcome (do
          let d ← r.ofElements n slots i d
          let a ← r.complete d
          closeList
          return a) (body ++ ']' :: rest) =
        ((Slot.fill? n slots (entries.map Prod.fst) d).bind fun d =>
          (r.finish d).toOption).map (·, rest) := by
  -- once the fields are there, the bracket decides
  have hclose : ∀ d s, outcome (do let a ← r.complete d; closeList; return a) s =
      (r.finish d).toOption.bind fun a => (outcome closeList s).map fun p => (a, p.2) := by
    intro d s
    rw [outcome_bind, outcome_complete]
    cases r.finish d with
    | error cause => rfl
    | ok a => exact outcome_bind_pure (fun _ => a) closeList s
  induction slots with
  | nil =>
    intro entries body i d hbody h rest
    refine (hclose d _).trans ?_
    cases entries with
    | nil =>
      cases hbody with
      | nil hblanks =>
        have hclosed : outcome closeList (body ++ ']' :: rest) = some ((), rest) := by
          unfold closeList
          rw [outcome_bind_ok (next?_cons (skipBlanks_blanks_append hblanks (by decide) rest))]
          rfl
        rw [hclosed]
        show _ = (r.finish d).toOption.map _
        cases (r.finish d).toOption <;> rfl
    | cons e entries =>
      have hleft := outcome_closeList_left (List.forall_mem_cons.1 h).1 hbody (']' :: rest)
      rw [hleft]
      cases (r.finish d).toOption <;> rfl
  | cons slot slots ih =>
    intro entries body i d hbody h rest
    obtain ⟨hslot, hsub⟩ := List.forall_mem_cons.1 hsub
    unfold ofElements
    cases entries with
    | nil =>
      cases hbody with
      | nil hblanks =>
        rw [bind_assoc, outcome_bind_ok (nextElement_end _ hblanks rest), if_neg Bool.false_ne_true]
        show outcome (_ >>= _) (']' :: rest) = ((if slot.required then none else _).bind _).map _
        split
        · rfl
        · exact ih hsub (i + 1) d (.nil (List.forall_mem_nil _)) h rest
    | cons e entries =>
      obtain ⟨he, h⟩ := List.forall_mem_cons.1 h
      cases hbody with
      | @cons _ pre _ behind _ hpre hbehind =>
      obtain ⟨c, u, hpiece, hblank, hc⟩ := he.exists_cons
      have hread := (hslots slot hslot n d _ _ he).outcome_append he (List.forall_mem_nil _)
        (hbehind.delimited (.inl rfl) rest)
      rw [List.nil_append, hpiece, List.cons_append] at hread
      rw [List.append_assoc, List.append_assoc, hpiece, List.cons_append, bind_assoc,
        outcome_bind_ok (nextElement_ok hpre hblank hc _), if_pos rfl, bind_assoc, outcome_bind,
        hread]
      show _ = ((((slot.read n d).ofTree? e.1).bind _).bind _).map _
      cases (slot.read n d).ofTree? e.1 with
      | none => rfl
      | some d' => exact ih hsub (i + 1) d' hbehind h rest

/-- A record is read by what its text denotes, if its fields are. -/
theorem denotes_read (n : Nat) : Denotes (r.read n) (Tree.record? r n) := by
  refine .of_start fun t c u h rest _ => ?_
  split
  · obtain ⟨entries, body, rfl, rfl, hbody, hnames, h⟩ := h.of_object
    cases n with
    | zero => rfl
    | succ n =>
      rw [List.cons_append, List.append_assoc]
      exact outcome_inObject (outcome_ofMembers hslots hbody hnames h rest)
  · obtain ⟨entries, body, rfl, rfl, hbody, h⟩ := h.of_list
    cases n with
    | zero => rfl
    | succ n =>
      rw [List.cons_append, List.append_assoc]
      refine (outcome_framed ..).trans ?_
      rw [bind_assoc]
      exact outcome_ofElements hslots (fun _ hslot => hslot) 0 r.empty hbody h rest
  · next hobject hlist =>
    rw [outcome_mismatch]
    cases t with
    | object => exact absurd (beq_iff_eq.1 h.opens) hobject
    | array => exact absurd (beq_iff_eq.1 h.opens) hlist
    | null | bool | number | string => cases n <;> rfl

end Record

end OrmDdl.Json
