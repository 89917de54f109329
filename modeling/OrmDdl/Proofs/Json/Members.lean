import OrmDdl.Proofs.Json.LocalRecords
import OrmDdl.Proofs.Json.Passing
/-!
# Members of records, one by one

`Determined r`: of a well-formed value the reader `r` takes all, or nothing, and the same wherever the
value stands. A record whose fields are so takes each member of an object in this way
(`Record.memberStep_determined`), so that what it makes of the members in front of a place does not
depend on what stands behind it (`Record.exists_rounds_left`).
-/

namespace OrmDdl.Json

open Reader

variable {α β : Type}

/-! ## Readers of well-formed values -/

/-- What is read of a well-formed value is the whole of it, and it is read as the same wherever it
stands. -/
def Determined (r : Reader α) : Prop :=
  ∀ ⦃text rest s t : List Char⦄ ⦃a : α⦄, Derives .value text → Delimited rest →
    skipBlanks s = text ++ rest → r s = .ok (a, t) → t = rest ∧ Reads r text a

theorem Derives.opens {text : List Char} (h : Derives .value text) :
    ∃ c t, text = c :: t ∧ isBlank c = false ∧ c ≠ ']' :=
  (passValue_reads h).opens

/-- A value is a list or an object, or it starts with neither bracket. -/
theorem Derives.bracketed_or {text : List Char} (h : Derives .value text) :
    Bracketed text ∨ ∃ c t, text = c :: t ∧ isBlank c = false ∧ ¬IsOpening c := by
  have hscalar : ∀ {c : Char} {t : List Char}, Derives .value (c :: t) → ¬IsOpening c →
      ∃ c' t', c :: t = c' :: t' ∧ isBlank c' = false ∧ ¬IsOpening c' := by
    intro c t h hc
    obtain ⟨_, _, ⟨⟩, hblank, -⟩ := h.opens
    exact ⟨c, t, rfl, hblank, hc⟩
  cases h with
  | @word w hw =>
    have hfirst : ∀ w ∈ ["null", "true", "false"], ∃ c t, w.toList = c :: t ∧ isBlank c = false ∧
        ¬IsOpening c := by
      simp only [List.forall_mem_cons]
      refine ⟨⟨'n', _, rfl, by decide, by simp [IsOpening]⟩,
        ⟨'t', _, rfl, by decide, by simp [IsOpening]⟩,
        ⟨'f', _, rfl, by decide, by simp [IsOpening]⟩, List.forall_mem_nil _⟩
    exact .inr (hfirst w hw)
  | number h =>
    obtain ⟨c, t, rfl, hc⟩ := h.exists_cons
    refine .inr (hscalar (.number h) ?_)
    rintro (rfl | rfl)
    · exact absurd hc (by decide)
    · exact absurd hc (by decide)
  | string h => exact .inr (hscalar (.string h) (by simp [IsOpening]))
  | ofArray h => exact .inl h.bracketed
  | emptyObject h => exact .inl (.of_brackets (.inr rfl) (.inr rfl) (balanced_blanks h))
  | object h => exact .inl (.of_brackets (.inr rfl) (.inr rfl) h.balanced)

theorem Determined.bind_pure {r : Reader α} (h : Determined r) (f : α → β) :
    Determined (do return f (← r)) := by
  intro text rest s t b htext hrest hs hread
  obtain ⟨a, u, ha, ⟨⟩⟩ := bind_eq_ok hread
  obtain ⟨rfl, hreads⟩ := h htext hrest hs ha
  exact ⟨rfl, hreads.bind_pure f⟩

theorem determined_passValue : Determined passValue := by
  intro text rest s t a htext hrest hs hread
  have hreads := passValue_reads htext
  rw [hreads.ok s rest hs hrest] at hread
  cases hread
  exact ⟨rfl, hreads⟩

/-- A reader of lists or objects is determined, as these end in one place only. -/
theorem determined_of_closed {r : Reader α} {n : Nat} (h : ∀ s, ClosedOn (Spent n n) r r s)
    (hblanks : ∀ {s s'}, skipBlanks s = skipBlanks s' → r s = r s') : Determined r := by
  intro text rest s t a htext hrest hs hread
  have hskip : ∀ {s rest}, skipBlanks s = text ++ rest → r s = r (text ++ rest) := by
    intro s rest hs
    refine hblanks (hs.trans ?_)
    obtain ⟨c, u, rfl, hc, -⟩ := htext.opens
    exact (skipBlanks_of_not_blank hc _).symm
  rw [hskip hs] at hread
  obtain ⟨c, hc, hbracketed, htakes⟩ := h _ a t hread
  have hwhole : text = c ∧ rest = t := by
    obtain htext | ⟨d, u, rfl, hd, hopening⟩ := htext.bracketed_or
    · exact htext.unique hbracketed hc
    · -- what is taken starts with a bracket
      obtain ⟨blanks, o, inner, k, rfl, hblanks, ho, -, -⟩ := hbracketed.parts
      have hfirst := congrArg skipBlanks hc
      rw [List.cons_append, skipBlanks_of_not_blank hd, List.append_assoc,
        skipBlanks_append hblanks, List.cons_append, skipBlanks_of_not_blank ho.not_isBlank]
        at hfirst
      exact absurd ((List.cons.inj hfirst).1 ▸ ho) hopening
  obtain ⟨rfl, rfl⟩ := hwhole
  refine ⟨rfl, htext.opens, fun s rest' hs _ => ?_⟩
  rw [hskip hs]
  exact (htakes rest').resolve_right fun hdeep => Nat.lt_irrefl n hdeep.1.fewer

theorem start_bind_eq {k : Char → Reader α} {s s' : List Char}
    (h : skipBlanks s = skipBlanks s') : (start >>= k) s = (start >>= k) s' := by
  have hstart : start s = start s' := by
    unfold start
    rw [bind_ok (next?_eq s), bind_ok (next?_eq s'), h]
  show (start s >>= _) = (start s' >>= _)
  rw [hstart]

theorem determined_list {r : Nat → Reader α} (hr : Graded r) (n : Nat) :
    Determined (list r n) :=
  determined_of_closed (closed_list hr n n) start_bind_eq

/-- A value that starts like a number is one. -/
theorem Derives.numberText {c : Char} {t : List Char} (h : Derives .value (c :: t))
    (hc : c = '-' ∨ c.isDigit = true) : NumberText (c :: t) := by
  generalize htext : c :: t = text at h
  have hne : ∀ d u, d ≠ '-' → d.isDigit = false → text ≠ d :: u := by
    rintro d u hminus hdigit rfl
    exact ne_of_startsNumber hc hminus hdigit (List.cons.inj htext).1
  cases h with
  | word hw =>
    simp only [List.mem_cons, List.not_mem_nil, or_false] at hw
    rcases hw with rfl | rfl | rfl
    all_goals exact absurd rfl (hne _ _ (by decide) (by decide))
  | number h => exact h
  | string h => exact absurd rfl (hne _ _ (by decide) (by decide))
  | ofArray h => cases h <;> exact absurd rfl (hne _ _ (by decide) (by decide))
  | emptyObject h => exact absurd rfl (hne _ _ (by decide) (by decide))
  | object h => exact absurd rfl (hne _ _ (by decide) (by decide))

/-- The outcome of a number is the same wherever its text stands. -/
theorem NumberText.number_eq {text : List Char} (h : NumberText text) :
    (∀ rest s m, Delimited rest → Reader.number (text ++ rest) ≠ .ok (m, s)) ∨
      ∃ m, ∀ rest, Delimited rest → Reader.number (text ++ rest) = .ok (m, rest) := by
  obtain ⟨n, hn⟩ := h.numeral_ok delimited_nil .endInValue
  have hnumeral : ∀ rest, Delimited rest → numeral .endInValue (text ++ rest) = .ok (n, rest) :=
    fun rest hrest =>
      extensible_numeral .endInValue text [] rest n (List.append_nil text ▸ hn) hrest
  unfold Reader.number
  cases hm : n.toNumber with
  | error unread =>
    refine .inl fun rest s m hrest hread => ?_
    rw [bind_ok (hnumeral rest hrest), hm] at hread
    cases hread
  | ok m =>
    refine .inr ⟨m, fun rest hrest => ?_⟩
    rw [bind_ok (hnumeral rest hrest), hm]
    rfl

theorem determined_natural32 : Determined natural32 := by
  intro text rest s t a htext hrest hs hread
  obtain ⟨c, u, rfl, hopens⟩ := htext.opens
  have hstart : ∀ {s rest}, skipBlanks s = c :: u ++ rest → start s = .ok (c, c :: u ++ rest) :=
    fun hs => start_cons hs
  unfold natural32 at hread
  rw [bind_ok (hstart hs)] at hread
  split at hread
  · next hc =>
    obtain ⟨m, w, hnumber, hread⟩ := bind_eq_ok (settled_eq_ok hread)
    obtain hfails | ⟨n, hn⟩ := (htext.numberText hc).number_eq
    · exact absurd hnumber (hfails rest w m hrest)
    rw [hn rest hrest] at hnumber
    cases hnumber
    cases m with
    | double x => cases hread
    | negative k hk => cases hread
    | natural k hk =>
      by_cases hfits : k < Nat.pow 2 32
      · have hread : (if k < Nat.pow 2 32 then pure k else _ : Reader Nat) rest = .ok (a, t) :=
          hread
        rw [if_pos hfits] at hread
        cases hread
        refine ⟨rfl, ⟨c, u, rfl, hopens⟩, fun s' rest' hs' hrest' => ?_⟩
        unfold natural32
        rw [bind_ok (hstart hs'), if_pos hc]
        refine settled_ok ?_
        rw [bind_ok (hn rest' hrest')]
        show (if a < Nat.pow 2 32 then pure a else _ : Reader Nat) rest' = _
        rw [if_pos hfits]
        rfl
      · have hread : (if k < Nat.pow 2 32 then pure k else failOpen _ : Reader Nat) rest =
          .ok (a, t) := hread
        rw [if_neg hfits] at hread
        cases hread
  · exact absurd hread (mismatch_ne_ok _ _ a t)

/-! ## Members -/

/-- What stands before a member: blanks, and a comma unless it is the first. -/
def LeadsIn (first : Bool) (pre : List Char) : Prop :=
  if first then AreBlanks pre
  else ∃ behind before, pre = behind ++ ',' :: before ∧ AreBlanks behind ∧ AreBlanks before

theorem LeadsIn.append {first : Bool} {pre blanks : List Char} (h : LeadsIn first pre)
    (hblanks : AreBlanks blanks) : LeadsIn first (pre ++ blanks) := by
  cases first with
  | true => exact List.forall_mem_append.2 ⟨h, hblanks⟩
  | false =>
    obtain ⟨behind, before, rfl, hbehind, hbefore⟩ := h
    exact ⟨behind, before ++ blanks, by simp, hbehind, List.forall_mem_append.2 ⟨hbefore, hblanks⟩⟩

theorem nextMember_ok {first : Bool} {pre : List Char} (h : LeadsIn first pre) (u : List Char) :
    nextMember first (pre ++ '"' :: u) = .ok (true, '"' :: u) := by
  unfold nextMember
  cases first with
  | true =>
    rw [bind_ok (next?_cons (skipBlanks_blanks_append h (by decide) u))]
    rfl
  | false =>
    obtain ⟨behind, before, rfl, hbehind, hbefore⟩ := h
    rw [List.append_assoc, List.cons_append,
      bind_ok (next?_cons (skipBlanks_blanks_append hbehind (by decide) (before ++ '"' :: u)))]
    show (advance >>= fun _ => next? >>= _) (',' :: (before ++ '"' :: u)) = _
    rw [bind_ok (advance_cons _ _),
      bind_ok (next?_cons (skipBlanks_blanks_append hbefore (by decide) u))]
    rfl

namespace Record

variable {δ : Type} {r : Record δ α} {n : Nat}

section

variable {first : Bool} {d : δ} {pre name gap lead value : List Char}

/-- What stands behind the name of a member is taken by the field of that name. -/
theorem memberStep_member {s : List Char} (hpre : LeadsIn first pre) (hname : Spells name s)
    (rest : List Char) :
    r.memberStep n (first, d) (pre ++ (memberPiece name gap lead value ++ rest)) =
      (do return .more (false, ← r.takeMember n d (String.ofList s)) :
        Reader (Step (Bool × δ) α)) (gap ++ ':' :: (lead ++ (value ++ rest))) := by
  unfold memberStep
  rw [memberPiece_append, bind_ok (nextMember_ok hpre _), if_pos rfl, bind_ok (hname.string_ok _)]

/-- A member of a known name is taken by the reader of its field. -/
theorem memberStep_ok {s : List Char} {slot : Slot δ} {d' : δ} (hpre : LeadsIn first pre)
    (hname : Spells name s) (hgap : AreBlanks gap) (hlead : AreBlanks lead)
    (found : r.slot? (String.ofList s) = some slot) (fresh : slot.isRead d = false)
    (reads : Reads (slot.read n d) value d') {rest : List Char} (hrest : Delimited rest) :
    r.memberStep n (first, d) (pre ++ (memberPiece name gap lead value ++ rest)) =
      .ok (.more (false, d'), rest) := by
  have hread : slot.read n d (lead ++ (value ++ rest)) = .ok (d', rest) :=
    reads.ok _ rest (by rw [skipBlanks_append hlead, reads.skipBlanks_eq]) hrest
  have htake : r.takeMember n d (String.ofList s) (gap ++ ':' :: (lead ++ (value ++ rest))) =
      .ok (d', rest) := by
    unfold takeMember
    simp only [found, fresh, if_neg Bool.false_ne_true]
    rw [bind_ok (colon_ok hgap _)]
    exact hread
  rw [memberStep_member hpre hname, bind_ok htake]
  rfl

/-- A field is not read twice. -/
theorem memberStep_again {s : List Char} {slot : Slot δ} (hpre : LeadsIn first pre)
    (hname : Spells name s) (found : r.slot? (String.ofList s) = some slot)
    (again : slot.isRead d = true) (rest : List Char) (x : Step (Bool × δ) α) (t : List Char) :
    r.memberStep n (first, d) (pre ++ (memberPiece name gap lead value ++ rest)) ≠ .ok (x, t) := by
  intro h
  rw [memberStep_member hpre hname] at h
  obtain ⟨e, u, htake, -⟩ := bind_eq_ok h
  unfold takeMember at htake
  simp only [found, again, if_pos] at htake
  cases htake

/-- A member of another name is passed. -/
theorem memberStep_pass {s : List Char} (hpre : LeadsIn first pre)
    (hname : Spells name s) (hgap : AreBlanks gap) (hlead : AreBlanks lead)
    (unknown : r.slot? (String.ofList s) = none) (hvalue : Derives .value value)
    {rest : List Char} (hrest : Delimited rest) :
    r.memberStep n (first, d) (pre ++ (memberPiece name gap lead value ++ rest)) =
      .ok (.more (false, d), rest) := by
  have hreads := passValue_reads hvalue
  have hpass : passValue (lead ++ (value ++ rest)) = .ok ((), rest) :=
    hreads.ok _ rest (by rw [skipBlanks_append hlead, hreads.skipBlanks_eq]) hrest
  have htake : r.takeMember n d (String.ofList s) (gap ++ ':' :: (lead ++ (value ++ rest))) =
      .ok (d, rest) := by
    unfold takeMember
    simp only [unknown]
    rw [bind_ok (colon_ok hgap _), bind_ok hpass]
    rfl
  rw [memberStep_member hpre hname, bind_ok htake]
  rfl

/-- A member that is taken is taken whole, and the same whatever stands behind it. -/
theorem memberStep_determined (hslots : ∀ slot ∈ r.slots, ∀ d, Determined (slot.read n d))
    (hpre : LeadsIn first pre) (hname : StringText name) (hgap : AreBlanks gap)
    (hlead : AreBlanks lead) (hvalue : Derives .value value) {rest t : List Char}
    (hrest : Delimited rest) {x : Step (Bool × δ) α}
    (h : r.memberStep n (first, d) (pre ++ (memberPiece name gap lead value ++ rest)) = .ok (x, t)) :
    ∃ d', x = .more (false, d') ∧ t = rest ∧ ∀ rest', Delimited rest' →
      r.memberStep n (first, d) (pre ++ (memberPiece name gap lead value ++ rest')) =
        .ok (.more (false, d'), rest') := by
  have hstep := h
  unfold memberStep at hstep
  rw [memberPiece_append, bind_ok (nextMember_ok hpre _), if_pos rfl] at hstep
  obtain ⟨s, u, hstring, hstep⟩ := bind_eq_ok hstep
  obtain ⟨cs, hspells, rfl, rfl⟩ := string_eq_ok hname hstring
  obtain ⟨d', u, htake, ⟨⟩⟩ := bind_eq_ok hstep
  have hskip : skipBlanks (lead ++ (value ++ rest)) = value ++ rest := by
    rw [skipBlanks_append hlead, (passValue_reads hvalue).skipBlanks_eq]
  unfold takeMember at htake
  refine ⟨d', rfl, ?_⟩
  cases hslot : r.slot? (String.ofList cs) with
  | none =>
    simp only [hslot] at htake
    rw [bind_ok (colon_ok hgap _)] at htake
    obtain ⟨_, v, hpass, ⟨⟩⟩ := bind_eq_ok htake
    obtain ⟨rfl, -⟩ := determined_passValue hvalue hrest hskip hpass
    exact ⟨rfl, fun rest' => memberStep_pass hpre hspells hgap hlead hslot hvalue⟩
  | some slot =>
    simp only [hslot] at htake
    cases hread : slot.isRead d with
    | true =>
      rw [if_pos hread] at htake
      cases htake
    | false =>
      rw [if_neg (Bool.eq_false_iff.1 hread), bind_ok (colon_ok hgap _)] at htake
      have hslot' : slot ∈ r.slots := List.mem_of_find?_eq_some hslot
      obtain ⟨rfl, hreads⟩ := hslots slot hslot' d hvalue hrest hskip htake
      exact ⟨rfl, fun rest' => memberStep_ok hpre hspells hgap hlead hslot hread hreads⟩

end

section

variable (hslots : ∀ slot ∈ r.slots, ∀ d, Determined (slot.read n d))
  {first : Bool} {d : δ} {pre text behind rest : List Char} {a : α}

include hslots

/-- Behind a member the rounds go on from fields that do not depend on what stands there. -/
theorem exists_rounds_member (hpre : LeadsIn first pre) (htext : Derives .member text)
    (h : Rounds (r.memberStep n) (first, d) (pre ++ (text ++ ',' :: behind)) a rest) :
    ∃ d' pre', LeadsIn false pre' ∧ ∀ behind a rest,
      Rounds (r.memberStep n) (first, d) (pre ++ (text ++ ',' :: behind)) a rest ↔
        Rounds (r.memberStep n) (false, d') (pre' ++ behind) a rest := by
  cases htext with
  | @member before name gap element hbefore hname hgap helement =>
  cases helement with
  | @element lead value trail hlead hvalue htrail =>
  have hpre' : LeadsIn first (pre ++ before) := hpre.append hbefore
  have htext : ∀ behind, pre ++ (before ++ '"' :: (name ++ '"' :: (gap ++ ':' ::
      (lead ++ (value ++ trail)))) ++ ',' :: behind) =
      pre ++ before ++ (memberPiece name gap lead value ++ (trail ++ ',' :: behind)) := by
    intro behind
    simp [memberPiece]
  have hrest : ∀ behind, Delimited (trail ++ ',' :: behind) :=
    delimited_blanks_append htrail (.inl rfl)
  rw [htext] at h
  obtain ⟨x, t, hstep⟩ := h.exists_step
  obtain ⟨d', -, -, hagain⟩ :=
    memberStep_determined hslots hpre' hname hgap hlead hvalue (hrest behind) hstep
  refine ⟨d', trail ++ [','], ⟨trail, [], rfl, htrail, List.forall_mem_nil _⟩,
    fun behind a rest => ?_⟩
  rw [htext, List.append_assoc trail]
  exact Rounds.iff_of_more (hagain _ (hrest behind))

theorem exists_rounds_members {kind : Kind} {text : List Char} (htext : Derives kind text)
    (hkind : kind = .members) : ∀ {first : Bool} {d : δ} {pre : List Char}, LeadsIn first pre →
      Rounds (r.memberStep n) (first, d) (pre ++ (text ++ ',' :: behind)) a rest →
      ∃ d' pre', LeadsIn false pre' ∧ ∀ behind a rest,
        Rounds (r.memberStep n) (first, d) (pre ++ (text ++ ',' :: behind)) a rest ↔
          Rounds (r.memberStep n) (false, d') (pre' ++ behind) a rest := by
  induction htext with
  | oneMember htext => exact fun hpre => exists_rounds_member hslots hpre htext
  | moreMembers htext _ _ ih =>
    intro first d pre hpre h
    simp only [List.append_assoc, List.cons_append] at h ⊢
    obtain ⟨d', pre', hpre', hmember⟩ := exists_rounds_member hslots hpre htext h
    obtain ⟨d'', pre'', hpre'', hmembers⟩ := ih rfl hpre' ((hmember _ _ _).1 h)
    exact ⟨d'', pre'', hpre'', fun behind a rest => (hmember _ a rest).trans (hmembers _ a rest)⟩
  | _ => cases hkind

/-- Behind the members in front of a place, each with its comma, the rounds go on from fields that do
not depend on what stands there. -/
theorem exists_rounds_left {left : List Char}
    (hleft : left = [] ∨ ∃ members, Derives .members members ∧ left = members ++ [','])
    (h : Rounds (r.memberStep n) (true, d) (left ++ behind) a rest) :
    ∃ first d' pre, LeadsIn first pre ∧ ∀ behind a rest,
      Rounds (r.memberStep n) (true, d) (left ++ behind) a rest ↔
        Rounds (r.memberStep n) (first, d') (pre ++ behind) a rest := by
  have hnil : LeadsIn true [] := List.forall_mem_nil _
  obtain rfl | ⟨members, hmembers, rfl⟩ := hleft
  · exact ⟨true, d, [], hnil, fun _ _ _ => Iff.rfl⟩
  · simp only [List.append_assoc] at h ⊢
    exact ⟨false, exists_rounds_members hslots hmembers rfl hnil h⟩

end

end Record

end OrmDdl.Json
