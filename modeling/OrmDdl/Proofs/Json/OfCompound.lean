import Mathlib.Data.List.Forall2
import OrmDdl.Proofs.Json.OfTree
/-!
# Compounds by what they denote

Lists, objects of any names, variants and values of any kind are read by the trees that their texts
denote: a list as its elements one after the other (`denotes_list`), an object as its members in the
order of the text (`denotes_named`), a value as the tree itself up to some depth (`denotes_value`).
-/

namespace OrmDdl.Json

open Reader

variable {α : Type}

/-- Taking one more each time is taking all in order. -/
theorem foldlM_cons_reverse {ι : Type} (g : ι → Option α) (xs : List ι) : ∀ acc : List α,
    (xs.foldlM (fun acc x => (g x).map (· :: acc)) acc).bind (fun acc => some acc.reverse) =
      (xs.mapM g).map (acc.reverse ++ ·) := by
  induction xs with
  | nil =>
    intro acc
    show some acc.reverse = some (acc.reverse ++ [])
    rw [List.append_nil]
  | cons x xs ih =>
    intro acc
    rw [List.foldlM_cons, List.mapM_cons]
    cases hx : g x with
    | none => rfl
    | some a =>
      refine (ih (a :: acc)).trans ?_
      cases xs.mapM g with
      | none => rfl
      | some as =>
        show some ((a :: acc).reverse ++ as) = some (acc.reverse ++ (a :: as))
        rw [List.reverse_cons, List.append_assoc]
        rfl

theorem forall₂_of_mapM {ι κ : Type} {f : ι → Option κ} {R : ι → κ → Prop} :
    ∀ {xs : List ι} {ys : List κ}, (∀ x ∈ xs, ∀ y, f x = some y → R x y) → xs.mapM f = some ys →
      List.Forall₂ R xs ys
  | [], ys, _, h => by
    cases h
    exact .nil
  | x :: xs, ys, hR, h => by
    obtain ⟨hx, hxs⟩ := List.forall_mem_cons.1 hR
    rw [List.mapM_cons] at h
    obtain ⟨y, hy, h⟩ := Option.bind_eq_some_iff.1 h
    obtain ⟨ys, hys, ⟨⟩⟩ := Option.bind_eq_some_iff.1 h
    exact .cons (hx y hy) (forall₂_of_mapM hxs hys)

theorem mapM_eq_some {ι κ : Type} {f : ι → Option κ} {xs : List ι} {ys : List κ} :
    xs.mapM f = some ys ↔ List.Forall₂ (fun x y => f x = some y) xs ys := by
  refine ⟨forall₂_of_mapM fun _ _ _ => id, fun h => ?_⟩
  induction h with
  | nil => rfl
  | cons hx _ ih =>
    rw [List.mapM_cons, hx, ih]
    rfl

namespace Tree

/-- A member with a name, as a name and what its value is read as. -/
def member? (f : Tree → Option α) (m : Option String × Tree) : Option (String × α) :=
  m.1.bind fun name => (f m.2).map (name, ·)

def list? (f : Nat → Tree → Option α) : Nat → Tree → Option (List α)
  | n + 1, array items => items.mapM (f n)
  | _, _ => none

def named? (f : Nat → Tree → Option α) : Nat → Tree → Option (List (String × α))
  | n + 1, object members => members.mapM (member? (f n))
  | _, _ => none

/-- The name of the only member, if that is `null`. -/
def nameOfNull? : List (Option String × Tree) → Option String
  | [(chars, null)] => chars
  | _ => none

def variant? (decode : String → Except Cause α) : Nat → Tree → Option α
  | _, string chars => chars.bind fun s => (decode s).toOption
  | _ + 1, object members => (nameOfNull? members).bind fun s => (decode s).toOption
  | _, _ => none

/-- The value that a tree is, if brackets are nested in it at most so deep. -/
def value? : Nat → Tree → Option Json
  | _, null => some .null
  | _, bool b => some (.bool b)
  | _, number value => value.map .number
  | _, string chars => chars.map .string
  | n + 1, array items => (items.mapM (value? n)).map .array
  | n + 1, object members => (members.mapM (member? (value? n))).map .object
  | 0, _ => none

end Tree

/-! ## Elements and members -/

section

variable {r : Reader α} {f : Tree → Option α} (hr : Denotes r f)

include hr

theorem repeats_elementStep {entries : List (Tree × List Char)}
    (h : ∀ e ∈ entries, HasText e.1 e.2) : Repeats (elementStep r) List.isEmpty ']' Prod.snd
      (fun acc e => (f e.1).map (· :: acc)) (fun acc => some acc.reverse) entries where
  isClosing := .inl rfl
  ne_nil e he := (h e he).ne_nil
  later acc e _ acc' hacc' := by
    obtain ⟨a, -, rfl⟩ := Option.map_eq_some_iff.1 hacc'
    rfl
  more acc e he pre rest hpre hrest := by
    obtain ⟨c, u, htext, hblank, hc⟩ := (h e he).exists_cons
    have hread := (hr e.1 e.2 (h e he)).outcome_append (h e he) (List.forall_mem_nil _) hrest
    rw [List.nil_append, htext, List.cons_append] at hread
    unfold elementStep
    rw [htext, List.cons_append, outcome_bind_ok (nextElement_ok hpre hblank hc _), if_pos rfl,
      outcome_bind_pure, hread, Option.map_map, Option.map_map]
    rfl
  done acc blanks rest hblanks := by
    unfold elementStep
    rw [outcome_bind_ok (nextElement_end _ hblanks rest)]
    rfl

/-- The elements of a list are read one after the other. -/
theorem outcome_elements {entries : List (Tree × List Char)} {body : List Char}
    (hbody : Listed true (entries.map Prod.snd) body) (h : ∀ e ∈ entries, HasText e.1 e.2)
    (rest : List Char) : outcome (elements r) (body ++ ']' :: rest) =
      ((entries.map Prod.fst).mapM f).map (·, ']' :: rest) := by
  have hbody : Listed ([] : List α).isEmpty (entries.map Prod.snd) body := hbody
  unfold elements
  rw [(repeats_elementStep hr h).outcome_untilDone hbody rest, foldlM_cons_reverse, List.mapM_map]
  exact congrArg (Option.map _) (Option.map_id' ..)

end

/-- The name of a member is read, and what stands behind it is left. -/
theorem outcome_name {β : Type} {first : Bool} {pre : List Char} (hpre : LeadsIn first pre)
    {chars : Option String} {m : MemberText} (hname : StringOf chars m.name)
    (found : String → Reader β) (ended : Reader β) (rest : List Char) :
    outcome (do if ← nextMember first then found (← Reader.string) else ended)
        (pre ++ (m.text ++ rest)) =
      chars.bind fun name =>
        outcome (found name) (m.gap ++ ':' :: (m.lead ++ (m.value ++ rest))) := by
  rw [MemberText.text, memberPiece_append, outcome_bind_ok (nextMember_ok hpre _), if_pos rfl,
    outcome_bind, hname.outcome_string]
  cases chars with
  | none => rfl
  | some name => rfl

section

variable {r : Reader α} {f : Tree → Option α} (hr : Denotes r f)
  {entries : List ((Option String × Tree) × MemberText)}
  (hnames : ∀ e ∈ entries, StringOf e.1.1 e.2.name) (h : ∀ e ∈ entries, HasText e.1.2 e.2.value)

include hr hnames h

theorem repeats_memberStep : Repeats (memberStep r) List.isEmpty '\x7d' (·.2.text)
    (fun acc e => (Tree.member? f e.1).map (· :: acc)) (fun acc => some acc.reverse) entries where
  isClosing := .inr rfl
  ne_nil e he := List.cons_ne_nil _ _
  later acc e _ acc' hacc' := by
    obtain ⟨a, -, rfl⟩ := Option.map_eq_some_iff.1 hacc'
    rfl
  more acc e he pre rest hpre hrest := by
    unfold memberStep
    rw [outcome_name hpre (hnames e he)]
    unfold Tree.member?
    cases e.1.1 with
    | none => rfl
    | some name =>
      have hread := (hr _ _ (h e he)).outcome_append (h e he) e.2.lead_blanks hrest
      rw [Option.bind_some, outcome_bind_ok (colon_ok e.2.gap_blanks _), outcome_bind_pure, hread,
        Option.bind_some, Option.map_map, Option.map_map, Option.map_map]
      rfl
  done acc blanks rest hblanks := by
    unfold memberStep
    rw [outcome_bind_ok (nextMember_end _ hblanks rest)]
    rfl

/-- The members of an object are read one after the other. -/
theorem outcome_members {body : List Char} (hbody : Listed true (entries.map (·.2.text)) body)
    (rest : List Char) : outcome (members r) (body ++ '\x7d' :: rest) =
      ((entries.map Prod.fst).mapM (Tree.member? f)).map (·, '\x7d' :: rest) := by
  have hbody : Listed ([] : List (String × α)).isEmpty (entries.map (·.2.text)) body := hbody
  unfold members
  rw [(repeats_memberStep hr hnames h).outcome_untilDone hbody rest, foldlM_cons_reverse,
    List.mapM_map]
  exact congrArg (Option.map _) (Option.map_id' ..)

end

/-! ## Between brackets -/

section

variable {r : Nat → Reader α} {f : Nat → Tree → Option α} (hr : ∀ n, Denotes (r n) (f n))

include hr

theorem denotes_list (n : Nat) : Denotes (list r n) (Tree.list? f n) := by
  refine .of_start fun t c u h rest _ => ?_
  split
  · obtain ⟨entries, body, rfl, rfl, hbody, h⟩ := h.of_list
    cases n with
    | zero => rfl
    | succ n =>
      rw [List.cons_append, List.append_assoc]
      exact outcome_inList (outcome_elements (hr n) hbody h rest)
  · next hc =>
    rw [outcome_mismatch]
    cases t with
    | array => exact absurd (beq_iff_eq.1 h.opens) hc
    | null | bool | number | string | object => cases n <;> rfl

theorem denotes_named (n : Nat) : Denotes (named r n) (Tree.named? f n) := by
  refine .of_start fun t c u h rest _ => ?_
  split
  · obtain ⟨entries, body, rfl, rfl, hbody, hnames, h⟩ := h.of_object
    cases n with
    | zero => rfl
    | succ n =>
      rw [List.cons_append, List.append_assoc]
      exact outcome_inObject (outcome_members (hr n) hnames h hbody rest)
  · next hc =>
    rw [outcome_mismatch]
    cases t with
    | object => exact absurd (beq_iff_eq.1 h.opens) hc
    | null | bool | number | string | array => cases n <;> rfl

end

/-- A value is read up to its depth, which grows by one from a bracket to what it holds. -/
theorem denotes_value (n : Nat) : Denotes (value n) (Tree.value? n) := by
  induction n using Nat.strong_induction_on with
  | _ n ih =>
  unfold value
  refine .of_start fun t c u h rest hrest => ?_
  split
  · obtain ⟨rfl, rfl⟩ := h.of_null
    cases n <;> exact outcome_of_ok (bind_ok (word_append rfl rest))
  · obtain ⟨rfl, htext⟩ := h.of_bool (b := true)
    rw [(List.cons.inj htext).2]
    cases n <;> exact outcome_of_ok (bind_ok (word_append rfl rest))
  · obtain ⟨rfl, htext⟩ := h.of_bool (b := false)
    rw [(List.cons.inj htext).2]
    cases n <;> exact outcome_of_ok (bind_ok (word_append rfl rest))
  · obtain ⟨chars, text, rfl, hchars, rfl⟩ := h.of_quote
    rw [List.cons_append, List.append_assoc, outcome_bind_pure]
    rw [List.singleton_append, hchars.outcome_string, Option.map_map]
    cases n <;> cases chars <;> rfl
  · obtain ⟨entries, body, rfl, rfl, hbody, h⟩ := h.of_list
    cases n with
    | zero => rfl
    | succ n =>
      have helements := outcome_elements (ih n n.lt_succ_self) hbody h rest
      rw [List.cons_append, List.append_assoc]
      refine (outcome_bind_pure ..).trans ?_
      rw [List.singleton_append, outcome_inList helements, Tree.value?, Option.map_map,
        Option.map_map]
      rfl
  · obtain ⟨entries, body, rfl, rfl, hbody, hnames, h⟩ := h.of_object
    cases n with
    | zero => rfl
    | succ n =>
      have hmembers := outcome_members (ih n n.lt_succ_self) hnames h hbody rest
      rw [List.cons_append, List.append_assoc]
      refine (outcome_bind_pure ..).trans ?_
      rw [List.singleton_append, outcome_inObject hmembers, Tree.value?, Option.map_map,
        Option.map_map]
      rfl
  · next hnull htrue hfalse hquote hlist hobject =>
    split
    · next hc =>
      obtain ⟨value, rfl, hvalue⟩ := h.of_digit hc
      rw [outcome_bind_pure, hvalue.reads rest hrest, Option.map_map]
      cases n <;> cases value <;> rfl
    · next hc =>
      -- every tree opens with one of the characters
      have hopens := h.opens
      cases t with
      | null => exact absurd (beq_iff_eq.1 hopens) hnull
      | bool b =>
        cases b with
        | false => exact absurd (beq_iff_eq.1 hopens) hfalse
        | true => exact absurd (beq_iff_eq.1 hopens) htrue
      | number => exact absurd (HasText.startsNumber_iff.1 hopens) hc
      | string => exact absurd (beq_iff_eq.1 hopens) hquote
      | array => exact absurd (beq_iff_eq.1 hopens) hlist
      | object => exact absurd (beq_iff_eq.1 hopens) hobject

/-- The value of the only member is `null`. -/
theorem outcome_onlyNull {t : Tree} {m : MemberText} {pieces : List (List Char)}
    {behind : List Char} (ht : HasText t m.value) (hbehind : Listed false pieces behind) (a : α)
    (rest : List Char) :
    outcome (do
        colon
        Reader.null
        match ← next? with
        | some '\x7d' => advance; return a
        | some _ => failHere .expectedValue
        | none => failHere .endInObject)
        (m.gap ++ ':' :: (m.lead ++ (m.value ++ (behind ++ '\x7d' :: rest)))) =
      t.null?.bind fun _ => if pieces = [] then some (a, rest) else none := by
  have hnull := (denotes_null _ _ ht).outcome_append ht m.lead_blanks
    (hbehind.delimited (.inr rfl) rest)
  rw [outcome_bind_ok (colon_ok m.gap_blanks _), outcome_bind, hnull]
  cases t with
  | bool | number | string | array | object => rfl
  | null =>
    show outcome (next? >>= _) (behind ++ '\x7d' :: rest) = _
    cases hbehind with
    | nil hblanks =>
      rw [outcome_bind_ok (next?_cons (skipBlanks_blanks_append hblanks (by decide) rest))]
      rfl
    | cons hpre =>
      obtain ⟨gap, before, rfl, hgap, -⟩ := hpre
      rw [List.append_assoc, List.append_assoc, List.cons_append,
        outcome_bind_ok (next?_cons (skipBlanks_blanks_append hgap (by decide) _))]
      rfl

/-- A variant is its name, or stands for an object that holds `null` under its name. -/
theorem denotes_variant (decode : String → Except Cause α) (n : Nat) :
    Denotes (variant decode n) (Tree.variant? decode n) := by
  refine .of_start fun t c u h rest hrest => ?_
  split
  · obtain ⟨chars, text, rfl, hchars, rfl⟩ := h.of_quote
    rw [List.cons_append, List.append_assoc]
    refine (hchars.outcome_decoded decode rest).trans ?_
    cases n <;> rfl
  · obtain ⟨entries, body, rfl, rfl, hbody, hnames, hvalues⟩ := h.of_object
    cases n with
    | zero => rfl
    | succ n =>
    show outcome (advance >>= _) ('\x7b' :: (body ++ ['\x7d'] ++ rest)) = _
    rw [outcome_bind_ok (advance_cons _ _), List.append_assoc, List.singleton_append]
    cases entries with
    | nil =>
      cases hbody with
      | nil hblanks =>
        rw [outcome_bind_ok (next?_cons (skipBlanks_blanks_append hblanks (by decide) rest))]
        rfl
    | cons e entries =>
      obtain ⟨⟨chars, t⟩, m⟩ := e
      cases hbody with
      | @cons _ pre _ behind _ hpre hbehind =>
      obtain ⟨hname, -⟩ := List.forall_mem_cons.1 hnames
      obtain ⟨hvalue, -⟩ := List.forall_mem_cons.1 hvalues
      show outcome _ (pre ++ (m.text ++ behind) ++ '\x7d' :: rest) = _
      rw [List.append_assoc, List.append_assoc, MemberText.text, memberPiece_append,
        outcome_bind_ok (next?_cons (skipBlanks_blanks_append hpre (by decide) _))]
      show outcome (decoded decode >>= _) _ = _
      rw [outcome_bind, hname.outcome_decoded]
      cases ha : chars.bind fun s => (decode s).toOption with
      | none =>
        cases entries with
        | cons e entries => cases t <;> rfl
        | nil =>
          cases t with
          | null => exact (congrArg (Option.map _) ha).symm
          | bool | number | string | array | object => rfl
      | some a =>
        refine (outcome_onlyNull hvalue hbehind a rest).trans ?_
        cases t with
        | bool | number | string | array | object => rfl
        | null =>
          cases entries with
          | cons e entries => rfl
          | nil => exact (congrArg (Option.map (·, rest)) ha).symm
  · next hquote hobject =>
    have hopens := h.opens
    cases t with
    | string => exact absurd (beq_iff_eq.1 hopens) hquote
    | object => exact absurd (beq_iff_eq.1 hopens) hobject
    | null | bool | number | array => cases n <;> rfl

end OrmDdl.Json
