import Mathlib.Data.List.Pairwise
import OrmDdl.Proofs.Json.Rearranged
/-!
# Records with their members rearranged

The fields of a record are kept apart, so it does not matter which of two is read first
(`Slot.Swaps`). Members may then be taken in any order, and those of unknown names may be left out
(`Record.Follows.object_eq`).
-/

namespace OrmDdl.Json

open Reader

variable {α β γ δ π : Type}

/-! ## Two fields -/

/-- It does not matter which of two fields is read first. -/
def Slot.Swaps (s₁ s₂ : Slot δ) : Prop :=
  ∀ n d t u, (s₁.take? n d t).bind (s₂.take? n · u) = (s₂.take? n d u).bind (s₁.take? n · t)

/-- What is read before it is put in its place is steady if what is put there can be taken back. -/
theorem Steady.of_map {r : Reader α} {g : α → β} {f : β → Option α} (hf : ∀ a, f (g a) = some a)
    (h : Steady (g <$> r)) : Steady r := by
  refine Denotes.steady (f := fun t => ((g <$> r).ofTree? t).bind f) ?_
  intro t text ht s rest hs hrest
  have hread := h t text ht s rest hs hrest
  rw [outcome_map] at hread
  show outcome r s = (((g <$> r).ofTree? t).bind f).map (·, rest)
  cases hr : outcome r s with
  | none =>
    rw [hr] at hread
    rw [Option.map_eq_none_iff.1 hread.symm]
    rfl
  | some x =>
    rw [hr] at hread
    obtain ⟨b, hb, heq⟩ := Option.map_eq_some_iff.1 hread.symm
    obtain ⟨rfl, rfl⟩ := Prod.mk.inj heq
    rw [hb, Option.bind_some, hf]
    rfl

namespace Slot

theorem Swaps.symm {s₁ s₂ : Slot δ} (h : s₁.Swaps s₂) : s₂.Swaps s₁ :=
  fun n d t u => (h n d u t).symm

/-- The fields are kept in different parts of what is read so far. -/
inductive Apart : Slot δ → Slot δ → Prop
  | of {β γ : Type} {name name' : String} {required required' : Bool} {others others' : List String}
      {get : δ → Option β} {set : δ → β → δ} {read : Nat → Reader β}
      {get' : δ → Option γ} {set' : δ → γ → δ} {read' : Nat → Reader γ}
      (hkept : ∀ d x, get (set d x) = some x) (hkept' : ∀ d y, get' (set' d y) = some y)
      (hget : ∀ d y, get (set' d y) = get d) (hget' : ∀ d x, get' (set d x) = get' d)
      (hset : ∀ d x y, set' (set d x) y = set (set' d y) x) :
      Apart (Slot.of name required get set read others)
        (Slot.of name' required' get' set' read' others')

section

variable {name : String} {required : Bool} {others : List String} {get : δ → Option β}
  {set : δ → β → δ} {read : Nat → Reader β}

theorem read_of (n : Nat) (d : δ) :
    (Slot.of name required get set read others).read n d = set d <$> read n :=
  (map_eq_pure_bind ..).symm

theorem take?_of {n : Nat} (hread : Steady (read n)) (d : δ) (t : Tree) :
    (Slot.of name required get set read others).take? n d t =
      if (get d).isSome then none else ((read n).ofTree? t).map (set d) := by
  unfold take?
  rw [read_of, ofTree?_map hread]
  rfl

/-- A field that is set has been read, so it is not read again. -/
theorem swaps_self (hread : ∀ n, Steady (read n)) (hset : ∀ d x, get (set d x) = some x) :
    (Slot.of name required get set read others).Swaps
      (Slot.of name required get set read others) := by
  have hnone : ∀ n d t u, ((Slot.of name required get set read others).take? n d t).bind
      ((Slot.of name required get set read others).take? n · u) = none := by
    intro n d t u
    rw [take?_of (hread n)]
    split
    · rfl
    · cases (read n).ofTree? t with
      | none => rfl
      | some x =>
        refine (take?_of (hread n) (set d x) u).trans ?_
        rw [hset d x]
        rfl
  intro n d t u
  rw [hnone, hnone]

end

/-- Fields that are kept apart may be read in any order. -/
theorem Apart.swaps {s₁ s₂ : Slot δ} (h : s₁.Apart s₂) (h₁ : ∀ n d, Steady (s₁.read n d))
    (h₂ : ∀ n d, Steady (s₂.read n d)) : s₁.Swaps s₂ := by
  intro n d t u
  cases h with
  | @of β γ _ _ _ _ _ _ get set read get' set' read' hkept hkept' hget hget' hset =>
    have hread : Steady (read n) := .of_map (hkept d) (read_of n d ▸ h₁ n d)
    have hread' : Steady (read' n) := .of_map (hkept' d) (read_of n d ▸ h₂ n d)
    simp only [take?_of hread, take?_of hread']
    -- either field may have been read before, and either value may not be read
    cases hd : (get d).isSome <;> cases hd' : (get' d).isSome <;>
      cases (read n).ofTree? t <;> cases (read' n).ofTree? u <;>
      simp [hget, hget', hset, hd, hd']

end Slot

/-- A field is read at the place of its names, once. -/
structure Slot.Placed (slot : Slot δ) (o : Outline π) (p : π) : Prop where
  carried : ∃ q, (∀ name ∈ slot.name :: slot.others, o.member? p name = some q) ∧
    ∀ n d, Carried o q (slot.read n d)
  once : slot.Swaps slot

section

variable {o : Outline π} {p q : π} {name : String} {required : Bool} {others : List String}
  {get : δ → Option β} {set : δ → β → δ} {read : Nat → Reader β}

theorem Carried.slot_of (h : ∀ n, Carried o p (read n)) (n : Nat) (d : δ) :
    Carried o p ((Slot.of name required get set read others).read n d) := by
  rw [Slot.read_of]
  exact (h n).map _

theorem Slot.placed_of (hread : ∀ n, Carried o q (read n))
    (hnames : ∀ given ∈ name :: others, o.member? p given = some q)
    (hset : ∀ d x, get (set d x) = some x) :
    (Slot.of name required get set read others).Placed o p where
  carried := ⟨q, hnames, Carried.slot_of hread⟩
  once := Slot.swaps_self (fun n => (hread n).steady) hset

end

/-! ## Many members -/

/-- Taking members in another order makes no difference if it makes none for any two. -/
theorem foldlM_eq_of_perm {ι : Type} {g : δ → ι → Option δ}
    (hg : ∀ d x y, (g d x).bind (g · y) = (g d y).bind (g · x)) {xs ys : List ι} (h : xs.Perm ys) :
    ∀ d, xs.foldlM g d = ys.foldlM g d := by
  induction h with
  | nil => exact fun d => rfl
  | cons x _ ih =>
    intro d
    rw [List.foldlM_cons, List.foldlM_cons]
    exact congrArg _ (funext ih)
  | swap x y xs =>
    intro d
    have hswap := congrArg (Option.bind · (xs.foldlM g)) (hg d y x)
    simp only [Option.bind_assoc] at hswap
    simp only [List.foldlM_cons]
    exact hswap
  | trans _ _ ih ih' => exact fun d => (ih d).trans (ih' d)

theorem foldlM_congr {ι : Type} {f g : δ → ι → Option δ} {xs : List ι}
    (h : ∀ x ∈ xs, ∀ d, f d x = g d x) : ∀ d, xs.foldlM f d = xs.foldlM g d := by
  induction xs with
  | nil => exact fun d => rfl
  | cons x xs ih =>
    intro d
    obtain ⟨hx, hxs⟩ := List.forall_mem_cons.1 h
    rw [List.foldlM_cons, List.foldlM_cons, hx]
    exact congrArg _ (funext (ih hxs))

/-- Lists whose elements are read as the same one by one fill the fields as the same. -/
theorem Slot.fill?_eq {n : Nat} {slots : List (Slot δ)} : ∀ {pairs : List (Tree × Tree)} {d : δ},
    (∀ (i : Nat) (slot : Slot δ) (pair : Tree × Tree), slots[i]? = some slot →
      pairs[i]? = some pair → ∀ d,
        (slot.read n d).ofTree? pair.1 = (slot.read n d).ofTree? pair.2) →
    Slot.fill? n slots (pairs.map Prod.fst) d = Slot.fill? n slots (pairs.map Prod.snd) d := by
  induction slots with
  | nil =>
    intro pairs d _
    cases pairs <;> rfl
  | cons slot slots ih =>
    intro pairs d h
    cases pairs with
    | nil => rfl
    | cons pair pairs =>
      have hread := h 0 slot pair List.getElem?_cons_zero List.getElem?_cons_zero d
      show ((slot.read n d).ofTree? pair.1).bind _ = ((slot.read n d).ofTree? pair.2).bind _
      rw [hread]
      exact congrArg _ (funext fun d => ih fun i slot pair hslot hpair =>
        h (i + 1) slot pair hslot hpair)

/-- The fields of a record are read at the places of their names, and kept apart. -/
structure Record.Follows (r : Record δ α) (o : Outline π) (p : π) : Prop where
  placed : ∀ slot ∈ r.slots, slot.Placed o p
  apart : r.slots.Pairwise Slot.Apart

namespace Record

variable {r : Record δ α} {o : Outline π} {p : π}

theorem slot?_eq_some {name : String} {slot : Slot δ} (h : r.slot? name = some slot) :
    slot ∈ r.slots ∧ name ∈ slot.name :: slot.others := by
  refine ⟨List.mem_of_find?_eq_some h, ?_⟩
  have hname := List.find?_some h
  simp only [Bool.or_eq_true, beq_iff_eq, List.contains_iff_mem] at hname
  exact List.mem_cons.2 (hname.imp_left Eq.symm)

namespace Follows

variable (h : r.Follows o p)

include h

theorem steady {slot : Slot δ} (hslot : slot ∈ r.slots) (n : Nat) (d : δ) :
    Steady (slot.read n d) := by
  obtain ⟨q, -, hcarried⟩ := (h.placed slot hslot).carried
  exact (hcarried n d).steady

theorem swaps {s₁ s₂ : Slot δ} (h₁ : s₁ ∈ r.slots) (h₂ : s₂ ∈ r.slots) : s₁.Swaps s₂ := by
  have : Std.Symm (@Slot.Swaps δ) := ⟨fun _ _ => Slot.Swaps.symm⟩
  have hswaps : r.slots.Pairwise Slot.Swaps :=
    h.apart.imp_of_mem fun h₁ h₂ hapart => hapart.swaps (h.steady h₁) (h.steady h₂)
  exact hswaps.forall_of_forall (fun slot hslot => (h.placed slot hslot).once) h₁ h₂

/-- Two members may be taken in either order. -/
theorem take?_swap (n : Nat) (d : δ) (m m' : Option String × Tree) :
    (r.take? n d m).bind (r.take? n · m') = (r.take? n d m').bind (r.take? n · m) := by
  obtain ⟨chars, t⟩ := m
  obtain ⟨chars', u⟩ := m'
  -- a name that spells nothing fails in any order, one that is not known changes nothing
  cases chars with
  | none => exact (Option.bind_fun_none _).symm
  | some name =>
    cases chars' with
    | none => exact Option.bind_fun_none _
    | some name' =>
      unfold take?
      simp only [Option.bind_some]
      cases hslot : r.slot? name with
      | none => exact (Option.bind_some ..).trans (Option.bind_fun_some _).symm
      | some slot =>
        cases hslot' : r.slot? name' with
        | none => exact (Option.bind_fun_some _).trans (Option.bind_some ..).symm
        | some slot' =>
          exact h.swaps (slot?_eq_some hslot).1 (slot?_eq_some hslot').1 n d t u

/-- Members of unknown names are passed. -/
theorem foldlM_extra (n : Nat) {extra : List (Option String × Tree)}
    (hextra : ∀ m ∈ extra, ∃ name, m.1 = some name ∧ o.member? p name = none) (d : δ) :
    extra.foldlM (r.take? n) d = some d := by
  induction extra with
  | nil => rfl
  | cons m extra ih =>
    obtain ⟨⟨name, hname, hunknown⟩, hextra⟩ := List.forall_mem_cons.1 hextra
    have hslot : r.slot? name = none := by
      refine Option.eq_none_iff_forall_ne_some.2 fun slot hslot => ?_
      obtain ⟨hmem, hname⟩ := slot?_eq_some hslot
      obtain ⟨q, hq, -⟩ := (h.placed slot hmem).carried
      exact nomatch hunknown.symm.trans (hq name hname)
    have htake : r.take? n d m = some d := by
      unfold take?
      rw [hname, Option.bind_some, hslot]
    rw [List.foldlM_cons, htake]
    exact ih hextra

/-- Members of known names are taken as the same if their values are alike. -/
theorem take?_pair {m : MemberPair} (hm : ∀ name q, m.name = some name → o.member? p name = some q →
      Alike o q m.left m.right) (hleft : m.left.Proper) (hright : m.right.Proper) (n : Nat)
    (d : δ) :
    r.take? n d m.onLeft = r.take? n d m.onRight := by
  unfold take? MemberPair.onLeft MemberPair.onRight
  cases hname : m.name with
  | none => rfl
  | some name =>
    simp only [Option.bind_some]
    cases hslot : r.slot? name with
    | none => rfl
    | some slot =>
      obtain ⟨hmem, hnamed⟩ := slot?_eq_some hslot
      obtain ⟨q, hq, hcarried⟩ := (h.placed slot hmem).carried
      have heq := (hcarried n d).eq (hm name q hname (hq name hnamed)) hleft hright
      show slot.take? n d m.left = slot.take? n d m.right
      unfold Slot.take?
      rw [heq]

/-- Objects that are alike are read as the same record. -/
theorem object_eq (n : Nat) {ms ns : List (Option String × Tree)}
    (halike : Alike o p (.object ms) (.object ns)) (ht : (Tree.object ms).Proper)
    (hu : (Tree.object ns).Proper) :
    Tree.record? r n (.object ms) = Tree.record? r n (.object ns) := by
  cases n with
  | zero => rfl
  | succ n =>
  -- what is known of an object is all that is taken of it
  have hknown : ∀ {ms known extra : List (Option String × Tree)}, ms.Perm (known ++ extra) →
      (∀ m ∈ extra, ∃ name, m.1 = some name ∧ o.member? p name = none) →
      ms.foldlM (r.take? n) r.empty = known.foldlM (r.take? n) r.empty := by
    intro ms known extra hms hextra
    rw [foldlM_eq_of_perm (h.take?_swap n) hms, List.foldlM_append]
    exact (congrArg _ (funext (h.foldlM_extra n hextra))).trans (Option.bind_fun_some _)
  cases halike with
  | same => rfl
  | object hms hns _ hextra hkept =>
    obtain ⟨hextra, hextra'⟩ := List.forall_mem_append.1 hextra
    refine congrArg (Option.bind · _) ?_
    rw [hknown hms hextra, hknown hns hextra', List.foldlM_map, List.foldlM_map]
    refine foldlM_congr (fun m hm d => ?_) r.empty
    have hleft := List.mem_map_of_mem (f := MemberPair.onLeft) hm
    have hright := List.mem_map_of_mem (f := MemberPair.onRight) hm
    exact h.take?_pair (hkept m hm) (ht.member (hms.mem_iff.2 (List.mem_append_left _ hleft)))
      (hu.member (hns.mem_iff.2 (List.mem_append_left _ hright))) n d

/-- Lists that are alike are read as the same record, if each element stands at the place of its
field. -/
theorem carried (hitems : ∀ s ∈ r.slots.zipIdx, o.member? p s.1.name = some (o.item p s.2))
    (n : Nat) : Carried o p (r.read n) := by
  refine .of_denotes (denotes_read (fun slot hslot => h.steady hslot) n) fun t u htu ht hu => ?_
  cases htu with
  | same t => rfl
  | object hms hns hordered extra kept =>
    exact h.object_eq n (.object hms hns hordered extra kept) ht hu
  | array hpairs =>
    cases n with
    | zero => rfl
    | succ n =>
      refine congrArg (Option.bind · _) (Slot.fill?_eq fun i slot pair hslot hpair d => ?_)
      obtain ⟨q, hq, hcarried⟩ := (h.placed slot (List.mem_of_getElem? hslot)).carried
      have hitem := hitems (slot, i) (List.mem_zipIdx_iff_getElem?.2 hslot)
      obtain rfl := Option.some.inj ((hq slot.name (List.mem_cons_self ..)).symm.trans hitem)
      have hmem := List.mem_of_getElem? hpair
      exact (hcarried n d).eq (hpairs i pair hpair) (ht.item (List.mem_map_of_mem hmem))
        (hu.item (List.mem_map_of_mem hmem))

end Follows

end Record

end OrmDdl.Json
