import OrmDdl.Proofs.Json.RearrangedRecords
/-!
# What a field holds

A record that is read of a tree holds in each field what stands in the tree under the name of the
field, or at its place in a list (`Record.Keeps.get_eq`): the field keeps what is read of it, and no
other field touches it.
-/

namespace OrmDdl.Json

open Reader

variable {α β γ δ : Type}

namespace Tree

/-- What stands under a name, or at a place in a list. -/
def at? (name : String) (i : Nat) : Tree → Option Tree
  | object members => members.lookup (some name)
  | array items => items[i]?
  | _ => none

/-- The names of the members, in the order of the text. -/
def names : Tree → List String
  | object members => members.filterMap Prod.fst
  | _ => []

/-- The names of the members of what stands under a name, or at a place in a list. -/
def namesAt (name : String) (i : Nat) (t : Tree) : List String := ((t.at? name i).map names).getD []

theorem Proper.of_at? {t u : Tree} (h : t.Proper) {name : String} {i : Nat}
    (hu : t.at? name i = some u) : u.Proper := by
  cases t with
  | null | bool | number | string => cases hu
  | array items => exact h.item (List.mem_of_getElem? hu)
  | object members =>
    obtain ⟨l₁, l₂, hmembers, -⟩ := List.lookup_eq_some_iff.1 hu
    have hmem : (some name, u) ∈ members :=
      hmembers ▸ List.mem_append_right _ (List.mem_cons_self ..)
    exact h.member hmem

end Tree

namespace Slot

/-- What is read of the field is kept in it. -/
def Sets (slot : Slot δ) (get : δ → Option β) (read : Nat → Reader β) : Prop :=
  ∀ n d t d', (slot.read n d).ofTree? t = some d' →
    ∃ x, (read n).ofTree? t = some x ∧ get d' = some x

/-- Reading the field leaves another as it was. -/
def Leaves (slot : Slot δ) (get : δ → Option β) : Prop :=
  ∀ n d t d', (slot.read n d).ofTree? t = some d' → get d' = get d

section

variable {name : String} {required : Bool} {others : List String} {get : δ → Option β}
  {get' : δ → Option γ} {set : δ → β → δ} {read : Nat → Reader β} (hread : ∀ n, Steady (read n))

include hread

theorem exists_of_read {n : Nat} {d d' : δ} {t : Tree}
    (h : ((Slot.of name required get set read others).read n d).ofTree? t = some d') :
    ∃ x, (read n).ofTree? t = some x ∧ set d x = d' := by
  rw [read_of, ofTree?_map (hread n)] at h
  exact Option.map_eq_some_iff.1 h

theorem sets_of (hset : ∀ d x, get (set d x) = some x) :
    (Slot.of name required get set read others).Sets get read := by
  intro n d t d' h
  obtain ⟨x, hx, rfl⟩ := exists_of_read hread h
  exact ⟨x, hx, hset d x⟩

theorem leaves_of (hset : ∀ d x, get' (set d x) = get' d) :
    (Slot.of name required get set read others).Leaves get' := by
  intro n d t d' h
  obtain ⟨x, -, rfl⟩ := exists_of_read hread h
  exact hset d x

end

theorem read_of_take? {slot : Slot δ} {n : Nat} {d d' : δ} {t : Tree}
    (h : slot.take? n d t = some d') : (slot.read n d).ofTree? t = some d' := by
  unfold take? at h
  split at h
  · cases h
  · exact h

end Slot

/-- The field of a name, which is the `i`-th, keeps what is read of it; all others leave it. -/
structure Record.Keeps (r : Record δ α) (name : String) (i : Nat) (get : δ → Option β)
    (read : Nat → Reader β) : Prop where
  slot : ∃ slot, r.slots[i]? = some slot ∧ slot.name = name ∧ slot.others = [] ∧ slot.Sets get read
  others : ∀ (j : Nat) (slot : Slot δ), r.slots[j]? = some slot → j ≠ i →
    name ∉ slot.name :: slot.others ∧ slot.Leaves get

namespace Record.Keeps

variable {r : Record δ α} {name : String} {i n : Nat} {get : δ → Option β} {read : Nat → Reader β}
  (h : r.Keeps name i get read)

include h

/-! ## Objects -/

/-- A member of another name leaves the field. -/
theorem get_take?_of_ne {m : Option String × Tree} (hm : m.1 ≠ some name) {d d' : δ}
    (htake : r.take? n d m = some d') : get d' = get d := by
  obtain ⟨own, hown, hname, hothers, -⟩ := h.slot
  unfold take? at htake
  obtain ⟨given, hgiven, htake⟩ := Option.bind_eq_some_iff.1 htake
  cases hslot : r.slot? given with
  | none =>
    simp only [hslot] at htake
    rw [Option.some.inj htake]
  | some slot =>
    simp only [hslot] at htake
    obtain ⟨hmem, hnamed⟩ := slot?_eq_some hslot
    obtain ⟨j, hj⟩ := List.mem_iff_getElem?.1 hmem
    have hji : j ≠ i := by
      rintro rfl
      obtain rfl := Option.some.inj (hown.symm.trans hj)
      rw [hothers, hname, List.mem_singleton] at hnamed
      exact hm (hnamed ▸ hgiven)
    exact (h.others j slot hj hji).2 n d m.2 d' (Slot.read_of_take? htake)

/-- The member of the name is read into the field. -/
theorem exists_take? {m : Option String × Tree} (hm : m.1 = some name) {d d' : δ}
    (htake : r.take? n d m = some d') : ∃ x, (read n).ofTree? m.2 = some x ∧ get d' = some x := by
  obtain ⟨own, hown, hname, -, hsets⟩ := h.slot
  unfold take? at htake
  rw [hm, Option.bind_some] at htake
  cases hslot : r.slot? name with
  | none =>
    have hfound := List.find?_eq_none.1 hslot own (List.mem_of_getElem? hown)
    rw [hname, beq_self_eq_true, Bool.true_or] at hfound
    exact absurd rfl hfound
  | some slot =>
    simp only [hslot] at htake
    obtain ⟨hmem, hnamed⟩ := slot?_eq_some hslot
    obtain ⟨j, hj⟩ := List.mem_iff_getElem?.1 hmem
    have hji : j = i := by
      refine Classical.byContradiction fun hji => ?_
      exact (h.others j slot hj hji).1 hnamed
    obtain rfl := Option.some.inj (hown.symm.trans (hji ▸ hj))
    exact hsets n d m.2 d' (Slot.read_of_take? htake)

/-- Members of other names leave the field. -/
theorem get_foldlM_of_ne {members : List (Option String × Tree)}
    (hnames : ∀ m ∈ members, m.1 ≠ some name) : ∀ {d d' : δ},
      members.foldlM (r.take? n) d = some d' → get d' = get d := by
  induction members with
  | nil =>
    rintro d d' ⟨⟩
    rfl
  | cons m members ih =>
    intro d d' hfold
    obtain ⟨hm, hnames⟩ := List.forall_mem_cons.1 hnames
    rw [List.foldlM_cons] at hfold
    obtain ⟨d₁, htake, hfold⟩ := Option.bind_eq_some_iff.1 hfold
    rw [ih hnames hfold, h.get_take?_of_ne hm htake]

/-- Of members of distinct names the one of the name is read into the field. -/
theorem get_foldlM {members : List (Option String × Tree)}
    (hnames : (members.filterMap Prod.fst).Nodup) : ∀ {d d' : δ}, get d = none →
      members.foldlM (r.take? n) d = some d' →
      (members.lookup (some name)).map (read n).ofTree? = (get d').map some := by
  induction members with
  | nil =>
    rintro d d' hd ⟨⟩
    rw [hd]
    rfl
  | cons m members ih =>
    intro d d' hd hfold
    rw [List.foldlM_cons] at hfold
    obtain ⟨d₁, htake, hfold⟩ := Option.bind_eq_some_iff.1 hfold
    rw [List.lookup_cons]
    by_cases hm : m.1 = some name
    · -- no other member has the name
      rw [List.filterMap_cons_some hm, List.nodup_cons] at hnames
      have hothers : ∀ m ∈ members, m.1 ≠ some name := fun m' hm' hname =>
        hnames.1 (List.mem_filterMap.2 ⟨m', hm', hname⟩)
      obtain ⟨x, hx, hget⟩ := h.exists_take? hm htake
      rw [hm, beq_self_eq_true, h.get_foldlM_of_ne hothers hfold, hget]
      show some ((read n).ofTree? m.2) = some (some x)
      rw [hx]
    · have hsub := (List.sublist_cons_self m members).filterMap Prod.fst
      rw [beq_eq_false_iff_ne.2 (Ne.symm hm)]
      exact ih (hsub.nodup hnames) ((h.get_take?_of_ne hm htake).trans hd) hfold

omit h

/-! ## Lists -/

/-- Other fields leave the field. -/
theorem get_fill?_of_leaves {slots : List (Slot δ)} (hslots : ∀ slot ∈ slots, slot.Leaves get) :
    ∀ {items : List Tree} {d d' : δ}, Slot.fill? n slots items d = some d' → get d' = get d := by
  induction slots with
  | nil =>
    intro items d d' hfill
    cases items with
    | nil =>
      cases hfill
      rfl
    | cons t items => cases hfill
  | cons slot slots ih =>
    intro items d d' hfill
    obtain ⟨hslot, hslots⟩ := List.forall_mem_cons.1 hslots
    cases items with
    | nil =>
      unfold Slot.fill? at hfill
      split at hfill
      · cases hfill
      · exact ih hslots hfill
    | cons t items =>
      obtain ⟨d₁, hread, hfill⟩ := Option.bind_eq_some_iff.1 hfill
      rw [ih hslots hfill, hslot n d t d₁ hread]

/-- The element at the place of the field is read into it. -/
theorem get_fill? {slots : List (Slot δ)} : ∀ {i : Nat} {own : Slot δ}, slots[i]? = some own →
    own.Sets get read →
    (∀ (j : Nat) (slot : Slot δ), slots[j]? = some slot → j ≠ i → slot.Leaves get) →
    ∀ {items : List Tree} {d d' : δ}, get d = none → Slot.fill? n slots items d = some d' →
      items[i]?.map (read n).ofTree? = (get d').map some := by
  induction slots with
  | nil => exact fun hown => nomatch hown
  | cons slot slots ih =>
    intro i own hown hsets hleaves items d d' hd hfill
    cases i with
    | zero =>
      obtain rfl := Option.some.inj (List.getElem?_cons_zero.symm.trans hown)
      have hothers : ∀ slot ∈ slots, slot.Leaves get := by
        intro slot hslot
        obtain ⟨j, hj⟩ := List.mem_iff_getElem?.1 hslot
        exact hleaves (j + 1) slot hj (Nat.succ_ne_zero j)
      cases items with
      | nil =>
        unfold Slot.fill? at hfill
        split at hfill
        · cases hfill
        · rw [get_fill?_of_leaves hothers hfill, hd]
          rfl
      | cons t items =>
        obtain ⟨d₁, hread, hfill⟩ := Option.bind_eq_some_iff.1 hfill
        obtain ⟨x, hx, hget⟩ := hsets n d t d₁ hread
        rw [get_fill?_of_leaves hothers hfill, hget]
        show some ((read n).ofTree? t) = some (some x)
        rw [hx]
    | succ i =>
      have hleave := hleaves 0 slot List.getElem?_cons_zero (Nat.succ_ne_zero i).symm
      have hleaves : ∀ (j : Nat) (slot : Slot δ), slots[j]? = some slot → j ≠ i → slot.Leaves get :=
        fun j slot hj hji => hleaves (j + 1) slot hj fun heq => hji (Nat.succ.inj heq)
      cases items with
      | nil =>
        unfold Slot.fill? at hfill
        split at hfill
        · cases hfill
        · exact ih hown hsets hleaves hd hfill
      | cons t items =>
        obtain ⟨d₁, hread, hfill⟩ := Option.bind_eq_some_iff.1 hfill
        exact ih hown hsets hleaves ((hleave n d t d₁ hread).trans hd) hfill

/-! ## Records -/

include h in
/-- A record that is read holds in the field what stands under its name. -/
theorem get_eq (hempty : get r.empty = none) {t : Tree} (ht : t.Proper) {a : α}
    (hrecord : Tree.record? r (n + 1) t = some a) : ∃ d, r.finish d = .ok a ∧
      (t.at? name i).map (read n).ofTree? = (get d).map some := by
  have hfinish : ∀ d, (r.finish d).toOption = some a → r.finish d = .ok a := by
    intro d hd
    cases hfin : r.finish d with
    | error cause =>
      rw [hfin] at hd
      cases hd
    | ok b =>
      rw [hfin] at hd
      rw [Option.some.inj hd]
  cases t with
  | null | bool | number | string => cases hrecord
  | object members =>
    obtain ⟨d, hfold, hd⟩ := Option.bind_eq_some_iff.1 hrecord
    exact ⟨d, hfinish d hd, h.get_foldlM ht.names_nodup hempty hfold⟩
  | array items =>
    obtain ⟨d, hfill, hd⟩ := Option.bind_eq_some_iff.1 hrecord
    obtain ⟨own, hown, -, -, hsets⟩ := h.slot
    exact ⟨d, hfinish d hd,
      get_fill? hown hsets (fun j slot hj hji => (h.others j slot hj hji).2) hempty hfill⟩

end Record.Keeps

/-! ## Names -/

/-- Entries of distinct names make a map of these names in order. -/
theorem names_ofList {entries : List (String × α)} (h : (entries.map Prod.fst).Nodup) :
    (NameMap.ofList entries).names = entries.map Prod.fst :=
  congrArg (List.map Prod.fst) (NameMap.entries_foldl_insert entries ∅ h)

/-- A map that is read has the names of the object in order. -/
theorem names_of_read {read : Nat → Reader α} (hread : ∀ n, Steady (read n)) {n : Nat} {t : Tree}
    (ht : t.Proper) {m : NameMap α} (h : (NameMap.read read n).ofTree? t = some m) :
    m.names = t.names := by
  have hnamed := denotes_named hread n
  unfold NameMap.read at h
  rw [ofTree?_map hnamed.steady, hnamed.ofTree?_eq ht.written] at h
  obtain ⟨entries, hentries, rfl⟩ := Option.map_eq_some_iff.1 h
  cases n with
  | zero => cases t <;> cases hentries
  | succ n =>
    cases t with
    | null | bool | number | string | array => cases hentries
    | object members =>
      have hnames := names_of_mapM hentries
      exact (names_ofList (hnames ▸ ht.names_nodup)).trans hnames

/-- A map that a record holds has the names of its object in order. -/
theorem names_of_at? {read : Nat → Reader α} (hread : ∀ n, Steady (read n)) {n : Nat} {t : Tree}
    (ht : t.Proper) {name : String} {i : Nat} {m : Option (NameMap α)}
    (h : (t.at? name i).map (NameMap.read read n).ofTree? = m.map some) :
    (m.getD ∅).names = t.namesAt name i := by
  unfold Tree.namesAt
  cases hu : t.at? name i with
  | none =>
    rw [hu] at h
    rw [Option.map_eq_none_iff.1 h.symm]
    rfl
  | some u =>
    rw [hu] at h
    obtain ⟨m, rfl, hm⟩ := Option.map_eq_some_iff.1 h.symm
    exact names_of_read hread (ht.of_at? hu) hm.symm

end OrmDdl.Json
