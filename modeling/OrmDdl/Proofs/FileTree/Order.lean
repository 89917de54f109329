import Mathlib.Tactic.SplitIfs
import OrmDdl.Proofs.FileTree.Writing
/-!
# Nodes in the order of their locations

`FileNode.mem_nodes_iff` and `FileNode.pairwise_nodes`: the list of all nodes of a tree holds what
lies at every location, each once, in the order of locations. Locations are compared name by name
and names by their bytes, so a folder is walked at its own place, whatever names stand beside it.
-/

namespace OrmDdl

/-! ## Names by their bytes -/

/-- The bytes of a name. -/
def nameBytes (name : String) : List UInt8 := name.toByteArray.data.toList

theorem nameBytes_eq (name : String) :
    nameBytes name = name.toList.flatMap String.utf8EncodeChar := by
  unfold nameBytes
  rw [← String.utf8Encode_toList]
  unfold List.utf8Encode
  rw [List.data_toByteArray]

theorem ofNat_lt_ofNat {m n : Nat} (hm : m < 256) (hn : n < 256) :
    UInt8.ofNat m < UInt8.ofNat n ↔ m < n := by
  rw [UInt8.lt_iff_toNat_lt, UInt8.toNat_ofNat', UInt8.toNat_ofNat', Nat.mod_eq_of_lt hm,
    Nat.mod_eq_of_lt hn]

theorem ofNat_eq_ofNat {m n : Nat} (hm : m < 256) (hn : n < 256) :
    UInt8.ofNat m = UInt8.ofNat n ↔ m = n := by
  rw [← UInt8.toNat_inj, UInt8.toNat_ofNat', UInt8.toNat_ofNat', Nat.mod_eq_of_lt hm,
    Nat.mod_eq_of_lt hn]

/-- A lesser character has lesser bytes, whatever follows. -/
theorem utf8EncodeChar_append_lt {c d : Char} (h : c < d) (r s : List UInt8) :
    String.utf8EncodeChar c ++ r < String.utf8EncodeChar d ++ s := by
  have hlt : c.val.toNat < d.val.toNat := h
  have hd : d.val.toNat < 1114112 := by
    rcases d.valid with h | h
    · exact Nat.lt_trans h (by decide)
    · exact h.2
  unfold String.utf8EncodeChar
  dsimp only
  generalize c.val.toNat = v at *
  generalize d.val.toNat = w at *
  have hv : v / 262144 % 8 = v / 262144 := Nat.mod_eq_of_lt (by omega)
  have hw : w / 262144 % 8 = w / 262144 := Nat.mod_eq_of_lt (by omega)
  -- one case for every pair of lengths: the first bytes tell lengths apart, and bytes of the same
  -- length are digits to the base 64
  split_ifs
  all_goals
    simp (disch := omega) only [List.cons_append, List.nil_append, List.cons_lt_cons_iff,
      ofNat_lt_ofNat, ofNat_eq_ofNat, hv, hw]
    omega

/-- The order of names by their characters is the one by their bytes. -/
theorem nameBytes_lt {a b : String} (h : a < b) : nameBytes a < nameBytes b := by
  rw [nameBytes_eq, nameBytes_eq]
  rw [String.lt_iff] at h
  generalize a.toList = l at h ⊢
  generalize b.toList = m at h ⊢
  induction h with
  | nil =>
    rw [List.flatMap_cons, List.flatMap_nil]
    cases hc : String.utf8EncodeChar _ with
    | nil => exact absurd hc String.utf8EncodeChar_ne_nil
    | cons x r => exact .nil
  | rel hlt => exact utf8EncodeChar_append_lt hlt _ _
  | cons _ ih =>
    rw [List.flatMap_cons, List.flatMap_cons]
    exact List.append_left_lt ih

namespace FileNode

/-! ## Locations -/

/-- The order of locations: name by name, names by their bytes. -/
def Precedes : List String → List String → Prop := List.Lex fun a b => nameBytes a < nameBytes b

theorem Precedes.asymm {l m : List String} (h : Precedes l m) : ¬Precedes m l := by
  induction h with
  | nil => rintro ⟨⟩
  | rel hlt =>
    intro h
    cases h with
    | rel hgt => exact List.lt_irrefl _ (List.lt_trans hlt hgt)
    | cons _ => exact List.lt_irrefl _ hlt
  | cons _ ih =>
    intro h
    cases h with
    | rel hlt => exact List.lt_irrefl _ hlt
    | cons h => exact ih h

/-- A list is determined by what it holds, if it is in the order of locations. -/
theorem eq_of_precedes {α : Type} {l m : List (List String × α)}
    (hl : l.Pairwise fun a b => Precedes a.1 b.1) (hm : m.Pairwise fun a b => Precedes a.1 b.1)
    (h : ∀ x, x ∈ l ↔ x ∈ m) : l = m := by
  have hnodup : ∀ {l : List (List String × α)}, l.Pairwise (fun a b => Precedes a.1 b.1) →
      l.Nodup := by
    intro l hl
    refine hl.imp fun hab heq => ?_
    rw [heq] at hab
    exact hab.asymm hab
  have hperm : l.Perm m := (List.perm_ext_iff_of_nodup (hnodup hl) (hnodup hm)).2 h
  exact hperm.eq_of_pairwise (fun a b _ _ hab hba => absurd hba hab.asymm) hl hm

/-! ## Nodes -/

/-- In no folder two entries have the same name. -/
inductive Tidy : FileNode → Prop
  | file (text : Option String) : Tidy (file text)
  | lockedFile (fault : FileFault) : Tidy (lockedFile fault)
  | lockedFolder (fault : FileFault) : Tidy (lockedFolder fault)
  | folder {entries : List (String × FileNode)} (distinct : (entries.map Prod.fst).Nodup)
      (below : ∀ e ∈ entries, Tidy e.2) : Tidy (folder entries)

/-- The nodes of an entry, by location from its folder. -/
def entryNodes (e : String × FileNode) : String × List (List String × FileNode) :=
  (e.1, e.2.nodes.map fun p => (e.1 :: p.1, p.2))

theorem nodesOfEntries_eq (entries : List (String × FileNode)) :
    nodesOfEntries entries = entries.map entryNodes := by
  induction entries with
  | nil => rfl
  | cons e r ih =>
    rw [nodesOfEntries, ih]
    rfl

theorem nodes_folder (entries : List (String × FileNode)) : (folder entries).nodes =
    ([], folder entries) :: inOrder (entries.map entryNodes) := by
  rw [nodes, nodesOfEntries_eq]

theorem mem_inOrder {α : Type} {named : List (String × List α)} {x : α} :
    x ∈ inOrder named ↔ ∃ e ∈ named, x ∈ e.2 := by
  unfold inOrder
  simp only [List.mem_flatMap, List.mem_mergeSort]

/-- Lists below distinct names are in order as a whole if each is, and if the order of names orders
what lies below them. -/
theorem pairwise_inOrder {α : Type} {R : α → α → Prop} {named : List (String × List α)}
    (hnames : (named.map Prod.fst).Nodup) (heach : ∀ e ∈ named, e.2.Pairwise R)
    (hacross : ∀ d ∈ named, ∀ e ∈ named, d.1 < e.1 → ∀ x ∈ d.2, ∀ y ∈ e.2, R x y) :
    (inOrder named).Pairwise R := by
  unfold inOrder
  have hperm := List.mergeSort_perm named fun a b => decide (a.1 ≤ b.1)
  have hle : (named.mergeSort fun a b => decide (a.1 ≤ b.1)).Pairwise
      fun a b => decide (a.1 ≤ b.1) = true := by
    refine List.pairwise_mergeSort (fun a b c hab hbc => ?_) (fun a b => ?_) named
    · rw [decide_eq_true_eq] at hab hbc ⊢
      exact String.le_trans hab hbc
    · rw [Bool.or_eq_true, decide_eq_true_eq, decide_eq_true_eq]
      exact String.le_total a.1 b.1
  have hne : (named.mergeSort fun a b => decide (a.1 ≤ b.1)).Pairwise fun a b => a.1 ≠ b.1 :=
    List.pairwise_map.1 ((hperm.map Prod.fst).nodup_iff.2 hnames)
  rw [List.pairwise_flatMap]
  refine ⟨fun e he => heach e (List.mem_mergeSort.1 he), ?_⟩
  refine (hle.and hne).imp_of_mem ?_
  intro d e hd he ⟨hle, hne⟩
  rw [decide_eq_true_eq] at hle
  exact hacross d (List.mem_mergeSort.1 hd) e (List.mem_mergeSort.1 he)
    (Std.lt_of_le_of_ne hle hne)

theorem mem_below_iff {entries : List (String × FileNode)} {l : List String} {n : FileNode} :
    (l, n) ∈ inOrder (entries.map entryNodes) ↔ ∃ name rest child,
      l = name :: rest ∧ (name, child) ∈ entries ∧ (rest, n) ∈ child.nodes := by
  rw [mem_inOrder]
  constructor
  · rintro ⟨e, he, hmem⟩
    obtain ⟨⟨name, child⟩, hchild, rfl⟩ := List.mem_map.1 he
    obtain ⟨⟨rest, m⟩, hbelow, heq⟩ := List.mem_map.1 hmem
    cases heq
    exact ⟨name, rest, child, rfl, hchild, hbelow⟩
  · rintro ⟨name, rest, child, rfl, hchild, hbelow⟩
    exact ⟨_, List.mem_map_of_mem hchild, List.mem_map.2 ⟨_, hbelow, rfl⟩⟩

theorem map_fst_entryNodes (entries : List (String × FileNode)) :
    (entries.map entryNodes).map Prod.fst = entries.map Prod.fst := by
  rw [List.map_map]
  rfl

/-- The list of nodes holds what lies at every location. -/
theorem mem_nodes_iff {node : FileNode} (h : node.Tidy) : ∀ {l : List String} {n : FileNode},
    (l, n) ∈ node.nodes ↔ node.at? l = some n := by
  induction h with
  | file | lockedFile | lockedFolder =>
    intro l n
    cases l with
    | nil => simp [nodes, at?, eq_comm]
    | cons name rest => simp [nodes, at?]
  | @folder entries distinct _ ih =>
    intro l n
    rw [nodes_folder, List.mem_cons, mem_below_iff]
    cases l with
    | nil => simp [at?, eq_comm]
    | cons name rest =>
      rw [at?_cons]
      constructor
      · rintro (hself | ⟨name, rest, child, heq, hchild, hbelow⟩)
        · cases hself
        cases heq
        rw [(Named.lookup_eq_some_iff_mem distinct).2 hchild]
        exact (ih (name, child) hchild).1 hbelow
      · intro hat
        obtain ⟨child, hchild, hbelow⟩ := Option.bind_eq_some_iff.1 hat
        have hmem := (Named.lookup_eq_some_iff_mem distinct).1 hchild
        exact .inr ⟨name, rest, child, rfl, hmem, (ih (name, child) hmem).2 hbelow⟩

/-- The list of nodes is in the order of locations. -/
theorem pairwise_nodes {node : FileNode} (h : node.Tidy) :
    node.nodes.Pairwise fun a b => Precedes a.1 b.1 := by
  induction h with
  | file | lockedFile | lockedFolder => rw [nodes]; exact List.pairwise_singleton _ _
  | @folder entries distinct _ ih =>
    rw [nodes_folder, List.pairwise_cons]
    constructor
    · intro p hp
      obtain ⟨e, he, hp⟩ := mem_inOrder.1 hp
      obtain ⟨e, -, rfl⟩ := List.mem_map.1 he
      obtain ⟨q, -, rfl⟩ := List.mem_map.1 hp
      exact .nil
    · refine pairwise_inOrder ?_ ?_ ?_
      · rw [map_fst_entryNodes]
        exact distinct
      · intro d hd
        obtain ⟨e, he, rfl⟩ := List.mem_map.1 hd
        exact List.pairwise_map.2 ((ih e he).imp fun h => .cons h)
      · intro d hd e he hlt x hx y hy
        obtain ⟨d, -, rfl⟩ := List.mem_map.1 hd
        obtain ⟨e, -, rfl⟩ := List.mem_map.1 he
        obtain ⟨p, -, rfl⟩ := List.mem_map.1 hx
        obtain ⟨q, -, rfl⟩ := List.mem_map.1 hy
        exact .rel (nameBytes_lt hlt)

end FileNode

end OrmDdl
