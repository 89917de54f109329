import OrmDdl.Proofs.Json.Normal
import OrmDdl.Proofs.Json.OfRecord
import OrmDdl.Proofs.NameMap
/-!
# Trees with their members rearranged

An `Outline` says where the order of members counts in a document and which names are known there.
Trees are `Alike` if they differ in nothing but the order of members where it does not count, and in
members of names that are not known. A reader is `Carried` if it makes the same of trees that are
alike. Readers for values of a known form are carried if those for their parts are.
-/

namespace OrmDdl.Json

open Reader

variable {α β π : Type}

/-- The places of a document: those of elements, those of members, by their names, as far as these
are known, and whether the order of members counts. -/
structure Outline (π : Type) where
  item : π → Nat → π
  member? : π → String → Option π
  ordered : π → Bool

/-- Members of the same name in two objects. -/
structure MemberPair where
  name : Option String
  left : Tree
  right : Tree

def MemberPair.onLeft (m : MemberPair) : Option String × Tree := (m.name, m.left)

def MemberPair.onRight (m : MemberPair) : Option String × Tree := (m.name, m.right)

/-- The trees are the same but for the order of members and for members of unknown names. -/
inductive Alike (o : Outline π) : π → Tree → Tree → Prop
  | same {p : π} (t : Tree) : Alike o p t t
  | array {p : π} {pairs : List (Tree × Tree)}
      (h : ∀ i pair, pairs[i]? = some pair → Alike o (o.item p i) pair.1 pair.2) :
      Alike o p (.array (pairs.map Prod.fst)) (.array (pairs.map Prod.snd))
  | object {p : π} {ms ns extra extra' : List (Option String × Tree)} {kept : List MemberPair}
      (hms : ms.Perm (kept.map MemberPair.onLeft ++ extra))
      (hns : ns.Perm (kept.map MemberPair.onRight ++ extra'))
      (hordered : o.ordered p = true →
        ms = kept.map MemberPair.onLeft ∧ ns = kept.map MemberPair.onRight)
      (hextra : ∀ m ∈ extra ++ extra', ∃ name, m.1 = some name ∧ o.member? p name = none)
      (h : ∀ m ∈ kept, ∀ name q, m.name = some name → o.member? p name = some q →
        Alike o q m.left m.right) :
      Alike o p (.object ms) (.object ns)

/-- No object of the tree has two members of one name. -/
inductive Tree.Unrepeated : Tree → Prop
  | null : Unrepeated .null
  | bool (b : Bool) : Unrepeated (.bool b)
  | number (value : Option Number) : Unrepeated (.number value)
  | string (chars : Option String) : Unrepeated (.string chars)
  | array {items : List Tree} (h : ∀ t ∈ items, Unrepeated t) : Unrepeated (.array items)
  | object {members : List (Option String × Tree)} (hnames : (members.filterMap Prod.fst).Nodup)
      (h : ∀ m ∈ members, Unrepeated m.2) : Unrepeated (.object members)

/-- What a text denotes that names no member twice. -/
structure Tree.Proper (t : Tree) : Prop where
  written : t.Written
  unrepeated : t.Unrepeated

theorem Tree.Written.item {items : List Tree} (h : (Tree.array items).Written) {t : Tree}
    (ht : t ∈ items) : t.Written := by
  obtain ⟨text, htext⟩ := h
  generalize harray : Tree.array items = a at htext
  cases htext with
  | array _ h =>
    cases harray
    obtain ⟨e, he, rfl⟩ := List.mem_map.1 ht
    exact ⟨_, h e he⟩
  | _ => cases harray

namespace Tree.Proper

theorem item {items : List Tree} (h : (Tree.array items).Proper) {t : Tree} (ht : t ∈ items) :
    t.Proper := by
  obtain ⟨hwritten, hunrepeated⟩ := h
  refine ⟨hwritten.item ht, ?_⟩
  cases hunrepeated with
  | array h => exact h t ht

theorem member {members : List (Option String × Tree)} (h : (Tree.object members).Proper)
    {m : Option String × Tree} (hm : m ∈ members) : m.2.Proper := by
  obtain ⟨⟨text, htext⟩, hunrepeated⟩ := h
  refine ⟨?_, ?_⟩
  · generalize hobject : Tree.object members = a at htext
    cases htext with
    | object _ _ h =>
      cases hobject
      obtain ⟨e, he, rfl⟩ := List.mem_map.1 hm
      exact ⟨_, h e he⟩
    | _ => cases hobject
  · cases hunrepeated with
    | object _ h => exact h m hm

theorem names_nodup {members : List (Option String × Tree)} (h : (Tree.object members).Proper) :
    (members.filterMap Prod.fst).Nodup := by
  cases h.unrepeated with
  | object hnames _ => exact hnames

end Tree.Proper

/-- The reader makes the same of trees that are alike. -/
structure Carried (o : Outline π) (p : π) (r : Reader α) : Prop where
  steady : Steady r
  eq : ∀ {t u}, Alike o p t u → t.Proper → u.Proper → r.ofTree? t = r.ofTree? u

namespace Carried

variable {o : Outline π} {p : π} {r : Reader α}

theorem of_denotes {f : Tree → Option α} (hr : Denotes r f)
    (hf : ∀ t u, Alike o p t u → t.Proper → u.Proper → f t = f u) : Carried o p r where
  steady := hr.steady
  eq h ht hu := by
    rw [hr.ofTree?_eq ht.written, hr.ofTree?_eq hu.written]
    exact hf _ _ h ht hu

theorem map (h : Carried o p r) (f : α → β) : Carried o p (f <$> r) :=
  of_denotes (h.steady.map f) fun _ _ htu ht hu => congrArg _ (h.eq htu ht hu)

/-- A reader of scalars makes nothing of lists and objects. -/
theorem of_scalar {f : Tree → Option α} (hr : Denotes r f)
    (harray : ∀ items, f (.array items) = none)
    (hobject : ∀ members, f (.object members) = none) : Carried o p r := by
  refine .of_denotes hr fun t u h _ _ => ?_
  cases h with
  | same t => rfl
  | array => rw [harray, harray]
  | object => rw [hobject, hobject]

theorem text : Carried o p Reader.text := of_scalar denotes_text (fun _ => rfl) fun _ => rfl

theorem double : Carried o p Reader.double := of_scalar denotes_double (fun _ => rfl) fun _ => rfl

theorem natural32 : Carried o p Reader.natural32 :=
  of_scalar denotes_natural32 (fun _ => rfl) fun _ => rfl

theorem optional (h : Carried o p r) : Carried o p (Reader.optional r) := by
  refine .of_denotes (denotes_optional h.steady) fun t u htu ht hu => ?_
  have heq := congrArg (Option.map some) (h.eq htu ht hu)
  cases htu with
  | same t => rfl
  | array => exact heq
  | object => exact heq

end Carried

/-! ## Lists and objects of any names -/

theorem mapM_congr {ι : Type} {f g : ι → Option α} {xs : List ι} (h : ∀ x ∈ xs, f x = g x) :
    xs.mapM f = xs.mapM g := by
  induction xs with
  | nil => rfl
  | cons x xs ih =>
    obtain ⟨hx, hxs⟩ := List.forall_mem_cons.1 h
    rw [List.mapM_cons, List.mapM_cons, hx, ih hxs]

/-- Members of one name are the same if their values are. -/
theorem member?_eq {f : Tree → Option α} {m : MemberPair}
    (h : ∀ name, m.name = some name → f m.left = f m.right) :
    Tree.member? f m.onLeft = Tree.member? f m.onRight := by
  unfold Tree.member? MemberPair.onLeft MemberPair.onRight
  cases hname : m.name with
  | none => rfl
  | some name =>
    show (f m.left).map _ = (f m.right).map _
    rw [h name hname]

namespace Alike

variable {o : Outline π} {p q : π} {r : Reader α}

/-- The elements of two lists are alike one by one. -/
theorem mapM_items_eq {pairs : List (Tree × Tree)} (hr : Carried o q r)
    (hitem : ∀ i, o.item p i = q)
    (h : ∀ i pair, pairs[i]? = some pair → Alike o (o.item p i) pair.1 pair.2)
    (ht : (Tree.array (pairs.map Prod.fst)).Proper)
    (hu : (Tree.array (pairs.map Prod.snd)).Proper) :
    (pairs.map Prod.fst).mapM r.ofTree? = (pairs.map Prod.snd).mapM r.ofTree? := by
  rw [List.mapM_map, List.mapM_map]
  refine mapM_congr fun pair hpair => ?_
  obtain ⟨i, hi⟩ := List.mem_iff_getElem?.1 hpair
  exact hr.eq (hitem i ▸ h i pair hi) (ht.item (List.mem_map_of_mem hpair))
    (hu.item (List.mem_map_of_mem hpair))

end Alike

namespace Carried

variable {o : Outline π} {p q : π} {r : Nat → Reader α}

theorem list (hitem : ∀ i, o.item p i = q) (hr : ∀ n, Carried o q (r n)) (n : Nat) :
    Carried o p (Reader.list r n) := by
  refine .of_denotes (denotes_list (fun n => (hr n).steady) n) fun t u htu ht hu => ?_
  cases htu with
  | same t => rfl
  | array h =>
    cases n with
    | zero => rfl
    | succ n => exact Alike.mapM_items_eq (hr n) hitem h ht hu
  | object => cases n <;> rfl

/-- The members of an object of which the order counts are read as the same. -/
theorem named (hordered : o.ordered p = true) (hmember : ∀ name, o.member? p name = some q)
    (hr : ∀ n, Carried o q (r n)) (n : Nat) : Carried o p (Reader.named r n) := by
  refine .of_denotes (denotes_named (fun n => (hr n).steady) n) fun t u htu ht hu => ?_
  cases htu with
  | same t => rfl
  | array => cases n <;> rfl
  | object _ _ hsame _ h =>
    obtain ⟨rfl, rfl⟩ := hsame hordered
    cases n with
    | zero => rfl
    | succ n =>
      show List.mapM _ _ = List.mapM _ _
      rw [List.mapM_map, List.mapM_map]
      refine mapM_congr fun m hm => member?_eq fun name hname => ?_
      have hleft := ht.member (List.mem_map_of_mem (f := MemberPair.onLeft) hm)
      have hright := hu.member (List.mem_map_of_mem (f := MemberPair.onRight) hm)
      exact (hr n).eq (h m hm name q hname (hmember name)) hleft hright

theorem nameMap (hordered : o.ordered p = true) (hmember : ∀ name, o.member? p name = some q)
    (hr : ∀ n, Carried o q (r n)) (n : Nat) : Carried o p (NameMap.read r n) :=
  (named hordered hmember hr n).map _

end Carried

/-! ## Places where every name is known -/

/-- What stands in a value of any kind is a value of any kind. -/
structure Outline.Uniform (o : Outline π) (p : π) : Prop where
  item : ∀ i, o.item p i = p
  member : ∀ name, o.member? p name = some p

theorem Outline.Uniform.no_extra {o : Outline π} {p : π} (hp : o.Uniform p)
    {extra extra' : List (Option String × Tree)}
    (hextra : ∀ m ∈ extra ++ extra', ∃ name, m.1 = some name ∧ o.member? p name = none) :
    extra = [] ∧ extra' = [] := by
  rw [← List.append_eq_nil_iff]
  refine List.eq_nil_iff_forall_not_mem.2 fun m hm => ?_
  obtain ⟨name, -, hunknown⟩ := hextra m hm
  exact nomatch (hp.member name).symm.trans hunknown

theorem nameOfNull?_of_length {members : List (Option String × Tree)} (h : members.length ≠ 1) :
    Tree.nameOfNull? members = none := by
  unfold Tree.nameOfNull?
  split
  · exact absurd rfl h
  · rfl

namespace Carried

variable {o : Outline π} {p : π} (hp : o.Uniform p)

include hp

theorem variant (decode : String → Except Cause α) (n : Nat) :
    Carried o p (Reader.variant decode n) := by
  refine .of_denotes (denotes_variant decode n) fun t u htu _ _ => ?_
  cases htu with
  | same t => rfl
  | array => cases n <;> rfl
  | @object _ ms ns _ _ kept hms hns _ hextra h =>
    have hname : Tree.nameOfNull? ms = Tree.nameOfNull? ns := by
      obtain ⟨rfl, rfl⟩ := hp.no_extra hextra
      rw [List.append_nil] at hms hns
      by_cases hlength : kept.length = 1
      · -- members that stand alone have one order only
        obtain ⟨⟨chars, t, u⟩, rfl⟩ := List.length_eq_one_iff.1 hlength
        rw [List.perm_singleton.1 hms, List.perm_singleton.1 hns]
        cases chars with
        | none => cases t <;> cases u <;> rfl
        | some name =>
          cases h _ (List.mem_singleton_self _) name p rfl (hp.member name) with
          | same => rfl
          | array => rfl
          | object => rfl
      · rw [nameOfNull?_of_length (hms.length_eq ▸ by rwa [List.length_map]),
          nameOfNull?_of_length (hns.length_eq ▸ by rwa [List.length_map])]
    cases n with
    | zero => rfl
    | succ n => exact congrArg (Option.bind · _) hname

end Carried

/-! ## Sorting members of distinct names -/

theorem insertMember_perm {name : String} {value : Json} {ms : List (String × Json)}
    (h : name ∉ ms.map Prod.fst) : (insertMember name value ms).Perm ((name, value) :: ms) := by
  induction ms with
  | nil => exact .refl _
  | cons m ms ih =>
    rw [List.map_cons, List.mem_cons, not_or] at h
    simp only [insertMember]
    split
    · exact .refl _
    · rw [if_neg h.1]
      exact ((ih h.2).cons m).trans (.swap ..)

theorem foldl_insertMember_perm (ms : List (String × Json)) : ∀ sorted : List (String × Json),
    ((ms ++ sorted).map Prod.fst).Nodup →
      (ms.foldl (fun sorted m => insertMember m.1 m.2 sorted) sorted).Perm (ms ++ sorted) := by
  induction ms with
  | nil => exact fun sorted _ => .refl _
  | cons m ms ih =>
    intro sorted h
    rw [List.cons_append, List.map_cons, List.nodup_cons] at h
    have hm : m.1 ∉ sorted.map Prod.fst := fun hmem =>
      h.1 (List.map_append ▸ List.mem_append_right _ hmem)
    have hinsert : (ms ++ insertMember m.1 m.2 sorted).Perm (ms ++ m :: sorted) :=
      (insertMember_perm hm).append_left ms
    have hnodup : ((ms ++ insertMember m.1 m.2 sorted).map Prod.fst).Nodup :=
      ((hinsert.trans List.perm_middle).map Prod.fst).nodup_iff.2 (List.nodup_cons.2 h)
    exact (ih _ hnodup).trans (hinsert.trans List.perm_middle)

theorem sortMembers_perm {ms : List (String × Json)} (h : (ms.map Prod.fst).Nodup) :
    (sortMembers ms).Perm ms := by
  have hperm := foldl_insertMember_perm ms []
  rw [List.append_nil] at hperm
  exact hperm h

/-- Members of distinct names have one order when they are sorted. -/
theorem sortMembers_eq_of_perm {ms ns : List (String × Json)} (h : ms.Perm ns)
    (hnames : (ms.map Prod.fst).Nodup) : sortMembers ms = sortMembers ns := by
  have hns : (ns.map Prod.fst).Nodup := (h.map Prod.fst).nodup_iff.1 hnames
  have hsorted : ∀ ms, (sortMembers ms).Pairwise fun a b => a.1 < b.1 :=
    fun ms => List.pairwise_map.1 (sorted_sortMembers ms)
  refine List.Perm.eq_of_pairwise ?_ (hsorted ms) (hsorted ns)
    ((sortMembers_perm hnames).trans (h.trans (sortMembers_perm hns).symm))
  intro a b _ _ hab hba
  exact absurd (String.lt_trans hab hba) (String.lt_irrefl a.1)

/-! ## Values of any kind -/

/-- The value that a tree is, each name once and in order. -/
def Tree.normal? (n : Nat) (t : Tree) : Option Json := (t.value? n).map Json.normalize

theorem mapM_map {ι γ : Type} (f : ι → Option α) (g : α → γ) (xs : List ι) :
    xs.mapM (fun x => (f x).map g) = (xs.mapM f).map (List.map g) := by
  induction xs with
  | nil => rfl
  | cons x xs ih =>
    rw [List.mapM_cons, List.mapM_cons, ih]
    cases f x with
    | none => rfl
    | some a => cases xs.mapM f <;> rfl

theorem normalizeItems_eq_map (items : List Json) : normalizeItems items = items.map normalize := by
  induction items with
  | nil => rfl
  | cons j items ih => rw [normalizeItems, ih, List.map_cons]

theorem normalizeMembers_eq_map (members : List (String × Json)) :
    normalizeMembers members = members.map fun m => (m.1, m.2.normalize) := by
  induction members with
  | nil => rfl
  | cons m members ih =>
    obtain ⟨name, j⟩ := m
    rw [normalizeMembers, ih, List.map_cons]

theorem normal?_array (n : Nat) (items : List Tree) :
    (Tree.array items).normal? (n + 1) = (items.mapM (Tree.normal? n)).map .array := by
  have hitems := mapM_map (Tree.value? n) Json.normalize items
  show ((items.mapM (Tree.value? n)).map Json.array).map Json.normalize = _
  unfold Tree.normal?
  rw [hitems, Option.map_map, Option.map_map]
  refine congrArg (Option.map · _) (funext fun items => ?_)
  show Json.normalize (.array items) = .array (items.map Json.normalize)
  rw [Json.normalize, normalizeItems_eq_map]

theorem normal?_object (n : Nat) (members : List (Option String × Tree)) :
    (Tree.object members).normal? (n + 1) =
      (members.mapM (Tree.member? (Tree.normal? n))).map fun ms => .object (sortMembers ms) := by
  have hmember : Tree.member? (Tree.normal? n) = fun m =>
      (Tree.member? (Tree.value? n) m).map fun m => (m.1, m.2.normalize) := by
    funext m
    unfold Tree.member? Tree.normal?
    cases m.1 with
    | none => rfl
    | some name => cases m.2.value? n <;> rfl
  show ((members.mapM (Tree.member? (Tree.value? n))).map Json.object).map Json.normalize = _
  rw [hmember, mapM_map, Option.map_map, Option.map_map]
  refine congrArg (Option.map · _) (funext fun members => ?_)
  show Json.normalize (.object members) = .object (sortMembers (members.map _))
  rw [Json.normalize, normalizeMembers_eq_map]

/-- Members in another order are read as members in another order. -/
theorem exists_perm_of_mapM {ι : Type} {f : ι → Option α} {xs ys : List ι} (h : xs.Perm ys) :
    ∀ {as : List α}, xs.mapM f = some as → ∃ bs, ys.mapM f = some bs ∧ as.Perm bs := by
  induction h with
  | nil => exact fun has => ⟨_, has, .refl _⟩
  | @cons x xs ys _ ih =>
    intro as h
    rw [List.mapM_cons] at h ⊢
    obtain ⟨a, ha, h⟩ := Option.bind_eq_some_iff.1 h
    obtain ⟨as, has, ⟨⟩⟩ := Option.bind_eq_some_iff.1 h
    obtain ⟨bs, hbs, hperm⟩ := ih has
    refine ⟨a :: bs, ?_, hperm.cons a⟩
    rw [ha, hbs]
    rfl
  | swap x y xs =>
    intro as h
    simp only [List.mapM_cons] at h ⊢
    obtain ⟨b, hb, h⟩ := Option.bind_eq_some_iff.1 h
    obtain ⟨as', h', ⟨⟩⟩ := Option.bind_eq_some_iff.1 h
    obtain ⟨a, ha, h'⟩ := Option.bind_eq_some_iff.1 h'
    obtain ⟨as, has, ⟨⟩⟩ := Option.bind_eq_some_iff.1 h'
    refine ⟨a :: b :: as, ?_, .swap ..⟩
    rw [ha, hb, has]
    rfl
  | trans _ _ ih ih' =>
    intro as has
    obtain ⟨bs, hbs, hperm⟩ := ih has
    obtain ⟨cs, hcs, hperm'⟩ := ih' hbs
    exact ⟨cs, hcs, hperm.trans hperm'⟩

/-- What does not depend on the order of what is read does not depend on the order of reading. -/
theorem mapM_map_eq_of_perm {ι γ : Type} {f : ι → Option α} {g : List α → γ} {xs ys : List ι}
    (h : xs.Perm ys) (hg : ∀ as bs, xs.mapM f = some as → as.Perm bs → g as = g bs) :
    (xs.mapM f).map g = (ys.mapM f).map g := by
  cases has : xs.mapM f with
  | some as =>
    obtain ⟨bs, hbs, hperm⟩ := exists_perm_of_mapM h has
    rw [hbs]
    exact congrArg some (hg as bs has hperm)
  | none =>
    cases hbs : ys.mapM f with
    | none => rfl
    | some bs =>
      obtain ⟨as, has', -⟩ := exists_perm_of_mapM h.symm hbs
      exact nomatch has.symm.trans has'

theorem names_of_mapM {f : Tree → Option α} : ∀ {members : List (Option String × Tree)}
    {as : List (String × α)}, members.mapM (Tree.member? f) = some as →
      as.map Prod.fst = members.filterMap Prod.fst
  | [], as, h => by
    cases h
    rfl
  | m :: members, as, h => by
    rw [List.mapM_cons] at h
    obtain ⟨a, ha, h⟩ := Option.bind_eq_some_iff.1 h
    obtain ⟨as, has, ⟨⟩⟩ := Option.bind_eq_some_iff.1 h
    obtain ⟨name, hname, ha⟩ := Option.bind_eq_some_iff.1 ha
    obtain ⟨x, -, rfl⟩ := Option.map_eq_some_iff.1 ha
    rw [List.filterMap_cons_some hname, List.map_cons, names_of_mapM has]

/-- Values that differ in the order of members are the same once these are sorted. -/
theorem Alike.normal?_eq {o : Outline π} {p : π} {t u : Tree} (h : Alike o p t u) :
    o.Uniform p → t.Proper → u.Proper → ∀ n, t.normal? n = u.normal? n := by
  induction h with
  | same t => exact fun _ _ _ n => rfl
  | @array p pairs _ ih =>
    intro hp ht hu n
    cases n with
    | zero => rfl
    | succ n =>
      rw [normal?_array, normal?_array, List.mapM_map, List.mapM_map]
      refine congrArg _ (mapM_congr fun pair hpair => ?_)
      obtain ⟨i, hi⟩ := List.mem_iff_getElem?.1 hpair
      exact ih i pair hi ((hp.item i).symm ▸ hp) (ht.item (List.mem_map_of_mem hpair))
        (hu.item (List.mem_map_of_mem hpair)) n
  | @object p ms ns _ _ kept hms hns _ hextra _ ih =>
    intro hp ht hu n
    cases n with
    | zero => rfl
    | succ n =>
      obtain ⟨rfl, rfl⟩ := hp.no_extra hextra
      rw [List.append_nil] at hms hns
      rw [normal?_object, normal?_object]
      have hsorted : ∀ {ms ns : List (Option String × Tree)}, (Tree.object ms).Proper → ms.Perm ns →
          (ms.mapM (Tree.member? (Tree.normal? n))).map (fun ms => Json.object (sortMembers ms)) =
            (ns.mapM (Tree.member? (Tree.normal? n))).map fun ms => .object (sortMembers ms) := by
        intro ms ns hproper hperm
        refine mapM_map_eq_of_perm hperm fun as bs has hasbs => ?_
        rw [sortMembers_eq_of_perm hasbs (names_of_mapM has ▸ hproper.names_nodup)]
      rw [hsorted ht hms, hsorted hu hns, List.mapM_map, List.mapM_map]
      refine congrArg _ (mapM_congr fun m hm => member?_eq fun name hname => ?_)
      have hleft := ht.member (hms.mem_iff.2 (List.mem_map_of_mem (f := MemberPair.onLeft) hm))
      have hright := hu.member (hns.mem_iff.2 (List.mem_map_of_mem (f := MemberPair.onRight) hm))
      exact ih m hm name p hname (hp.member name) hp hleft hright n

/-- A default is the same value in any order of members. -/
theorem Carried.literal {o : Outline π} {p : π} (hp : o.Uniform p) (n : Nat) :
    Carried o p (Literal.ofJson <$> Reader.value n) := by
  refine .of_denotes ((denotes_value n).map _) fun t u htu ht hu => ?_
  have hnormal := htu.normal?_eq hp ht hu n
  have hliteral : ∀ {j k : Json}, j.normalize = k.normalize →
      Literal.ofJson j = Literal.ofJson k := by
    intro j k h
    unfold Literal.ofJson
    congr
  unfold Tree.normal? at hnormal
  cases hj : t.value? n with
  | none =>
    rw [hj] at hnormal
    rw [Option.map_eq_none_iff.1 hnormal.symm]
  | some j =>
    rw [hj] at hnormal
    obtain ⟨k, hk, heq⟩ := Option.map_eq_some_iff.1 hnormal.symm
    rw [hk]
    exact congrArg some (hliteral heq.symm)

end OrmDdl.Json
