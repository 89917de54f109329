import OrmDdl.Proofs.Json.Samples
import OrmDdl.Proofs.Model.Places
import OrmDdl.Proofs.Model.ReadBack
/-!
# Declarations of types

`TypeSet.read_declaration`: a type is declared by the name of a tag or by a list of tags, which keep
their order and their repetitions, and every set of tags is read back from the declaration that it
is written as. A tag alone must be a name. In a list it may also be an object that holds `null`
under the name (`TypeTag.IsElement`), and in this a value and the list of it alone differ.
-/

namespace OrmDdl

open Json Json.Reader

namespace TypeTag

theorem decode_toOption_eq_some {s : String} {tag : TypeTag} :
    (decode s).toOption = some tag ↔ s = tag.name := by
  constructor
  · intro h
    unfold decode at h
    cases hname : ofName? s with
    | none =>
      rw [hname] at h
      cases h
    | some tag' =>
      rw [hname] at h
      cases h
      have hfind : all.find? (·.name == s) = some tag := hname
      have hs := List.find?_some hfind
      exact (beq_iff_eq.1 hs).symm
  · rintro rfl
    rw [decode_name]
    rfl

/-! ## What stands for a tag -/

/-- The tree is the name of the tag. -/
def IsName (tag : TypeTag) (t : Tree) : Prop := t = .string (some tag.name)

/-- The tree is an object that holds `null` under the name of the tag, and nothing else. -/
def IsNullUnder (tag : TypeTag) (t : Tree) : Prop := t = .object [(some tag.name, .null)]

/-- The tree stands for the tag inside a list. -/
def IsElement (tag : TypeTag) (t : Tree) : Prop := tag.IsName t ∨ tag.IsNullUnder t

theorem variant?_string {n : Nat} {chars : Option String} {tag : TypeTag} :
    Tree.variant? decode n (.string chars) = some tag ↔ tag.IsName (.string chars) := by
  rw [IsName, Tree.string.injEq]
  cases chars with
  | none => cases n <;> exact ⟨(nomatch ·), (nomatch ·)⟩
  | some s => cases n <;> exact decode_toOption_eq_some.trans (Option.some_inj).symm

theorem nameOfNull?_eq_some {members : List (Option String × Tree)} {s : String} :
    Tree.nameOfNull? members = some s ↔ members = [(some s, .null)] := by
  refine ⟨fun h => ?_, fun h => h ▸ rfl⟩
  unfold Tree.nameOfNull? at h
  split at h
  · rw [h]
  · cases h

theorem variant?_object {n : Nat} {members : List (Option String × Tree)} {tag : TypeTag} :
    Tree.variant? decode (n + 1) (.object members) = some tag ↔
      tag.IsNullUnder (.object members) := by
  rw [IsNullUnder, Tree.object.injEq, Tree.variant?, Option.bind_eq_some_iff]
  simp only [nameOfNull?_eq_some, decode_toOption_eq_some]
  exact ⟨fun ⟨_, hmembers, hs⟩ => hs ▸ hmembers, fun h => ⟨_, h, rfl⟩⟩

theorem variant?_eq_some {n : Nat} {t : Tree} {tag : TypeTag} :
    Tree.variant? decode (n + 1) t = some tag ↔ tag.IsElement t := by
  cases t with
  | string =>
    refine variant?_string.trans ⟨.inl, ?_⟩
    rintro (h | ⟨⟨⟩⟩)
    exact h
  | object =>
    refine variant?_object.trans ⟨.inr, ?_⟩
    rintro (⟨⟨⟩⟩ | h)
    exact h
  | null | bool | number | array =>
    refine ⟨(nomatch ·), ?_⟩
    rintro (⟨⟨⟩⟩ | ⟨⟨⟩⟩)

end TypeTag

namespace TypeSet

/-! ## Declarations -/

/-- The tree declares the tags: by the name of one, or by a list with an element for each. -/
inductive Declared (element : TypeTag → Tree → Prop) : TypeSet → Tree → Prop
  | one (tag : TypeTag) : Declared element (single tag) (.string (some tag.name))
  | many {tags : List TypeTag} {items : List Tree}
      (h : List.Forall₂ (fun t tag => element tag t) items tags) :
      Declared element ⟨tags⟩ (.array items)

theorem ofTree?_eq_some {n : Nat} {t : Tree} (ht : t.Written) {s : TypeSet} :
    ofTree? (n + 2) t = some s ↔ s.Declared TypeTag.IsElement t := by
  cases t with
  | null | bool | number | object => exact ⟨(nomatch ·), (nomatch ·)⟩
  | string chars =>
    rw [ofTree?, Option.map_eq_some_iff]
    constructor
    · rintro ⟨tag, htag, rfl⟩
      obtain ⟨s, rfl, hs⟩ := Option.bind_eq_some_iff.1 htag
      rw [TypeTag.decode_toOption_eq_some.1 hs]
      exact .one tag
    · rintro ⟨tag⟩
      exact ⟨tag, TypeTag.decode_toOption_eq_some.2 rfl, rfl⟩
  | array items =>
    have hitems : items.mapM (TypeTag.read (n + 1)).ofTree? =
        items.mapM (Tree.variant? TypeTag.decode (n + 1)) :=
      mapM_congr fun u hu => (denotes_variant TypeTag.decode (n + 1)).ofTree?_eq (ht.item hu)
    rw [ofTree?, hitems, Option.map_eq_some_iff]
    simp only [mapM_eq_some, TypeTag.variant?_eq_some]
    constructor
    · rintro ⟨tags, h, rfl⟩
      exact .many h
    · rintro (_ | h)
      exact ⟨_, h, rfl⟩

namespace Declared

variable {element : TypeTag → Tree → Prop} {s : TypeSet} {t : Tree}

/-- A tree that is no list declares one tag, by its name. -/
theorem iff_isName (ht : ∀ items, t ≠ .array items) :
    s.Declared element t ↔ ∃ tag : TypeTag, s = single tag ∧ tag.IsName t := by
  constructor
  · rintro (tag | _)
    · exact ⟨tag, rfl, rfl⟩
    · exact absurd rfl (ht _)
  · rintro ⟨tag, rfl, rfl⟩
    exact .one tag

/-- A list of one element declares the tag that the element stands for. -/
theorem singleton_iff :
    s.Declared element (.array [t]) ↔ ∃ tag, s = single tag ∧ element tag t := by
  constructor
  · rintro (_ | h)
    cases h with
    | cons htag hrest =>
      cases hrest
      exact ⟨_, rfl, htag⟩
  · rintro ⟨tag, rfl, htag⟩
    exact .many (.cons htag .nil)

/-- Elements that are no objects are names. -/
theorem iff_of_names
    (ht : ∀ items, t = .array items → ∀ u ∈ items, ∀ tag : TypeTag, ¬tag.IsNullUnder u) :
    s.Declared TypeTag.IsElement t ↔ s.Declared TypeTag.IsName t := by
  constructor
  · rintro (tag | h)
    · exact .one tag
    · refine .many ?_
      have hitems := ht _ rfl
      induction h with
      | nil => exact .nil
      | cons hu _ ih =>
        obtain ⟨hnot, hitems⟩ := List.forall_mem_cons.1 hitems
        refine .cons (hu.resolve_right (hnot _)) (ih ?_ hitems)
        rintro _ ⟨⟩
        exact hitems
  · rintro (tag | h)
    · exact .one tag
    · exact .many (h.imp fun _ _ => .inl)

end Declared

theorem nesting_toJson (s : TypeSet) : s.toJson.nesting ≤ 1 := by
  obtain ⟨tags⟩ := s
  have hlist : (Json.array (tags.map TypeTag.toJson)).nesting ≤ 1 := by
    refine Nat.succ_le_succ (nestingOfItems_le_iff.2 (List.forall_mem_map.2 fun tag _ => ?_))
    exact Nat.le_refl 0
  match tags with
  | [_] => exact Nat.zero_le 1
  | [] | _ :: _ :: _ => exact hlist

/-! ## Documents -/

variable {t : Tree} {text : String}

theorem run_read_iff (h : DocumentOf t text) {s : TypeSet} :
    (read maxDepth).run text = .ok s ↔ s.Declared TypeTag.IsElement t :=
  (h.run_eq_ok_iff (denotes_read maxDepth)).trans (ofTree?_eq_some h.written)

/-- A document is read as the set of tags that it declares, which is by names if no element of a
list is an object. Unless it is a list, the list of it alone is read as the same, or it is an object
that is an element and no declaration. Every set is read back from the text of its declaration. -/
theorem read_declaration (h : DocumentOf t text) :
    (∀ s, (read maxDepth).run text = .ok s ↔ s.Declared TypeTag.IsElement t) ∧
      ((∀ items, t = .array items → ∀ u ∈ items, ∀ tag : TypeTag, ¬tag.IsNullUnder u) →
        ∀ s, (read maxDepth).run text = .ok s ↔ s.Declared TypeTag.IsName t) ∧
      ((∀ items, t ≠ .array items) →
        ∀ s, (read maxDepth).run ("[" ++ text ++ "]") = .ok s ↔
          (read maxDepth).run text = .ok s ∨ ∃ tag : TypeTag, s = single tag ∧ tag.IsNullUnder t) ∧
      (∀ s l, (read maxDepth).run (String.ofList (print l s.toJson)) = .ok s) ∧
      ∀ tag, (single tag).toJson = .string tag.name := by
  refine ⟨fun s => run_read_iff h, fun ht s => ?_, fun ht s => ?_, fun s l => ?_, fun tag => rfl⟩
  · exact (run_read_iff h).trans (Declared.iff_of_names ht)
  · rw [run_read_iff h.bracketed, run_read_iff h, Declared.singleton_iff, Declared.iff_isName ht,
      ← exists_or]
    simp only [TypeTag.IsElement, and_or_left]
  · exact (reads s (s.nesting_toJson.trans (by decide))).run

/-- A list that declares a tag twice, and one by an object. -/
def repetition : Sample :=
  .list [.string "integer" (by decide), .object [("null", .null)] (by decide),
    .string "integer" (by decide)]

theorem read_declaration_repetition :
    DocumentOf repetition.tree "[\"integer\",\x7b\"null\":null\x7d,\"integer\"]" ∧
      (read maxDepth).run "[\"integer\",\x7b\"null\":null\x7d,\"integer\"]" =
        .ok ⟨[.integer, .null, .integer]⟩ := by
  have htext : String.ofList repetition.text =
      "[\"integer\",\x7b\"null\":null\x7d,\"integer\"]" := by decide
  have hdocument := htext ▸ repetition.documentOf
  obtain ⟨hread, -⟩ := read_declaration hdocument
  refine ⟨hdocument, (hread _).2 (.many ?_)⟩
  exact .cons (.inl rfl) (.cons (.inr rfl) (.cons (.inl rfl) .nil))

/-- An object that holds `null` under the name of a tag. -/
def nullString : Sample := .object [("string", .null)] (by decide)

/-- The object is refused alone and read inside a list, which declares nothing by names. -/
theorem read_nullString :
    DocumentOf nullString.tree "\x7b\"string\":null\x7d" ∧
      (∀ items, nullString.tree ≠ .array items) ∧
      (∀ s, (read maxDepth).run "\x7b\"string\":null\x7d" ≠ .ok s) ∧
      DocumentOf (.array [nullString.tree]) "[\x7b\"string\":null\x7d]" ∧
      (∀ s : TypeSet, ¬s.Declared TypeTag.IsName (.array [nullString.tree])) ∧
      (read maxDepth).run "[\x7b\"string\":null\x7d]" = .ok (single .string) := by
  have htext : String.ofList nullString.text = "\x7b\"string\":null\x7d" := by decide
  have halone : DocumentOf nullString.tree "\x7b\"string\":null\x7d" :=
    htext ▸ nullString.documentOf
  have hlist : DocumentOf (.array [nullString.tree]) "[\x7b\"string\":null\x7d]" :=
    halone.bracketed
  have hnot : ∀ items, nullString.tree ≠ .array items := fun _ h => nomatch h
  refine ⟨halone, hnot, fun s hs => ?_, hlist, fun s hs => ?_, ?_⟩
  · obtain ⟨_, _, htag⟩ := (Declared.iff_isName hnot).1 ((run_read_iff halone).1 hs)
    exact nomatch htag
  · obtain ⟨_, _, htag⟩ := Declared.singleton_iff.1 hs
    exact nomatch htag
  · exact (run_read_iff hlist).2 (Declared.singleton_iff.2 ⟨.string, rfl, .inr rfl⟩)

end TypeSet

end OrmDdl
