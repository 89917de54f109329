import OrmDdl.Model.Basic
import OrmDdl.Proofs.Json.RearrangedRecords
/-!
# Places of a document

Models, rules, relations and references are records, so the order of their members does not count,
and members of other names are passed. The objects of fields and of relations hold members of any
names, and their order counts (`Place.outline`). Models are the same wherever their members stand as
long as these two keep their order (`Model.carried`).
-/

namespace OrmDdl

open Json Json.Reader

/-- A place where values stand in a document. -/
inductive Place where
  | document
  | models
  | model
  | fields
  | rule
  | relations
  | relation
  | reference
  | other
deriving DecidableEq

namespace Place

/-- The names that are known at a place, and what stands under them. -/
def known : Place → List (String × Place)
  | document => [("schema_version", other), ("models", models)]
  | model => [("name", other), ("table", other), ("id_key", other), ("validation_rules", fields),
      ("available_relations", relations)]
  | rule => [("type", other), ("min", other), ("max", other), ("default", other)]
  | relation => [("mode", other), ("a", reference), ("b", reference), ("a_key", other),
      ("_a_key_by_mode", other), ("b_key", other), ("_b_key_by_mode", other),
      ("class_via", reference), ("via_a_key", other)]
  | reference => [("name", other), ("table", other)]
  | models | fields | relations | other => []

/-- Fields and relations have any names, and so have members of other values. -/
def member? : Place → String → Option Place
  | fields, _ => some rule
  | relations, _ => some relation
  | models, _ | other, _ => some other
  | place, name => place.known.lookup name

/-- What stands in a list. A record may be written as the list of its fields. -/
def item : Place → Nat → Place
  | document, _ | models, _ => model
  | model, 3 => fields
  | model, 4 => relations
  | relation, 1 | relation, 2 | relation, 5 => reference
  | _, _ => other

/-- The places of a document. The order of members counts among fields and among relations. -/
def outline : Outline Place where
  item := item
  member? := member?
  ordered place := place = fields || place = relations

theorem uniform_other : outline.Uniform other := ⟨fun _ => rfl, fun _ => rfl⟩

end Place

/-! ## Types -/

theorem TypeTag.carried (n : Nat) : Carried Place.outline .other (TypeTag.read n) :=
  .variant Place.uniform_other decode n

/-- One tag, or a list of tags. -/
noncomputable def TypeSet.ofTree? : Nat → Tree → Option TypeSet
  | _, .string chars => (chars.bind fun s => (TypeTag.decode s).toOption).map single
  | n + 1, .array items => (items.mapM (TypeTag.read n).ofTree?).map mk
  | _, _ => none

theorem TypeSet.denotes_read (n : Nat) : Denotes (TypeSet.read n) (TypeSet.ofTree? n) := by
  refine .of_start fun t c u h rest _ => ?_
  split
  · obtain ⟨chars, text, rfl, hchars, rfl⟩ := h.of_quote
    rw [List.cons_append, List.append_assoc, List.singleton_append, outcome_bind_pure,
      hchars.outcome_decoded, Option.map_map, ofTree?, Option.map_map]
    rfl
  · obtain ⟨entries, body, rfl, rfl, hbody, h⟩ := h.of_list
    cases n with
    | zero => rfl
    | succ n =>
      have helements := outcome_elements (TypeTag.carried n).steady hbody h rest
      rw [List.cons_append, List.append_assoc]
      refine (outcome_bind_pure ..).trans ?_
      rw [List.singleton_append, outcome_inList helements, Option.map_map, ofTree?, Option.map_map]
      rfl
  · obtain ⟨entries, body, rfl, rfl, -⟩ := h.of_object
    cases n with
    | zero => rfl
    | succ n =>
      rw [List.cons_append, List.append_assoc]
      exact outcome_framed_map (x := none) (closeObject_ok rest) rfl
  · next hquote hlist hobject =>
    rw [outcome_mismatch]
    cases t with
    | string => exact absurd (beq_iff_eq.1 h.opens) hquote
    | array => exact absurd (beq_iff_eq.1 h.opens) hlist
    | object => exact absurd (beq_iff_eq.1 h.opens) hobject
    | null | bool | number => cases n <;> rfl

theorem TypeSet.carried (n : Nat) : Carried Place.outline .other (TypeSet.read n) := by
  refine .of_denotes (denotes_read n) fun t u htu ht hu => ?_
  cases htu with
  | same t => rfl
  | object => cases n <;> rfl
  | array h =>
    cases n with
    | zero => rfl
    | succ n =>
      have hitem := Place.uniform_other.item
      exact congrArg (Option.map mk) (Alike.mapM_items_eq (TypeTag.carried n) hitem h ht hu)

/-! ## Rules -/

theorem FieldRule.follows : record.Follows Place.outline .rule := by
  have htypes := TypeSet.carried
  have hbound : ∀ _ : Nat, Carried Place.outline .other (optional double) :=
    fun _ => .optional .double
  have hdefault := Carried.literal Place.uniform_other
  refine ⟨fun slot hslot => ?_, ?_⟩
  · simp only [record, List.mem_cons, List.not_mem_nil, or_false] at hslot
    rcases hslot with rfl | rfl | rfl | rfl
    · exact Slot.placed_of htypes (by decide) fun _ _ => rfl
    · exact Slot.placed_of hbound (by decide) fun _ _ => rfl
    · exact Slot.placed_of hbound (by decide) fun _ _ => rfl
    · exact Slot.placed_of hdefault (by decide) fun _ _ => rfl
  · simp only [record, List.pairwise_cons, List.forall_mem_cons, List.not_mem_nil,
      IsEmpty.forall_iff, implies_true, List.Pairwise.nil, and_true]
    and_intros <;>
      exact .of (fun _ _ => rfl) (fun _ _ => rfl) (fun _ _ => rfl) (fun _ _ => rfl) fun _ _ _ => rfl

theorem FieldRule.carried : ∀ n, Carried Place.outline .rule (FieldRule.read n) :=
  follows.carried (by decide)

/-! ## Relations -/

theorem carried_text (_ : Nat) : Carried Place.outline .other text := .text

theorem ModelRef.follows : record.Follows Place.outline .reference := by
  refine ⟨fun slot hslot => ?_, ?_⟩
  · simp only [record, List.mem_cons, List.not_mem_nil, or_false] at hslot
    rcases hslot with rfl | rfl
    · exact Slot.placed_of carried_text (by decide) fun _ _ => rfl
    · exact Slot.placed_of carried_text (by decide) fun _ _ => rfl
  · simp only [record, List.pairwise_cons, List.forall_mem_cons, List.not_mem_nil,
      IsEmpty.forall_iff, implies_true, List.Pairwise.nil, and_true]
    exact .of (fun _ _ => rfl) (fun _ _ => rfl) (fun _ _ => rfl) (fun _ _ => rfl) fun _ _ _ => rfl

theorem ModelRef.carried : ∀ n, Carried Place.outline .reference (ModelRef.read n) :=
  follows.carried (by decide)

theorem Relation.follows : record.Follows Place.outline .relation := by
  have hmode : ∀ n, Carried Place.outline .other (RelationMode.read n) :=
    .variant Place.uniform_other _
  have href := ModelRef.carried
  have hvia : ∀ n, Carried Place.outline .reference (optional (ModelRef.read n)) :=
    fun n => .optional (href n)
  have hkey : ∀ _ : Nat, Carried Place.outline .other (optional text) := fun _ => .optional .text
  refine ⟨fun slot hslot => ?_, ?_⟩
  · simp only [record, List.mem_cons, List.not_mem_nil, or_false] at hslot
    rcases hslot with rfl | rfl | rfl | rfl | rfl | rfl | rfl
    · exact Slot.placed_of hmode (by decide) fun _ _ => rfl
    · exact Slot.placed_of href (by decide) fun _ _ => rfl
    · exact Slot.placed_of href (by decide) fun _ _ => rfl
    · exact Slot.placed_of carried_text (by decide) fun _ _ => rfl
    · exact Slot.placed_of carried_text (by decide) fun _ _ => rfl
    · exact Slot.placed_of hvia (by decide) fun _ _ => rfl
    · exact Slot.placed_of hkey (by decide) fun _ _ => rfl
  · simp only [record, List.pairwise_cons, List.forall_mem_cons, List.not_mem_nil,
      IsEmpty.forall_iff, implies_true, List.Pairwise.nil, and_true]
    and_intros <;>
      exact .of (fun _ _ => rfl) (fun _ _ => rfl) (fun _ _ => rfl) (fun _ _ => rfl) fun _ _ _ => rfl

theorem Relation.carried : ∀ n, Carried Place.outline .relation (Relation.read n) :=
  follows.carried (by decide)

/-! ## Models -/

theorem Model.carried_fields :
    ∀ n, Carried Place.outline .fields (NameMap.read FieldRule.read n) :=
  .nameMap rfl (fun _ => rfl) FieldRule.carried

theorem Model.carried_relations :
    ∀ n, Carried Place.outline .relations (NameMap.read Relation.read n) :=
  .nameMap rfl (fun _ => rfl) Relation.carried

theorem Model.follows : record.Follows Place.outline .model := by
  refine ⟨fun slot hslot => ?_, ?_⟩
  · simp only [record, List.mem_cons, List.not_mem_nil, or_false] at hslot
    rcases hslot with rfl | rfl | rfl | rfl | rfl
    · exact Slot.placed_of carried_text (by decide) fun _ _ => rfl
    · exact Slot.placed_of carried_text (by decide) fun _ _ => rfl
    · exact Slot.placed_of carried_text (by decide) fun _ _ => rfl
    · exact Slot.placed_of carried_fields (by decide) fun _ _ => rfl
    · exact Slot.placed_of carried_relations (by decide) fun _ _ => rfl
  · simp only [record, List.pairwise_cons, List.forall_mem_cons, List.not_mem_nil,
      IsEmpty.forall_iff, implies_true, List.Pairwise.nil, and_true]
    and_intros <;>
      exact .of (fun _ _ => rfl) (fun _ _ => rfl) (fun _ _ => rfl) (fun _ _ => rfl) fun _ _ _ => rfl

/-- A model is the same in any order of its members and of those of its rules and relations. -/
theorem Model.carried : ∀ n, Carried Place.outline .model (Model.read n) :=
  follows.carried (by decide)

end OrmDdl
