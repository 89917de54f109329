import OrmDdl.Model.Basic
import OrmDdl.Proofs.Json.LocalRecords
/-!
# Models are read by themselves

Types, rules, relations and models are records, variants and maps, so their readers are graded as
those are (`Model.graded_read`).
-/

namespace OrmDdl

open Json Json.Reader

/-! ## Types -/

theorem TypeTag.graded_read : Graded TypeTag.read := graded_variant _

/-- A type set is a tag, or a list of tags. -/
theorem TypeSet.graded_read : Graded TypeSet.read := by
  intro n n' s
  have hE := spreads_spent n n'
  unfold TypeSet.read
  refine agrees_start solid_append hE (fun c u _ => ?_) s
  split
  · exact (agreesOn_decoded _ hE u).bind_pure fun _ _ hc => hc
  · simp only [← map_eq_pure_bind, ← map_deeper]
    refine ((closedOn_inList (fun m _ m' => ?_) n' u).map _).agreesOn
    exact agrees_elements (spreads_spent m m') (TypeTag.graded_read m m')
  · refine .of_fails fun a t h => ?_
    cases n with
    | zero => cases h
    | succ m =>
      obtain ⟨v, hv, -⟩ := framed_eq_ok h
      cases hv
  · exact agreesOn_mismatch _ _

theorem NameMap.graded_read {α : Type} {r : Nat → Reader α} (h : Graded r) :
    Graded (NameMap.read r) :=
  fun n n' s => (graded_named h n n' s).map fun _ _ hc => hc

theorem FieldRule.graded_read : Graded FieldRule.read := by
  have hbound : Graded fun _ => optional double :=
    graded_const fun hE => agrees_optional hE (agrees_double hE)
  refine Record.graded_read fun slot hslot => ?_
  simp only [record, List.mem_cons, List.not_mem_nil, or_false] at hslot
  rcases hslot with rfl | rfl | rfl | rfl
  · exact Slot.graded_of TypeSet.graded_read
  · exact Slot.graded_of hbound
  · exact Slot.graded_of hbound
  · exact Slot.graded_of fun n n' s => (graded_value n n' s).map fun _ _ hc => hc

/-! ## Relations -/

theorem ModelRef.graded_read : Graded ModelRef.read := by
  refine Record.graded_read fun slot hslot => ?_
  simp only [record, List.mem_cons, List.not_mem_nil, or_false] at hslot
  rcases hslot with rfl | rfl <;> exact Slot.graded_of graded_text

theorem Relation.graded_read : Graded Relation.read := by
  refine Record.graded_read fun slot hslot => ?_
  simp only [record, List.mem_cons, List.not_mem_nil, or_false] at hslot
  rcases hslot with rfl | rfl | rfl | rfl | rfl | rfl | rfl
  · exact Slot.graded_of (graded_variant _)
  · exact Slot.graded_of ModelRef.graded_read
  · exact Slot.graded_of ModelRef.graded_read
  · exact Slot.graded_of graded_text
  · exact Slot.graded_of graded_text
  · exact Slot.graded_of fun n n' =>
      agrees_optional (spreads_spent n n') (ModelRef.graded_read n n')
  · exact Slot.graded_of (graded_const fun hE => agrees_optional hE (agrees_text hE))

/-! ## Models -/

theorem Model.graded_read : Graded Model.read := by
  refine Record.graded_read fun slot hslot => ?_
  simp only [record, List.mem_cons, List.not_mem_nil, or_false] at hslot
  rcases hslot with rfl | rfl | rfl | rfl | rfl
  · exact Slot.graded_of graded_text
  · exact Slot.graded_of graded_text
  · exact Slot.graded_of graded_text
  · exact Slot.graded_of (NameMap.graded_read FieldRule.graded_read)
  · exact Slot.graded_of (NameMap.graded_read Relation.graded_read)

end OrmDdl
