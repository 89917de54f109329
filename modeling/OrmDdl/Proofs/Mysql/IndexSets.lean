import OrmDdl.Proofs.Mysql.Indexes
/-!
# Index sets under any calls

`IndexSet.run_inStep`: whatever is inserted and gathered, and however gathering ends, the targets
and the test for them agree, and the targets are the ones offered, each where it first was.
`IndexSet.collects`: gathering stops at the first relation that lacks a part of its junction, and
keeps what the relations before it point at.
-/

namespace OrmDdl.Mysql

open Outcome

namespace IndexSet

variable {s : IndexSet} {t : IndexTarget}

/-! ## Insertion -/

theorem add_of_mem (h : t ∈ s) : s.add t = (false, s) := dif_pos h

theorem add_fst_iff : (s.add t).1 = true ↔ t ∉ s := by
  unfold add
  split
  · simpa
  · simpa

theorem targets_add (h : t ∉ s) : (s.add t).2.targets = s.targets ++ [t] :=
  (s.targets_insert t).trans (if_neg h)

/-- The targets and the test for them agree, and an insertion says whether it changes them. -/
structure InStep (s : IndexSet) : Prop where
  nodup : s.targets.Nodup
  seen : ∀ t, s.seen t = true ↔ t ∈ s.targets
  inserted : ∀ t, (s.add t).1 = true ↔ t ∉ s.targets
  appended : ∀ t, t ∉ s.targets → (s.add t).2.targets = s.targets ++ [t]
  unchanged : ∀ t ∈ s.targets, (s.add t).2 = s

theorem inStep (s : IndexSet) : s.InStep where
  nodup := s.nodup
  seen := s.seen_iff
  inserted _ := add_fst_iff
  appended _ := targets_add
  unchanged _ h := congrArg Prod.snd (add_of_mem h)

end IndexSet

/-! ## Gathering -/

instance : DecidablePred Joined := fun _ => inferInstanceAs (Decidable (_ → _))

/-- The columns of the relations before the first that lacks a part of its junction. -/
def completeColumns (relations : List (String × Relation)) : List IndexTarget :=
  (relations.takeWhile fun r => Joined r.2).flatMap fun r => relationColumns r.2

/-- However gathering ends, the targets of the relations before the end are there, and no more. -/
theorem gather_snd {model : String} (relations : List (String × Relation)) :
    ∀ s : IndexSet, (gather model relations s).2 = s.insertAll (completeColumns relations) := by
  induction relations with
  | nil =>
    intro s
    rfl
  | cons r rest ih =>
    intro s
    obtain ⟨name, r⟩ := r
    unfold completeColumns at ih ⊢
    rw [gather, List.takeWhile_cons]
    cases ht : relationTargets r with
    | error defect =>
      have hr : ¬Joined r := fun h => joined_iff.1 h _ (relationTargets_eq_error.1 ht)
      simp only [hr, decide_false, Bool.false_eq_true, ↓reduceIte, List.flatMap_nil]
      rfl
    | ok targets =>
      have hr : Joined r := exists_relationTargets.1 ⟨targets, ht⟩
      simp only [hr, decide_true, ↓reduceIte, List.flatMap_cons]
      rw [insertAll_append, ← relationTargets_eq_ok ht]
      exact ih _

theorem completeColumns_append {before after : List (String × Relation)} {r : String × Relation}
    (hbefore : ∀ x ∈ before, Joined x.2) (hr : ¬Joined r.2) :
    completeColumns (before ++ r :: after) = before.flatMap fun x => relationColumns x.2 := by
  unfold completeColumns
  rw [List.takeWhile_append_of_pos (by simpa using hbefore), List.takeWhile_cons_of_neg (by simpa),
    List.append_nil]

/-- What gathering the targets of a model comes to. -/
structure Collects (model : Model) (s : IndexSet) : Prop where
  complete : (collectIndexes model s).1 = none ↔ ∀ r ∈ model.relations.entries, Joined r.2
  all : (collectIndexes model s).1 = none →
    (collectIndexes model s).2 =
      s.insertAll (model.relations.entries.flatMap fun r => relationColumns r.2)
  /-- The first incomplete relation in order is named, and only those before it are gathered. -/
  first : ∀ e, (collectIndexes model s).1 = some e → ∃ before name r after defect,
    model.relations.entries = before ++ (name, r) :: after ∧ (∀ x ∈ before, Joined x.2) ∧
      RelationFault r defect ∧ e = .malformedRelation model.name name defect ∧
      (collectIndexes model s).2 = s.insertAll (before.flatMap fun x => relationColumns x.2)

theorem collects (model : Model) (s : IndexSet) : Collects model s where
  complete := gather_eq_none _ s
  all := gather_eq_insertAll _ s
  first e h := by
    obtain ⟨⟨name, r⟩, ⟨before, after, hsplit, hr, hbefore⟩, defect, hfault, rfl⟩ :=
      (gather_eq_some _ s).1 h
    have hbefore : ∀ x ∈ before, Joined x.2 := fun x hx => Classical.not_not.1 (hbefore x hx)
    refine ⟨before, name, r, after, defect, hsplit, hbefore, hfault, rfl, ?_⟩
    unfold collectIndexes
    rw [gather_snd, hsplit, completeColumns_append hbefore hr]

/-! ## Runs -/

namespace IndexSet

/-- A call that may change a set. -/
inductive Call where
  | insert (target : IndexTarget)
  | collect (model : Model)

/-- The targets that a call offers to a set. -/
def Call.offered : Call → List IndexTarget
  | insert t => [t]
  | collect model => completeColumns model.relations.entries

/-- The set that a call leaves behind, whether it fails or not. -/
def call (s : IndexSet) : Call → IndexSet
  | .insert t => (s.add t).2
  | .collect model => (collectIndexes model s).2

def run (calls : List Call) : IndexSet := calls.foldl call ∅

theorem call_eq_insertAll (s : IndexSet) (c : Call) : s.call c = s.insertAll c.offered := by
  cases c with
  | insert t => rfl
  | collect model => exact gather_snd _ s

theorem foldl_call (calls : List Call) : ∀ s : IndexSet,
    calls.foldl call s = s.insertAll (calls.flatMap Call.offered) := by
  induction calls with
  | nil =>
    intro s
    rfl
  | cons c calls ih =>
    intro s
    rw [List.foldl_cons, ih, call_eq_insertAll, List.flatMap_cons, insertAll_append]

/-- After any calls on an empty set the set is in step, its targets are those offered, each where it
first was, and gathering from there is complete or stops at the first incomplete relation. -/
theorem run_inStep (calls : List Call) :
    (run calls).InStep ∧ (run calls).targets = (calls.flatMap Call.offered).eraseDups ∧
      ∀ model, Collects model (run calls) := by
  refine ⟨inStep _, ?_, fun model => collects model _⟩
  rw [run, foldl_call, targets_insertAll_empty]

end IndexSet

end OrmDdl.Mysql
