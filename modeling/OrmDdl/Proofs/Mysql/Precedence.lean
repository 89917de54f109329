import Mathlib.Data.List.MinMax
import OrmDdl.Proofs.Mysql.Acceptance
/-!
# Which tag decides

Of the tags of a field one decides on the column, the first in the order of precedence
(`TypeSet.Wins`); of the others it only counts whether `null` is among them.
`ofField_decidingTag` says so of the whole outcome, errors included, and says what fails for want
of a deciding tag.
-/

namespace OrmDdl

/-- The place in the order of precedence. Arrays and objects share one, `null` is behind all. -/
def TypeTag.rank : TypeTag → Nat
  | boolean => 0
  | integer => 1
  | string => 2
  | number => 3
  | array | object => 4
  | null => 5

namespace TypeSet

/-- The tag comes first among the tags, and it is not `null`. -/
structure Wins (s : TypeSet) (t : TypeTag) : Prop where
  mem : t ∈ s
  ne_null : t ≠ .null
  first : ∀ u ∈ s, t.rank ≤ u.rank

/-- A tag alone, followed by `null` if the tags have it. -/
def reduced (s : TypeSet) (t : TypeTag) : TypeSet := ⟨t :: if s.IsNullable then [.null] else []⟩

variable {s s' : TypeSet} {t t' : TypeTag}

theorem mem_reduced {u : TypeTag} : u ∈ s.reduced t ↔ u = t ∨ s.IsNullable ∧ u = .null := by
  rw [mem_iff, reduced, List.mem_cons]
  by_cases h : s.IsNullable
  · rw [if_pos h, List.mem_singleton]
    simp [h]
  · rw [if_neg h]
    simp [h]

theorem rank_le_null (t : TypeTag) : t.rank ≤ TypeTag.null.rank := by cases t <;> decide

theorem isNullable_reduced (ht : t ≠ .null) : (s.reduced t).IsNullable ↔ s.IsNullable := by
  rw [IsNullable, mem_reduced]
  simp [ht.symm]

namespace Wins

theorem reduced (h : s.Wins t) : (s.reduced t).Wins t where
  mem := mem_reduced.2 (.inl rfl)
  ne_null := h.ne_null
  first u hu := by
    obtain rfl | ⟨-, rfl⟩ := mem_reduced.1 hu
    · exact Nat.le_refl _
    · exact rank_le_null t

/-- Whatever is added behind the deciding tag. -/
theorem mono (h : s.Wins t) (hsub : ∀ u ∈ s, u ∈ s') (hadd : ∀ u ∈ s', u ∈ s ∨ t.rank ≤ u.rank) :
    s'.Wins t where
  mem := hsub t h.mem
  ne_null := h.ne_null
  first u hu := (hadd u hu).elim (h.first u) id

end Wins

/-- A tag of least rank among those that are not `null` decides. -/
theorem exists_wins : (∃ t, s.Wins t) ↔ ∃ t ∈ s, t ≠ .null := by
  constructor
  · rintro ⟨t, h⟩
    exact ⟨t, h.mem, h.ne_null⟩
  · rintro ⟨t, ht, hne⟩
    have hmem : ∀ {u}, u ∈ s.tags.filter (· ≠ .null) ↔ u ∈ s ∧ u ≠ .null := by
      simp [mem_iff]
    cases hleast : (s.tags.filter (· ≠ .null)).argmin TypeTag.rank with
    | none =>
      rw [List.argmin_eq_none] at hleast
      exact absurd (hmem.2 ⟨ht, hne⟩) (hleast ▸ List.not_mem_nil)
    | some w =>
      obtain ⟨hw, hwne⟩ := hmem.1 (List.argmin_mem hleast)
      refine ⟨w, hw, hwne, fun u hu => ?_⟩
      by_cases hnull : u = .null
      · rw [hnull]
        exact rank_le_null w
      · exact List.le_of_mem_argmin (hmem.2 ⟨hu, hnull⟩) hleast

end TypeSet

namespace Mysql

/-- The column type that a tag stands for under the bounds of a rule. -/
def ColumnType.ofTag? (rule : FieldRule) : TypeTag → Option ColumnType
  | .boolean => some boolean
  | .integer => some (integer (.ofMax rule.max rule.isUnsigned) rule.isUnsigned)
  | .string => some (ofString rule)
  | .number => some float
  | .array | .object => some json
  | .null => none

theorem ColumnType.ofTag?_congr {rule : FieldRule} {t t' : TypeTag} (h : t.rank = t'.rank) :
    ofTag? rule t = ofTag? rule t' := by
  cases t <;> cases t' <;> first | rfl | cases h

/-- The deciding tag is the one that the column type is taken from. -/
theorem ColumnType.ofRule?_eq_ofTag? {rule : FieldRule} {t : TypeTag} (h : rule.types.Wins t) :
    ofRule? rule = ofTag? rule t := by
  have habsent : ∀ u : TypeTag, u.rank < t.rank → u ∉ rule.types :=
    fun u hlt hu => Nat.not_lt.2 (h.first u hu) hlt
  have hmem := h.mem
  unfold ofRule?
  cases t with
  | boolean => rw [if_pos hmem, ofTag?]
  | integer => rw [if_neg (habsent _ (by decide)), if_pos hmem, ofTag?]
  | string =>
    rw [if_neg (habsent _ (by decide)), if_neg (habsent _ (by decide)), if_pos hmem, ofTag?]
  | number =>
    rw [if_neg (habsent _ (by decide)), if_neg (habsent _ (by decide)),
      if_neg (habsent _ (by decide)), if_pos hmem, ofTag?]
  | array =>
    rw [if_neg (habsent _ (by decide)), if_neg (habsent _ (by decide)),
      if_neg (habsent _ (by decide)), if_neg (habsent _ (by decide)), if_pos (.inl hmem), ofTag?]
  | object =>
    rw [if_neg (habsent _ (by decide)), if_neg (habsent _ (by decide)),
      if_neg (habsent _ (by decide)), if_neg (habsent _ (by decide)), if_pos (.inr hmem), ofTag?]
  | null => exact absurd rfl h.ne_null

variable {model : Model} {name : String} {rule : FieldRule}

theorem defaultOf_congr {type : ColumnType} {rule rule' : FieldRule}
    (hnullable : rule.IsNullable ↔ rule'.IsNullable)
    (hdefault : rule.defaultValue = rule'.defaultValue) :
    Column.defaultOf type rule = Column.defaultOf type rule' := by
  unfold Column.defaultOf
  rw [hdefault]
  cases rule'.defaultValue with
  | none => simp only [hnullable]
  | some v =>
    obtain ⟨value, normal⟩ := v
    cases value <;> simp only [hnullable]

/-- A column type and nullability are all that a column takes from the tags. -/
theorem ofField_congr {types : TypeSet} {type : ColumnType}
    (htype : ColumnType.ofRule? rule = some type)
    (htype' : ColumnType.ofRule? { rule with types } = some type)
    (hnullable : types.IsNullable ↔ rule.types.IsNullable) :
    Column.ofField model name { rule with types } = Column.ofField model name rule := by
  have hnull : decide (FieldRule.IsNullable { rule with types }) = decide rule.IsNullable :=
    decide_eq_decide.2 hnullable
  have hdefault : Column.defaultOf type { rule with types } = Column.defaultOf type rule :=
    defaultOf_congr hnullable rfl
  unfold Column.ofField Column.ofRule
  rw [htype, htype']
  dsimp only
  rw [hdefault, hnull]
  rfl

/-- Tags with deciding tags of one rank, nullable both or neither. -/
theorem ofField_eq_of_wins {types : TypeSet} {t t' : TypeTag} (h : rule.types.Wins t)
    (h' : types.Wins t') (hrank : t'.rank = t.rank)
    (hnullable : types.IsNullable ↔ rule.types.IsNullable) :
    Column.ofField model name { rule with types } = Column.ofField model name rule := by
  have htype := ColumnType.ofRule?_eq_ofTag? h
  have htype' : ColumnType.ofRule? { rule with types } = ColumnType.ofTag? rule t' :=
    ColumnType.ofRule?_eq_ofTag? h'
  obtain ⟨type, hsome⟩ : ∃ type, ColumnType.ofRule? rule = some type := by
    rw [← Option.ne_none_iff_exists', Ne, ofRule?_eq_none, ← typed_iff, ← TypeSet.exists_wins]
    exact ⟨t, h⟩
  have hsame : ColumnType.ofTag? rule t' = some type :=
    (ColumnType.ofTag?_congr hrank).trans (htype.symm.trans hsome)
  exact ofField_congr hsome (htype'.trans hsame) hnullable

/-- The error that a field without a deciding tag has, with the tags that it lists. -/
def noColumnType (model : Model) (name : String) (types : TypeSet) : SchemaError :=
  .malformedField model.name name (.noColumnType types)

theorem ofField_eq_noColumnType {types : TypeSet} :
    Column.ofField model name rule = .error (noColumnType model name types) ↔
      (∀ t ∈ rule.types, t = .null) ∧ types = rule.types := by
  rw [ofField_eq_error]
  constructor
  · rintro ⟨defect, hfault, h⟩
    cases h
    cases hfault with
    | noColumnType untyped => exact ⟨untyped, rfl⟩
  · rintro ⟨huntyped, rfl⟩
    exact ⟨_, .noColumnType huntyped, rfl⟩

/-- What a field comes to depends on its tags through the deciding one and nullability. Nothing
changes, no error either, when that tag alone is left, followed by `null` where it was there, and
when the tags are put in another order, repeated, or extended by tags behind the deciding one. There
is no column type, which is then what the error says, exactly where no tag but `null` is there. -/
theorem ofField_decidingTag (model : Model) (name : String) (rule : FieldRule) :
    (∀ t, rule.types.Wins t → Column.ofField model name { rule with types := rule.types.reduced t } =
        Column.ofField model name rule) ∧
      ((∃ t, rule.types.Wins t) ↔ ∃ t ∈ rule.types, t ≠ .null) ∧
      (∀ types : TypeSet, (∀ t, t ∈ types ↔ t ∈ rule.types) → ∀ outcome,
        (∀ listed, outcome ≠ .error (noColumnType model name listed)) →
          (Column.ofField model name { rule with types } = outcome ↔
            Column.ofField model name rule = outcome)) ∧
      (∀ t, rule.types.Wins t → ∀ types : TypeSet, (∀ u ∈ rule.types, u ∈ types) →
        (∀ u ∈ types, u ∈ rule.types ∨ u ≠ .null ∧ t.rank ≤ u.rank) →
          Column.ofField model name { rule with types } = Column.ofField model name rule) ∧
      ((∃ listed, Column.ofField model name rule = .error (noColumnType model name listed)) ↔
        ∀ t ∈ rule.types, t = .null) := by
  have hextended : ∀ t, rule.types.Wins t → ∀ types : TypeSet, (∀ u ∈ rule.types, u ∈ types) →
      (∀ u ∈ types, u ∈ rule.types ∨ u ≠ .null ∧ t.rank ≤ u.rank) →
        Column.ofField model name { rule with types } = Column.ofField model name rule := by
    intro t h types hsub hadd
    have h' : types.Wins t := h.mono hsub fun u hu => (hadd u hu).imp_right And.right
    refine ofField_eq_of_wins h h' rfl ⟨fun hnull => ?_, hsub _⟩
    exact (hadd _ hnull).elim id fun hnew => absurd rfl hnew.1
  refine ⟨fun t h => ?_, TypeSet.exists_wins, ?_, hextended, ?_⟩
  · exact ofField_eq_of_wins h h.reduced rfl (TypeSet.isNullable_reduced h.ne_null)
  · intro types hsame outcome hother
    by_cases htyped : ∃ t ∈ rule.types, t ≠ .null
    · obtain ⟨t, h⟩ := TypeSet.exists_wins.2 htyped
      rw [hextended t h types (fun u => (hsame u).2) fun u hu => .inl ((hsame u).1 hu)]
    · -- without a deciding tag both fail, and the outcome is neither of the two errors
      have huntyped : ∀ t ∈ rule.types, t = .null := Classical.not_not.1 (mt typed_iff.2 htyped)
      have huntyped' : ∀ t ∈ types, t = .null := fun t ht => huntyped t ((hsame t).1 ht)
      have herror : Column.ofField model name rule = .error (noColumnType model name rule.types) :=
        ofField_eq_noColumnType.2 ⟨huntyped, rfl⟩
      have herror' : Column.ofField model name { rule with types } =
          .error (noColumnType model name types) :=
        ofField_eq_noColumnType.2 ⟨huntyped', rfl⟩
      rw [herror, herror']
      exact iff_of_false (hother _).symm (hother _).symm
  · simp only [ofField_eq_noColumnType, exists_and_left, exists_eq, and_true]

end Mysql

end OrmDdl
