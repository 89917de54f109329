import OrmDdl.Model.Basic
import OrmDdl.Proofs.Json.Fields
import OrmDdl.Proofs.Json.Normal
import OrmDdl.Proofs.Json.Typed
import OrmDdl.Proofs.NameMap
/-!
# Models are read back

`Model.reads`: the printed object of a model is read as that model, if its doubles read back and its
brackets may be opened. Every part of a model has the same lemma. Members that stand for absent
values are left out of the text; they are absent in what is read as well, because a record starts
from fields that are all absent and takes a field only from its member.
-/

namespace OrmDdl

open Json (print Record Slot)
open Json.Reader

variable {l : Option Nat} {depth : Nat}

/-! ## Tags -/

theorem TypeTag.decode_name (t : TypeTag) : decode t.name = .ok t := by
  unfold decode
  rw [ofName?_name]

theorem TypeTag.reads (t : TypeTag) (depth : Nat) : Reads (read depth) (print l t.toJson) t :=
  variant_reads t.decode_name depth

namespace TypeSet

theorem reads_single (t : TypeTag) (depth : Nat) :
    Reads (read depth) (print l t.toJson) (single t) where
  opens := stringChars_opens t.name
  ok s rest hs _ := by
    unfold read
    rw [bind_ok (start_cons hs)]
    exact bind_ok (decoded_ok t.decode_name rest)

theorem reads_list (tags : List TypeTag) (depth : Nat) :
    Reads (read (depth + 1)) (print l (.array (tags.map TypeTag.toJson))) ⟨tags⟩ where
  opens := print_array_opens _
  ok s rest hs _ := by
    unfold read
    rw [bind_ok (start_array hs)]
    exact bind_ok (inList_print rest fun t _ => t.reads depth)

/-- One tag is read from a string, any other number of tags from a list. -/
theorem reads (s : TypeSet) (hn : s.toJson.nesting ≤ depth) :
    Reads (read depth) (print l s.toJson) s := by
  obtain ⟨tags⟩ := s
  match tags with
  | [t] => exact reads_single t depth
  | [] =>
    obtain ⟨k, rfl, -⟩ := Json.exists_of_nesting_array_le hn
    exact reads_list [] k
  | t :: u :: r =>
    obtain ⟨k, rfl, -⟩ := Json.exists_of_nesting_array_le hn
    exact reads_list (t :: u :: r) k

end TypeSet

/-! ## Fields -/

namespace FieldRule

/-- The numbers of a rule that are not exact: its bounds, and what its default holds of them. -/
def doubles (r : FieldRule) : List Double :=
  r.min.toList ++ r.max.toList ++ (r.defaultValue.map (·.value.doubles)).toList.flatten

theorem min_readsBack {r : FieldRule} (h : ∀ x ∈ r.doubles, x.ReadsBack) :
    ∀ x ∈ r.min, x.ReadsBack := by
  intro x hx
  exact h x (by simp [doubles, Option.mem_def.1 hx])

theorem max_readsBack {r : FieldRule} (h : ∀ x ∈ r.doubles, x.ReadsBack) :
    ∀ x ∈ r.max, x.ReadsBack := by
  intro x hx
  exact h x (by simp [doubles, Option.mem_def.1 hx])

theorem defaultValue_readsBack {r : FieldRule} (h : ∀ x ∈ r.doubles, x.ReadsBack) :
    ∀ v ∈ r.defaultValue, ∀ x ∈ v.value.doubles, x.ReadsBack := by
  intro v hv x hx
  exact h x (by simp [doubles, Option.mem_def.1 hv, hx])

theorem reads_default (v : Literal) (hn : v.value.nesting ≤ depth)
    (h : ∀ x ∈ v.value.doubles, x.ReadsBack) :
    Reads (Literal.ofJson <$> value depth) (print l v.value) v := by
  have hread := (reads_value v.value depth l hn h).map Literal.ofJson
  rw [Literal.ofJson_value] at hread
  exact hread

/-- The fields of a rule once its members are read, of which the optional ones may be there. -/
def draft (types : TypeSet) (min max : Option Double) (defaultValue : Option Literal) : Draft where
  types := some types
  min := min.map some
  max := max.map some
  defaultValue := defaultValue

theorem finish_draft (r : FieldRule) :
    record.finish (draft r.types r.min r.max r.defaultValue) = .ok r := by
  obtain ⟨types, min, max, defaultValue⟩ := r
  cases min <;> cases max <;> rfl

theorem reads (r : FieldRule) (hn : r.toJson.nesting ≤ depth) (h : ∀ x ∈ r.doubles, x.ReadsBack) :
    Reads (read depth) (print l r.toJson) r := by
  obtain ⟨k, rfl, hk⟩ := Json.exists_of_nesting_object_le hn
  have htypes : Reads (TypeSet.read k) (print (l.map (· + 1)) r.types.toJson) r.types :=
    r.types.reads (hk ("type", r.types.toJson) (by simp))
  have hbound : ∀ x : Double, x.ReadsBack →
      Reads (optional double) (print (l.map (· + 1)) (.ofDouble x)) (some x) :=
    fun x hx => optional_reads (double_reads hx) (head?_ofDouble hx)
  have hdefault : ∀ v ∈ r.defaultValue,
      Reads (Literal.ofJson <$> value k) (print (l.map (· + 1)) v.value) v := by
    intro v hv
    refine reads_default v (hk ("default", v.value) ?_) (defaultValue_readsBack h v hv)
    simp [Option.mem_def.1 hv]
  have fills₁ : record.Fills k l {} [("type", r.types.toJson)] (draft r.types none none none) :=
    .one _ rfl rfl (Slot.reads _ htypes)
  have fills₂ : record.Fills k l (draft r.types none none none)
      (r.min.map fun x => ("min", .ofDouble x)).toList (draft r.types r.min none none) :=
    .optional r.min _ (draft r.types · none none) _ rfl rfl
      fun x hx => Slot.reads _ (hbound x (min_readsBack h x hx))
  have fills₃ : record.Fills k l (draft r.types r.min none none)
      (r.max.map fun x => ("max", .ofDouble x)).toList (draft r.types r.min r.max none) :=
    .optional r.max _ (draft r.types r.min · none) _ rfl rfl
      fun x hx => Slot.reads _ (hbound x (max_readsBack h x hx))
  have fills₄ : record.Fills k l (draft r.types r.min r.max none)
      (r.defaultValue.map fun v => ("default", v.value)).toList
      (draft r.types r.min r.max r.defaultValue) :=
    .optional r.defaultValue _ (draft r.types r.min r.max) _ rfl rfl
      fun v hv => Slot.reads _ (hdefault v hv)
  exact Record.reads_object (((fills₁.append fills₂).append fills₃).append fills₄) r.finish_draft

end FieldRule

/-! ## Relations -/

theorem RelationMode.reads (m : RelationMode) (depth : Nat) :
    Reads (read depth) (print l m.toJson) m := by
  have hdecode : (Except.ok (ofName m.name) : Except Json.Cause RelationMode) = .ok m := by
    rw [ofName_name]
  exact variant_reads hdecode depth

theorem ModelRef.reads (m : ModelRef) (hn : m.toJson.nesting ≤ depth) :
    Reads (read depth) (print l m.toJson) m := by
  obtain ⟨k, rfl, -⟩ := Json.exists_of_nesting_object_le hn
  have fills : record.Fills k l {} [("name", .string m.name), ("table", .string m.table)]
      { name := some m.name, table := some m.table } :=
    .cons _ rfl rfl (Slot.reads _ (text_reads m.name)) <|
    .one _ rfl rfl (Slot.reads _ (text_reads m.table))
  exact Record.reads_object fills rfl

/-- A printed reference does not start like `null`. -/
theorem ModelRef.head?_toJson (m : ModelRef) : (print l m.toJson).head? ≠ some 'n' := nofun

namespace Relation

/-- The fields of a relation once its members are read, of which the last two may be there. -/
def draft (r : Relation) (via : Option ModelRef) (viaAKey : Option String) : Draft where
  mode := some r.mode
  a := some r.a
  b := some r.b
  aKey := some r.aKey
  bKey := some r.bKey
  via := via.map some
  viaAKey := viaAKey.map some

theorem finish_draft (r : Relation) : record.finish (r.draft r.via r.viaAKey) = .ok r := by
  obtain ⟨mode, a, b, aKey, bKey, via, viaAKey⟩ := r
  cases via <;> cases viaAKey <;> rfl

theorem reads (r : Relation) (hn : r.toJson.nesting ≤ depth) :
    Reads (read depth) (print l r.toJson) r := by
  obtain ⟨k, rfl, hk⟩ := Json.exists_of_nesting_object_le hn
  have ha : Reads (ModelRef.read k) (print (l.map (· + 1)) r.a.toJson) r.a :=
    r.a.reads (hk ("a", r.a.toJson) (by simp))
  have hb : Reads (ModelRef.read k) (print (l.map (· + 1)) r.b.toJson) r.b :=
    r.b.reads (hk ("b", r.b.toJson) (by simp))
  have hvia : ∀ m ∈ r.via,
      Reads (optional (ModelRef.read k)) (print (l.map (· + 1)) m.toJson) (some m) := by
    intro m hm
    have hm : m.toJson.nesting ≤ k := hk ("class_via", m.toJson) (by simp [Option.mem_def.1 hm])
    exact optional_reads (m.reads hm) m.head?_toJson
  have hviaAKey : ∀ key ∈ r.viaAKey,
      Reads (optional text) (print (l.map (· + 1)) (.string key)) (some key) :=
    fun key _ => optional_reads (text_reads key) nofun
  have fills₁ : record.Fills k l {} [("mode", r.mode.toJson), ("a", r.a.toJson), ("b", r.b.toJson),
      ("a_key", .string r.aKey), ("b_key", .string r.bKey)] (r.draft none none) :=
    .cons _ rfl rfl (Slot.reads _ (r.mode.reads k)) <|
    .cons _ rfl rfl (Slot.reads _ ha) <|
    .cons _ rfl rfl (Slot.reads _ hb) <|
    .cons _ rfl rfl (Slot.reads _ (text_reads r.aKey)) <|
    .one _ rfl rfl (Slot.reads _ (text_reads r.bKey))
  have fills₂ : record.Fills k l (r.draft none none)
      (r.via.map fun m => ("class_via", m.toJson)).toList (r.draft r.via none) :=
    .optional r.via _ (r.draft · none) _ rfl rfl fun m hm => Slot.reads _ (hvia m hm)
  have fills₃ : record.Fills k l (r.draft r.via none)
      (r.viaAKey.map fun key => ("via_a_key", .string key)).toList (r.draft r.via r.viaAKey) :=
    .optional r.viaAKey _ (r.draft r.via) _ rfl rfl fun key hkey => Slot.reads _ (hviaAKey key hkey)
  exact Record.reads_object ((fills₁.append fills₂).append fills₃) r.finish_draft

end Relation

/-! ## Models -/

namespace Model

/-- The numbers of a model that are not exact. -/
def doubles (m : Model) : List Double := m.fields.entries.flatMap fun p => p.2.doubles

theorem reads (m : Model) (hn : m.toJson.nesting ≤ depth) (h : ∀ x ∈ m.doubles, x.ReadsBack) :
    Reads (read depth) (print l m.toJson) m := by
  obtain ⟨k, rfl, hk⟩ := Json.exists_of_nesting_object_le hn
  have hfields : Reads (NameMap.read FieldRule.read k)
      (print (l.map (· + 1)) (m.fields.toJson FieldRule.toJson)) m.fields := by
    obtain ⟨n, rfl, hfield⟩ := Json.exists_of_nesting_object_le
      (hk ("validation_rules", m.fields.toJson FieldRule.toJson) (by simp))
    refine NameMap.reads fun p hp => p.2.reads (hfield (p.1, p.2.toJson) ?_) fun x hx => h x ?_
    · exact List.mem_map_of_mem hp
    · exact List.mem_flatMap.2 ⟨p, hp, hx⟩
  have hrelations : Reads (NameMap.read Relation.read k)
      (print (l.map (· + 1)) (m.relations.toJson Relation.toJson)) m.relations := by
    obtain ⟨n, rfl, hrelation⟩ := Json.exists_of_nesting_object_le
      (hk ("available_relations", m.relations.toJson Relation.toJson) (by simp))
    refine NameMap.reads fun p hp => p.2.reads (hrelation (p.1, p.2.toJson) ?_)
    exact List.mem_map_of_mem hp
  have fills : record.Fills k l {} [("name", .string m.name), ("table", .string m.table),
      ("id_key", .string m.idKey), ("validation_rules", m.fields.toJson FieldRule.toJson),
      ("available_relations", m.relations.toJson Relation.toJson)]
      ⟨some m.name, some m.table, some m.idKey, some m.fields, some m.relations⟩ :=
    .cons _ rfl rfl (Slot.reads _ (text_reads m.name)) <|
    .cons _ rfl rfl (Slot.reads _ (text_reads m.table)) <|
    .cons _ rfl rfl (Slot.reads _ (text_reads m.idKey)) <|
    .cons _ rfl rfl (Slot.reads _ hfields) <|
    .one _ rfl rfl (Slot.reads _ hrelations)
  exact Record.reads_object fills rfl

end Model

end OrmDdl
