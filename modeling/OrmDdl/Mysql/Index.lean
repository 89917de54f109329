import OrmDdl.Model.Basic
/-!
# Indexes

Relations point at columns that are worth an index. Targets are gathered over all models of a
batch, each once, in the order in which they are first met.
-/

namespace OrmDdl.Mysql

/-- A column to index. -/
structure IndexTarget where
  table : String
  column : String
deriving DecidableEq

namespace IndexTarget

def name (t : IndexTarget) : String := "index_" ++ t.table ++ "__" ++ t.column

def sql (t : IndexTarget) : String :=
  "CREATE INDEX " ++ t.name ++ " ON " ++ t.table ++ " (" ++ t.column ++ ");"

end IndexTarget

/-- Index targets, each once, in the order in which they came, and a test for whether one is among
them. -/
structure IndexSet where
  targets : List IndexTarget
  seen : IndexTarget → Bool
  nodup : targets.Nodup
  seen_iff : ∀ t, seen t = true ↔ t ∈ targets

namespace IndexSet

instance : EmptyCollection IndexSet :=
  ⟨{ targets := [], seen := fun _ => false, nodup := .nil, seen_iff := by simp }⟩

instance : Membership IndexTarget IndexSet := ⟨fun s t => t ∈ s.targets⟩

theorem mem_iff {t : IndexTarget} {s : IndexSet} : t ∈ s ↔ t ∈ s.targets := Iff.rfl

instance (t : IndexTarget) (s : IndexSet) : Decidable (t ∈ s) :=
  decidable_of_iff (s.seen t = true) (s.seen_iff t)

/-- The set with a target at its end, unless it is there already, and whether it is new. -/
def add (s : IndexSet) (t : IndexTarget) : Bool × IndexSet :=
  if h : t ∈ s then (false, s)
  else (true, {
    targets := s.targets ++ [t]
    seen := fun u => u == t || s.seen u
    nodup := by
      rw [mem_iff] at h
      simp only [List.nodup_append, List.nodup_cons, List.not_mem_nil, not_false_eq_true,
        List.nodup_nil, and_self, List.mem_cons, or_false, true_and]
      exact ⟨s.nodup, fun a ha b hb hab => h (hb ▸ hab ▸ ha)⟩
    seen_iff := fun u => by
      rw [Bool.or_eq_true, beq_iff_eq, s.seen_iff, List.mem_append, List.mem_singleton]
      exact Or.comm })

def insert (s : IndexSet) (t : IndexTarget) : IndexSet := (s.add t).2

theorem targets_insert (s : IndexSet) (t : IndexTarget) :
    (s.insert t).targets = if t ∈ s then s.targets else s.targets ++ [t] := by
  unfold insert add
  split <;> rfl

/-- The set with targets inserted one after the other. -/
def insertAll (s : IndexSet) (targets : List IndexTarget) : IndexSet := targets.foldl insert s

def sql (s : IndexSet) : List String := s.targets.map IndexTarget.sql

end IndexSet

/-- The columns that a relation points at. A junction needs its model and its key. -/
def relationTargets (r : Relation) : Except RelationDefect (List IndexTarget) :=
  match r.mode with
  | .child | .children => .ok [⟨r.b.table, r.bKey⟩]
  | .parent => .ok [⟨r.a.table, r.aKey⟩]
  | .through =>
    match r.via, r.viaAKey with
    | none, _ => .error .noJunction
    | some _, none => .error .noJunctionKey
    | some via, some viaAKey => .ok [⟨via.table, viaAKey⟩, ⟨r.b.table, r.bKey⟩]

/-- Gathers the targets of relations in order. At a malformed one it stops with the targets of
those before it. -/
def gather (model : String) : List (String × Relation) → IndexSet → Option SchemaError × IndexSet
  | [], s => (none, s)
  | (name, relation) :: r, s =>
    match relationTargets relation with
    | .error defect => (some (.malformedRelation model name defect), s)
    | .ok targets => gather model r (s.insertAll targets)

/-- Adds the targets of a model's relations to a set. -/
def collectIndexes (model : Model) (s : IndexSet) : Option SchemaError × IndexSet :=
  gather model.name model.relations.entries s

end OrmDdl.Mysql
