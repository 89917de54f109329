import OrmDdl.NameMap
import OrmDdl.Proofs.Json.Typed
/-!
# Name maps from lists

`NameMap.ofList_entries`: a map is the map of its own entries. A name that is new goes to the end
(`Named.put_of_not_mem`), so inserting entries of distinct names one after the other rebuilds them.
A printed map is read back for this reason (`NameMap.reads`).
-/

namespace OrmDdl

namespace NameMap

variable {α : Type}

theorem ext {m n : NameMap α} (h : m.entries = n.entries) : m = n := by
  cases m
  cases n
  cases h
  rfl

/-- Inserting further entries of new names appends them. -/
theorem entries_foldl_insert (l : List (String × α)) : ∀ m : NameMap α,
    (m.names ++ l.map Prod.fst).Nodup →
      (l.foldl (fun m p => m.insert p.1 p.2) m).entries = m.entries ++ l := by
  induction l with
  | nil =>
    intro m _
    rw [List.append_nil]
    rfl
  | cons p r ih =>
    intro m h
    have hp : p.1 ∉ m.entries.map Prod.fst := by
      intro hmem
      rw [List.nodup_append] at h
      exact h.2.2 _ hmem _ (by simp) rfl
    have hput : (m.insert p.1 p.2).entries = m.entries ++ [p] := Named.put_of_not_mem p.2 hp
    have hnames : (m.insert p.1 p.2).names = m.names ++ [p.1] := by
      unfold names
      rw [hput, List.map_append]
      rfl
    have hnodup : ((m.insert p.1 p.2).names ++ r.map Prod.fst).Nodup := by
      rw [hnames, List.append_assoc]
      exact h
    rw [List.foldl_cons, ih _ hnodup, hput, List.append_assoc]
    rfl

/-- A map is the map of its own entries. -/
theorem ofList_entries (m : NameMap α) : ofList m.entries = m :=
  ext (entries_foldl_insert m.entries ∅ m.nodup)

open Json Json.Reader in
theorem reads {value : Nat → Reader α} {f : α → Json} {m : NameMap α} {depth : Nat} {l : Option Nat}
    (h : ∀ p ∈ m.entries, Reads (value depth) (print (l.map (· + 1)) (f p.2)) p.2) :
    Reads (read value (depth + 1)) (print l (m.toJson f)) m := by
  have hread := (named_reads h).map ofList
  rw [ofList_entries] at hread
  exact hread

end NameMap

end OrmDdl
