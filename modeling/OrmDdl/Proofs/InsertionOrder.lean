import Mathlib.Data.List.Induction
import OrmDdl.Proofs.Json.Samples
import OrmDdl.Proofs.NameMap
/-!
# Insertion order

`NameMap.ofList_insertionOrder`: entries that are inserted one by one, collected, or read as the
members of an object make one map. It is the only map with their names, each where it first came,
and the last value of each (`NameMap.Holds`). One more entry keeps this (`Holds.insert`), since an
insertion replaces a value in its place or appends a name (`NameMap.replaces`); that the entries of
any sequence are so held is an induction from its end. Reading goes by the tree that a text denotes
and asks the same of the reader of the values, as the readers of rules and relations do
(`FieldRule.carried`, `Relation.carried`).
-/

namespace OrmDdl

/-! ## Entries -/

namespace Named

variable {α : Type} {name : String} {l : List (String × α)}

/-- Putting a value under a name that is there replaces the entry of the name. -/
theorem put_of_mem (hl : (l.map Prod.fst).Nodup) (hname : name ∈ l.map Prod.fst) (value : α) :
    put name value l = l.map fun e => if e.1 = name then (name, value) else e := by
  induction l with
  | nil => cases hname
  | cons e r ih =>
    obtain ⟨k, v⟩ := e
    rw [List.map_cons, List.nodup_cons] at hl
    unfold put
    rw [List.map_cons]
    by_cases hk : k = name
    · -- no other entry has the name
      have hr : r.map (fun e => if e.1 = name then (name, value) else e) = r := by
        refine (List.map_congr_left fun e he => if_neg fun heq => hl.1 ?_).trans (List.map_id r)
        exact List.mem_map.2 ⟨e, he, heq.trans hk.symm⟩
      rw [if_pos hk, if_pos hk, hr, hk]
    · have hrest := (List.mem_cons.1 hname).resolve_left (Ne.symm hk)
      rw [if_neg hk, if_neg hk, ih hl.2 hrest]

end Named

namespace NameMap

variable {α : Type} {m n : NameMap α} {name : String}

theorem get?_insert (m : NameMap α) (name other : String) (value : α) :
    (m.insert name value).get? other = if other = name then some value else m.get? other := by
  by_cases h : other = name
  · rw [if_pos h, h]
    exact Named.lookup_put_self name value m.entries
  · rw [if_neg h]
    exact Named.lookup_put_of_ne h value m.entries

theorem get?_eq_some {value : α} : m.get? name = some value ↔ (name, value) ∈ m.entries :=
  Named.lookup_eq_some_iff_mem m.nodup

theorem get?_eq_none : m.get? name = none ↔ name ∉ m.names := by
  rw [get?, List.lookup_eq_none_iff, names, List.mem_map]
  simp only [bne_iff_ne, ne_eq, not_exists, not_and]
  exact forall₂_congr fun e _ => not_congr eq_comm

/-- A map is known by its names in order and their values. -/
theorem ext_get? (hnames : m.names = n.names) (hget : ∀ name, m.get? name = n.get? name) :
    m = n := by
  have hentries : ∀ m : NameMap α,
      m.entries.map (fun e => (e.1, some e.2)) = m.names.map fun name => (name, m.get? name) := by
    intro m
    rw [names, List.map_map]
    exact List.map_congr_left fun e he => congrArg (Prod.mk e.1) (get?_eq_some.2 he).symm
  have hinjective : Function.Injective fun e : String × α => (e.1, some e.2) := by
    rintro ⟨k, v⟩ ⟨k', v'⟩ h
    cases h
    rfl
  refine ext (List.map_injective_iff.2 hinjective ?_)
  rw [hentries, hentries, hnames]
  exact List.map_congr_left fun name _ => congrArg (Prod.mk name) (hget name)

/-! ## Insertion -/

/-- What an insertion gives back is the value that was there, none if the name is new. It replaces
the entry of the name in its place, or appends it, and leaves all others as they are. -/
structure Replaces (m : NameMap α) (name : String) (value : α) (result : Option α × NameMap α) :
    Prop where
  old : ∀ v, result.1 = some v ↔ (name, v) ∈ m.entries
  isNew : result.1 = none ↔ name ∉ m.names
  inPlace : name ∈ m.names →
    result.2.entries = m.entries.map fun e => if e.1 = name then (name, value) else e
  atEnd : name ∉ m.names → result.2.entries = m.entries ++ [(name, value)]
  others : ∀ other, other ≠ name → result.2.get? other = m.get? other
  current : result.2.get? name = some value

theorem replaces (m : NameMap α) (name : String) (value : α) :
    m.Replaces name value (m.replace name value) where
  old _ := get?_eq_some
  isNew := get?_eq_none
  inPlace h := Named.put_of_mem m.nodup h value
  atEnd h := Named.put_of_not_mem value h
  others other h := (m.get?_insert name other value).trans (if_neg h)
  current := (m.get?_insert name name value).trans (if_pos rfl)

/-! ## Sequences -/

/-- The map has the names of the entries, each where it first came, and the last value of each. -/
structure Holds (m : NameMap α) (entries : List (String × α)) : Prop where
  names : m.names = (entries.map Prod.fst).eraseDups
  get? : ∀ name, m.get? name = entries.reverse.lookup name

namespace Holds

variable {entries : List (String × α)}

theorem empty : (∅ : NameMap α).Holds [] := ⟨rfl, fun _ => rfl⟩

/-- A further entry is held after its insertion. -/
theorem insert (h : m.Holds entries) (name : String) (value : α) :
    (m.insert name value).Holds (entries ++ [(name, value)]) where
  names := by
    rw [names_insert, h.names, List.map_append, List.eraseDups_append]
    simp only [List.mem_eraseDups]
    by_cases hname : name ∈ entries.map Prod.fst
    · simp [List.removeAll, hname]
    · simp [List.removeAll, hname, List.eraseDups_cons]
  get? other := by
    rw [get?_insert, h.get?, List.reverse_append]
    exact (Named.lookup_cons other name value _).symm

theorem unique (h : m.Holds entries) (h' : n.Holds entries) : m = n :=
  ext_get? (h.names.trans h'.names.symm) fun name => (h.get? name).trans (h'.get? name).symm

end Holds

theorem ofList_append_singleton (entries : List (String × α)) (e : String × α) :
    ofList (entries ++ [e]) = (ofList entries).insert e.1 e.2 := by
  unfold ofList
  rw [List.foldl_append]
  rfl

/-- The entries are held, whatever names repeat. -/
theorem holds_ofList (entries : List (String × α)) : (ofList entries).Holds entries := by
  induction entries using List.reverseRecOn with
  | nil => exact .empty
  | append_singleton entries e ih =>
    rw [ofList_append_singleton]
    exact ih.insert e.1 e.2

end NameMap

/-! ## Texts -/

namespace Json

open Reader

/-- The text of a member inside an object. -/
def printMember (l : Option Nat) (m : String × Json) : List Char :=
  lineBreak (l.map (· + 1)) ++ (label l m.1 ++ print (l.map (· + 1)) m.2)

theorem append_printMembers (l : Option Nat) (ms : List (String × Json)) : ∀ text : List Char,
    text ++ printMembers l ms =
      [','].intercalate (text :: ms.map (printMember l)) ++ (lineBreak l ++ ['\x7d']) := by
  induction ms with
  | nil =>
    intro text
    simp [printMembers]
  | cons m ms ih =>
    intro text
    rw [List.map_cons, List.intercalate_cons_cons, List.append_assoc, ← ih, printMembers]
    simp [printMember, label]

/-- The members of an object are written in order, with commas between them. -/
theorem print_object (l : Option Nat) (ms : List (String × Json)) :
    print l (.object ms) = '\x7b' ::
      ([','].intercalate (ms.map (printMember l)) ++ (trail l ms.isEmpty ++ ['\x7d'])) := by
  cases ms with
  | nil => simp [print, trail]
  | cons m ms =>
    have htrail : trail l (m :: ms).isEmpty = lineBreak l := rfl
    rw [List.map_cons, htrail, ← append_printMembers]
    simp [print, printMember, label]

end Json

/-! ## Maps of sequences -/

namespace NameMap

open Json Json.Reader

variable {α : Type}

/-- A map is written with each of its names once, in their order. -/
theorem print_toJson (l : Option Nat) (toValue : α → Json) (m : NameMap α) :
    print l (m.toJson toValue) = '\x7b' ::
      ([','].intercalate (m.entries.map fun e => printMember l (e.1, toValue e.2)) ++
        (trail l m.isEmpty ++ ['\x7d'])) := by
  unfold toJson isEmpty
  rw [print_object, List.map_map, List.isEmpty_map]
  rfl

section

variable {value : Nat → Reader α} {f : Nat → Tree → Option α}
  (hvalue : ∀ n, Denotes (value n) (f n))

include hvalue

/-- An object is read as the map of its members in the order of the text. -/
theorem denotes_read (n : Nat) :
    Denotes (read value n) fun t => (Tree.named? f n t).map ofList :=
  (denotes_named hvalue n).map ofList

/-- Entries inserted one by one, collected, or read as the members of an object are one map, the
only one with their names where they first came and the last value of each. In any sequence an
insertion gives back the last value before it and leaves all else in its place, and the map is
written with each name once in their order. -/
theorem ofList_insertionOrder (pairs : List (String × α)) :
    pairs.foldl (fun m e => (m.replace e.1 e.2).2) ∅ = ofList pairs ∧
      (∀ n members text, DocumentOf (.object members) text →
        members.mapM (Tree.member? (f n)) = some pairs →
        (read value (n + 1)).run text = .ok (ofList pairs)) ∧
      (ofList pairs).names.Nodup ∧
      (∀ m : NameMap α, m.Holds pairs ↔ m = ofList pairs) ∧
      (∀ before name (v : α), (ofList before).replace name v =
        (before.reverse.lookup name, ofList (before ++ [(name, v)]))) ∧
      (∀ (m : NameMap α) name v, m.Replaces name v (m.replace name v)) ∧
      ∀ l toValue, print l ((ofList pairs).toJson toValue) = '\x7b' ::
        ([','].intercalate ((ofList pairs).entries.map fun e => printMember l (e.1, toValue e.2)) ++
          (trail l (ofList pairs).isEmpty ++ ['\x7d'])) := by
  have hholds := holds_ofList pairs
  refine ⟨rfl, fun n members text h hmembers => ?_, (ofList pairs).nodup, fun m => ?_,
    fun before name v => ?_, replaces, fun l toValue => print_toJson l toValue _⟩
  · exact (h.run_eq_ok_iff (denotes_read hvalue (n + 1))).2 (congrArg (Option.map ofList) hmembers)
  · refine ⟨fun h => h.unique hholds, ?_⟩
    rintro rfl
    exact hholds
  · rw [ofList_append_singleton, ← (holds_ofList before).get?]
    rfl

end

/-- An object with a name that comes twice. -/
def relayed : List (String × Sample) :=
  [("zeta", .string "first" (by decide)), ("alpha", .string "only" (by decide)),
    ("zeta", .string "last" (by decide))]

theorem ofList_insertionOrder_relayed : ∃ m : NameMap String,
    (read (fun _ => text) maxDepth).run
      "\x7b\"zeta\":\"first\",\"alpha\":\"only\",\"zeta\":\"last\"\x7d" = .ok m ∧
      m.entries = [("zeta", "last"), ("alpha", "only")] ∧
      String.ofList (print none (m.toJson .string)) =
        "\x7b\"zeta\":\"last\",\"alpha\":\"only\"\x7d" := by
  have hunescaped : ∀ m ∈ relayed, m.1.toList.all isUnescaped = true := by decide
  have hdocument := (Sample.hasText_members hunescaped).documentOf
  obtain ⟨-, hread, -⟩ := ofList_insertionOrder (fun _ => denotes_text)
    [("zeta", "first"), ("alpha", "only"), ("zeta", "last")]
  exact ⟨_, hread 126 _ _ hdocument rfl, by decide, by decide⟩

end NameMap

end OrmDdl
