import OrmDdl.Proofs.Json.Rearranged
/-!
# Texts without blanks

A `Sample` is a tree with a text of it that has no blanks and no escapes. Samples are put together
as trees are, so a document that is given piece by piece is known to denote its tree.
-/

namespace OrmDdl.Json

theorem StringOf.of_unescaped {s : String} (h : s.toList.all isUnescaped = true) :
    StringOf (some s) s.toList where
  stringText := .of_unescaped h
  spells s' := by
    constructor
    · rintro ⟨⟩
      exact .of_unescaped h
    · intro hs'
      exact congrArg some (String.toList_inj.1 ((Spells.of_unescaped h).unique hs'))

/-- A tree that names no member twice, with a text of it. -/
structure Sample where
  tree : Tree
  text : List Char
  hasText : HasText tree text
  unrepeated : tree.Unrepeated

namespace Sample

/-- Pieces with nothing but commas between them. -/
def joined : List (List Char) → List Char
  | [] => []
  | piece :: pieces => piece ++ pieces.flatMap (',' :: ·)

theorem listed_joined (pieces : List (List Char)) : Listed true pieces (joined pieces) := by
  have hcomma : LeadsIn false [','] := ⟨[], [], rfl, List.forall_mem_nil _, List.forall_mem_nil _⟩
  have hmore : ∀ pieces : List (List Char), Listed false pieces (pieces.flatMap (',' :: ·)) := by
    intro pieces
    induction pieces with
    | nil => exact .nil (List.forall_mem_nil _)
    | cons piece pieces ih => exact .cons hcomma ih
  cases pieces with
  | nil => exact .nil (List.forall_mem_nil _)
  | cons piece pieces => exact .cons leadsIn_nil (hmore pieces)

def null : Sample where
  tree := .null
  text := "null".toList
  hasText := .null
  unrepeated := .null

def string (s : String) (h : s.toList.all isUnescaped = true) : Sample where
  tree := .string (some s)
  text := '"' :: (s.toList ++ ['"'])
  hasText := .string (.of_unescaped h)
  unrepeated := .string _

def list (items : List Sample) : Sample where
  tree := .array ((items.map fun s => (s.tree, s.text)).map Prod.fst)
  text := '[' :: (joined ((items.map fun s => (s.tree, s.text)).map Prod.snd) ++ [']'])
  hasText := .array (listed_joined _) (List.forall_mem_map.2 fun s _ => s.hasText)
  unrepeated := .array (List.forall_mem_map.2 (List.forall_mem_map.2 fun s _ => s.unrepeated))

/-- A member without blanks. -/
def member (m : String × Sample) : (Option String × Tree) × MemberText :=
  ((some m.1, m.2.tree),
    ⟨m.1.toList, [], [], m.2.text, List.forall_mem_nil _, List.forall_mem_nil _⟩)

/-- The text of an object, whether its names differ or not. -/
theorem hasText_members {members : List (String × Sample)}
    (h : ∀ m ∈ members, m.1.toList.all isUnescaped = true) :
    HasText (.object ((members.map member).map Prod.fst))
      ('\x7b' :: (joined ((members.map member).map (·.2.text)) ++ ['\x7d'])) :=
  .object (listed_joined _) (List.forall_mem_map.2 fun m hm => .of_unescaped (h m hm))
    (List.forall_mem_map.2 fun m _ => m.2.hasText)

def object (members : List (String × Sample))
    (h : (∀ m ∈ members, m.1.toList.all isUnescaped = true) ∧ (members.map Prod.fst).Nodup) :
    Sample where
  tree := .object ((members.map member).map Prod.fst)
  text := '\x7b' :: (joined ((members.map member).map (·.2.text)) ++ ['\x7d'])
  hasText := hasText_members h.1
  unrepeated := by
    have hnames : ((members.map member).map Prod.fst).filterMap Prod.fst = members.map Prod.fst := by
      rw [List.map_map, List.filterMap_map, ← List.filterMap_eq_map]
      rfl
    exact .object (hnames ▸ h.2)
      (List.forall_mem_map.2 (List.forall_mem_map.2 fun m _ => m.2.unrepeated))

end Sample

/-- The text of a value is a document. -/
theorem HasText.documentOf {t : Tree} {text : List Char} (h : HasText t text) :
    DocumentOf t (String.ofList text) :=
  ⟨[], text, [], by simp, List.forall_mem_nil _, List.forall_mem_nil _, h⟩

theorem Sample.documentOf (s : Sample) : DocumentOf s.tree (String.ofList s.text) :=
  s.hasText.documentOf

end OrmDdl.Json
