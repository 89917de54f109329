import OrmDdl.Proofs.FileTree.Writing
import OrmDdl.Proofs.Model.ReadBack
import OrmDdl.Schema.Store
/-!
# Saving and loading

`load_save`: models that are saved and loaded again are the same models. The text of their document
is read as that document, and a path that can be written leads to this text afterwards.
-/

namespace OrmDdl

open Json (print Record Slot)
open Json.Reader

namespace SchemaDocument

theorem reads {d : SchemaDocument} {l : Option Nat} {depth : Nat} (hv : d.version < Nat.pow 2 32)
    (hn : d.toJson.nesting ≤ depth) (h : ∀ m ∈ d.models, ∀ x ∈ m.doubles, x.ReadsBack) :
    Reads (read depth) (print l d.toJson) d := by
  obtain ⟨k, rfl, hk⟩ := Json.exists_of_nesting_object_le hn
  have hmodels : Reads (list Model.read k)
      (print (l.map (· + 1)) (.array (d.models.map Model.toJson))) d.models := by
    obtain ⟨n, rfl, hmodel⟩ := Json.exists_of_nesting_array_le
      (hk ("models", .array (d.models.map Model.toJson)) (by simp))
    exact list_reads fun m hm => m.reads (hmodel m.toJson (List.mem_map_of_mem hm)) (h m hm)
  have fills : record.Fills k l {}
      [("schema_version", .ofNat d.version), ("models", .array (d.models.map Model.toJson))]
      { version := some d.version, models := some d.models } :=
    .cons _ rfl rfl (Slot.reads _ (natural32_reads hv)) <|
    .one _ rfl rfl (Slot.reads _ hmodels)
  exact Record.reads_object fills rfl

/-- The text of a document starts with a brace. -/
theorem isBareList_text (d : SchemaDocument) : isBareList d.text = false := by
  unfold isBareList text Json.spread
  rw [String.toList_ofList]
  rfl

theorem parse_text {d : SchemaDocument} (hv : d.version ≤ supported)
    (hn : d.toJson.nesting ≤ maxDepth) (h : ∀ m ∈ d.models, ∀ x ∈ m.doubles, x.ReadsBack) :
    parse d.text = .ok d := by
  have hv32 : d.version < Nat.pow 2 32 := Nat.lt_of_le_of_lt hv (by decide)
  have hdecode : decode d.text = .ok d := by
    unfold decode
    rw [isBareList_text, if_neg (by decide)]
    exact (reads hv32 hn h).run
  unfold parse
  rw [hdecode]
  exact if_neg (Nat.not_lt_of_le hv)

/-- Nothing is lost on the way to a file and back. -/
theorem load_save (models : List Model) (hn : (ofModels models).toJson.nesting ≤ maxDepth)
    (h : ∀ m ∈ models, ∀ x ∈ m.doubles, x.ReadsBack) :
    parse (ofModels models).text = .ok ⟨1, models⟩ ∧
      ∀ (files : FileTree) (path : String) (location : List String),
        files.target path = .ok location →
          ∃ files', save files models path = .ok files' ∧ load files'.node path = .ok models := by
  have hparse : parse (ofModels models).text = .ok (ofModels models) :=
    parse_text (Nat.le_refl _) hn h
  refine ⟨hparse, fun files path location htarget => ?_⟩
  obtain ⟨files', hwrite, hlong, hnode⟩ :=
    FileTree.node_write htarget (ofModels models).text
  refine ⟨files', ?_, ?_⟩
  · unfold save
    rw [hwrite]
  · have hread : FileNode.readAt path (.file (some (ofModels models).text)) =
        .ok (ofModels models).text := by
      unfold FileNode.readAt
      rw [hlong]
      rfl
    unfold load
    rw [hnode]
    show loadFile path (.file (some (ofModels models).text)) = _
    unfold loadFile
    rw [hread]
    dsimp only
    rw [hparse]
    rfl

/-- A model with bounds, with defaults of every kind, with names that need escapes, and with a
relation of every form. -/
def shelf : Model :=
  let book : ModelRef := ⟨"Book", "books"⟩
  let shelf : ModelRef := ⟨"Shelf\n", "shelves"⟩
  ({ name := "Shelf\n", table := "shelves", idKey := "\x00key" } : Model)
    |>.withField "\x00key" { types := .single .integer, min := some .zero }
    |>.withField "\"λ\"" { types := .single .string, max := some (.ofNat 40) }
    |>.withField "ratio" {
        types := ⟨[.number, .null]⟩
        min := some (.ofRatio true 1 10)
        max := some (.ofRatio false (Nat.pow 10 30) 3)
        defaultValue := some (.ofJson .null) }
    |>.withField "tags" {
        types := ⟨[.array, .object]⟩
        defaultValue := some (.ofJson (.array [.object [("b", .ofNat 7), ("a", .array [])],
          .number (.double (.ofRatio false 1 3)), .bool true, .string "\t\\"])) }
    |>.withField "none" { types := ⟨[]⟩ }
    |>.withRelation "books" { mode := .children, a := shelf, b := book, aKey := "", bKey := "shelf" }
    |>.withRelation "lent" {
        mode := .through, a := shelf, b := book, aKey := "key", bKey := "id"
        via := some ⟨"Loan", "loans"⟩, viaAKey := some "shelf" }

theorem load_save_shelf : parse (ofModels [shelf, shelf]).text = .ok ⟨1, [shelf, shelf]⟩ ∧
    ∃ files', save ⟨.folder [("db", .folder [("a.json", .file none)])], []⟩ [shelf, shelf]
        "db/./a.json" = .ok files' ∧
      load files'.node "db/./a.json" = .ok [shelf, shelf] := by
  have h := load_save [shelf, shelf] (by decide +kernel) (by decide +kernel)
  exact ⟨h.1, h.2 _ "db/./a.json" ["db", "a.json"] (by decide +kernel)⟩

end SchemaDocument

end OrmDdl
