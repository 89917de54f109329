import Mathlib.Data.List.Forall2
import OrmDdl.Proofs.FileTree.Order
import OrmDdl.Schema.Store
/-!
# Loading folders

`load_folder`: the models of a folder are those of all documents below it, one after the other, in
the order of their locations, and the first document that does not load is the one that is named.
Nothing else below the folder matters, unless a folder is not listed, because it is locked or its
path is too long (`load_unlistable`).
-/

namespace OrmDdl.SchemaDocument

open Outcome FileNode

/-! ## Documents -/

/-- The location of a document: its name has the extension `json`, with something before it. -/
def IsDocument (l : List String) : Prop := ∃ stem, stem ≠ "" ∧ l.getLast? = some (stem ++ ".json")

theorem isDocumentName_iff {name : String} :
    isDocumentName name = true ↔ ∃ stem, stem ≠ "" ∧ name = stem ++ ".json" := by
  unfold isDocumentName
  rw [Bool.and_eq_true, decide_eq_true_eq, List.isSuffixOf_iff_suffix]
  constructor
  · rintro ⟨⟨stem, hstem⟩, hlen⟩
    have hname : name = String.ofList stem ++ ".json" := by
      rw [← String.toList_inj, String.toList_append, String.toList_ofList, hstem]
    refine ⟨String.ofList stem, ?_, hname⟩
    intro hempty
    rw [hname, hempty] at hlen
    exact absurd hlen (by decide)
  · rintro ⟨stem, hne, rfl⟩
    refine ⟨⟨stem.toList, String.toList_append.symm⟩, ?_⟩
    have hlen : stem.length ≠ 0 := by
      rw [Ne, String.length_eq_zero_iff]
      exact hne
    rw [String.length_append]
    omega

/-- The path of a location below a folder. -/
def pathOf (folder : String) (l : List String) : String := l.foldl Path.join folder

/-- The documents of a tree: all of them, each once, in the order of their locations. -/
structure Lists (tree : FileNode) (documents : List (List String × FileNode)) : Prop where
  ordered : documents.Pairwise fun a b => Precedes a.1 b.1
  mem_iff : ∀ l document, (l, document) ∈ documents ↔
    tree.at? l = some document ∧ document.isFile = true ∧ IsDocument l

theorem any_isDocumentName {l : List String} :
    l.getLast?.any isDocumentName = true ↔ IsDocument l := by
  rw [Option.any_eq_true]
  simp only [isDocumentName_iff]
  constructor
  · rintro ⟨name, hlast, stem, hne, rfl⟩
    exact ⟨stem, hne, hlast⟩
  · rintro ⟨stem, hne, hlast⟩
    exact ⟨_, hlast, stem, hne, rfl⟩

theorem lists_nodes {tree : FileNode} (h : tree.Tidy) :
    Lists tree (tree.nodes.filter fun d => d.2.isFile && d.1.getLast?.any isDocumentName) := by
  refine ⟨(pairwise_nodes h).filter _, fun l document => ?_⟩
  rw [List.mem_filter, mem_nodes_iff h, Bool.and_eq_true, any_isDocumentName]

theorem exists_lists {tree : FileNode} (h : tree.Tidy) (path : String) : ∃ documents,
    Lists tree documents ∧
      documentsBelow path tree = documents.map fun d => (pathOf path d.1, d.2) :=
  ⟨_, lists_nodes h, rfl⟩

/-- Trees with the same documents list the same. -/
theorem Lists.unique {s t : FileNode} {ds es : List (List String × FileNode)}
    (hs : Lists s ds) (ht : Lists t es)
    (h : ∀ l document, IsDocument l → document.isFile = true →
      (s.at? l = some document ↔ t.at? l = some document)) : ds = es := by
  refine eq_of_precedes hs.ordered ht.ordered ?_
  rintro ⟨l, document⟩
  rw [hs.mem_iff, ht.mem_iff]
  exact and_congr_left fun hdoc => h l document hdoc.2 hdoc.1

/-! ## Folders -/

/-- Why a folder at a path is not listed: the path is too long, or the folder is locked. -/
inductive Unlisted (path : String) : FileNode → FileFault → Prop
  | tooLong {node : FileNode} (isFolder : node.isFile = false)
      (long : Path.isTooLong path = true) : Unlisted path node .nameTooLong
  | locked {fault : FileFault} (short : Path.isTooLong path = false) :
      Unlisted path (.lockedFolder fault) fault

theorem listingFault?_eq_some {path : String} {node : FileNode} {fault : FileFault} :
    node.listingFault? path = some fault ↔ Unlisted path node fault := by
  unfold listingFault?
  cases hlong : Path.isTooLong path with
  | true =>
    constructor
    · intro h
      cases hfile : node.isFile with
      | true => simp [hfile] at h
      | false =>
        simp [hfile] at h
        exact h ▸ .tooLong hfile hlong
    · intro h
      cases h with
      | tooLong isFolder _ => simp [isFolder]
      | locked short => exact nomatch hlong.symm.trans short
  | false =>
    constructor
    · intro h
      cases node with
      | file | lockedFile | folder => simp [isFile] at h
      | lockedFolder fault =>
        simp [isFile] at h
        exact h ▸ .locked hlong
    · intro h
      cases h with
      | tooLong _ long => exact nomatch hlong.symm.trans long
      | locked _ => rfl

/-- All folders of a tree are listed, the tree itself included. -/
def Listable (path : String) (tree : FileNode) : Prop :=
  ∀ l node fault, tree.at? l = some node → ¬Unlisted (pathOf path l) node fault

/-- The folder at a location is not listed, and all before it are. -/
structure FirstUnlisted (path : String) (tree : FileNode) (l : List String) (fault : FileFault) :
    Prop where
  unlisted : ∃ node, tree.at? l = some node ∧ Unlisted (pathOf path l) node fault
  before : ∀ m node fault', Precedes m l → tree.at? m = some node →
    ¬Unlisted (pathOf path m) node fault'

theorem unlistable?_eq_none_iff {tree : FileNode} (h : tree.Tidy) {path : String} :
    unlistable? path tree = none ↔ Listable path tree := by
  unfold unlistable?
  rw [List.findSome?_eq_none_iff]
  constructor
  · intro hnone l node fault hat hunlisted
    have hlisted := hnone (l, node) ((mem_nodes_iff h).2 hat)
    rw [Option.map_eq_none_iff] at hlisted
    exact nomatch hlisted.symm.trans (listingFault?_eq_some.2 hunlisted)
  · rintro hlist ⟨l, node⟩ hmem
    rw [Option.map_eq_none_iff, Option.eq_none_iff_forall_ne_some]
    intro fault hfault
    exact hlist l node fault ((mem_nodes_iff h).1 hmem) (listingFault?_eq_some.1 hfault)

/-- The folder that is found is the first one, for the list of nodes is in order. -/
theorem unlistable?_eq_some {tree : FileNode} (h : tree.Tidy) {path p : String}
    {fault : FileFault} (hfound : unlistable? path tree = some (p, fault)) :
    ∃ l, p = pathOf path l ∧ FirstUnlisted path tree l fault := by
  obtain ⟨front, ⟨l, node⟩, rest, hnodes, hfault, hfront⟩ := List.findSome?_eq_some_iff.1 hfound
  obtain ⟨_, hnode, hpair⟩ := Option.map_eq_some_iff.1 hfault
  cases hpair
  have hordered := pairwise_nodes h
  rw [hnodes, List.pairwise_append, List.pairwise_cons] at hordered
  refine ⟨l, rfl, ⟨node, (mem_nodes_iff h).1 ?_, listingFault?_eq_some.1 hnode⟩, ?_⟩
  · rw [hnodes]
    exact List.mem_append_right _ List.mem_cons_self
  · intro m other fault' hlt hat hother
    rw [← mem_nodes_iff h, hnodes, List.mem_append, List.mem_cons] at hat
    rcases hat with hmem | heq | hmem
    · have hnone := hfront _ hmem
      rw [Option.map_eq_none_iff] at hnone
      exact nomatch hnone.symm.trans (listingFault?_eq_some.2 hother)
    · cases heq
      exact hlt.asymm hlt
    · exact hlt.asymm (hordered.2.1.1 _ hmem)

theorem listable_file {path : String} {node : FileNode} (h : node.isFile = true) :
    Listable path node := by
  rintro l below fault hat hunlisted
  obtain rfl : l = [] := by
    by_contra hl
    exact nomatch hat.symm.trans (at?_of_isFile h hl)
  rw [at?_nil] at hat
  cases hat
  cases hunlisted with
  | tooLong isFolder _ => exact nomatch h.symm.trans isFolder
  | locked => cases h

/-- Folders are listable one by one. -/
theorem listable_folder {path : String} {entries : List (String × FileNode)}
    (h : (entries.map Prod.fst).Nodup) : Listable path (folder entries) ↔
      Path.isTooLong path = false ∧ ∀ e ∈ entries, Listable (Path.join path e.1) e.2 := by
  constructor
  · refine fun hlist => ⟨?_, fun e he l below fault hat => ?_⟩
    · rw [Bool.eq_false_iff]
      exact fun hlong => hlist [] _ _ (at?_nil _) (.tooLong rfl hlong)
    · refine hlist (e.1 :: l) below fault ?_
      rw [at?_cons, (Named.lookup_eq_some_iff_mem h).2 he]
      exact hat
  · rintro ⟨hpath, hbelow⟩ l below fault hat hunlisted
    cases l with
    | nil =>
      rw [at?_nil] at hat
      cases hat
      cases hunlisted with
      | tooLong _ long => exact nomatch hpath.symm.trans long
    | cons name l =>
      rw [at?_cons] at hat
      obtain ⟨node, hnode, hat⟩ := Option.bind_eq_some_iff.1 hat
      have hmem := (Named.lookup_eq_some_iff_mem h).1 hnode
      exact hbelow (name, node) hmem l below fault hat hunlisted

/-! ## Single documents -/

/-- A document at a path holds these models. -/
def Holds (path : String) (document : FileNode) (models : List Model) : Prop :=
  Path.isTooLong path = false ∧
    ∃ s d, document = .file (some s) ∧ parse s = .ok d ∧ d.models = models

/-- Why a document at a path does not load: it cannot be read, is no text, or is refused. -/
inductive Refused (path : String) : FileNode → String → Prop
  | tooLong {document : FileNode} (long : Path.isTooLong path = true) :
      Refused path document FileFault.nameTooLong.message
  | locked {fault : FileFault} (short : Path.isTooLong path = false) :
      Refused path (.lockedFile fault) fault.message
  | notText (short : Path.isTooLong path = false) :
      Refused path (.file none) FileFault.notText.message
  | malformed {s : String} {e : SchemaError} (short : Path.isTooLong path = false)
      (h : parse s = .error e) : Refused path (.file (some s)) e.message

theorem loadFile_eq_ok {path : String} {document : FileNode} {models : List Model} :
    loadFile path document = .ok models ↔ Holds path document models := by
  unfold loadFile FileNode.readAt Holds
  cases hlong : Path.isTooLong path with
  | true => simp
  | false =>
    cases document with
    | folder | lockedFile | lockedFolder => simp [FileNode.read]
    | file text =>
      cases text with
      | none => simp [FileNode.read]
      | some s => cases hparse : parse s <;> simp [FileNode.read, hparse]

theorem loadFile_eq_error {path : String} {document : FileNode} (hfile : document.isFile = true)
    {e : SchemaError} : loadFile path document = .error e ↔
      ∃ message, Refused path document message ∧ e = .fileRead path message := by
  unfold loadFile FileNode.readAt
  constructor
  · intro h
    cases hlong : Path.isTooLong path with
    | true =>
      rw [hlong] at h
      cases h
      exact ⟨_, .tooLong hlong, rfl⟩
    | false =>
      rw [hlong] at h
      cases document with
      | folder | lockedFolder => cases hfile
      | lockedFile fault =>
        cases h
        exact ⟨_, .locked hlong, rfl⟩
      | file text =>
        cases text with
        | none =>
          cases h
          exact ⟨_, .notText hlong, rfl⟩
        | some s =>
          cases hparse : parse s with
          | ok d => simp [FileNode.read, hparse] at h
          | error d =>
            simp [FileNode.read, hparse] at h
            exact ⟨_, .malformed hlong hparse, h.symm⟩
  · rintro ⟨message, hrefused, rfl⟩
    cases hrefused with
    | tooLong long => rw [long]; rfl
    | locked short => rw [short]; rfl
    | notText short => rw [short]; rfl
    | malformed short h => rw [short]; simp [FileNode.read, h]

/-- A document that does not load is refused for one reason. -/
theorem loadFile_fails_iff {path : String} {document : FileNode} :
    (∃ e, loadFile path document = .error e) ↔ ∀ models, ¬Holds path document models := by
  simp only [← loadFile_eq_ok]
  cases loadFile path document <;> simp

/-! ## All documents -/

section

variable {look : Look} {path : String} {tree : FileNode} (hlook : look path = .ok tree)
  (hfolder : tree.isFolder = true) (htidy : tree.Tidy)

include hlook hfolder

theorem load_eq_loadFolder : load look path = loadFolder path tree := by
  unfold load
  rw [hlook]
  have hfile : tree.isFile = false := by
    unfold isFolder at hfolder
    simpa using hfolder
  simp [hfile]

include htidy

/-- The documents of a folder are loaded one after the other. -/
theorem load_of_listable (hlist : Listable path tree) : ∃ documents, Lists tree documents ∧
    load look path = do
      let lists ← documents.mapM fun d => loadFile (pathOf path d.1) d.2
      return lists.flatten := by
  obtain ⟨documents, hlists, hbelow⟩ := exists_lists htidy path
  refine ⟨documents, hlists, ?_⟩
  rw [load_eq_loadFolder hlook hfolder]
  unfold loadFolder
  rw [(unlistable?_eq_none_iff htidy).2 hlist]
  dsimp only
  rw [hbelow, List.mapM_map]
  rfl

/-- Listing comes before any document is read, so the first folder that is not listed is what
fails. -/
theorem load_of_not_listable (hlist : ¬Listable path tree) :
    ∃ l fault, FirstUnlisted path tree l fault ∧ load look path = .error (.fileRead path
      ("IO error for operation on " ++ pathOf path l ++ ": " ++ fault.message)) := by
  rw [load_eq_loadFolder hlook hfolder]
  unfold loadFolder
  cases hfound : unlistable? path tree with
  | some found =>
    obtain ⟨p, fault⟩ := found
    obtain ⟨l, rfl, hfirst⟩ := unlistable?_eq_some htidy hfound
    exact ⟨l, fault, hfirst, rfl⟩
  | none => exact absurd ((unlistable?_eq_none_iff htidy).1 hfound) hlist

end

theorem mapM_holds {path : String} {documents : List (List String × FileNode)}
    {lists : List (List Model)} :
    (documents.mapM fun d => loadFile (pathOf path d.1) d.2) = .ok lists ↔
      List.Forall₂ (fun d models => Holds (pathOf path d.1) d.2 models) documents lists := by
  rw [mapM_eq_ok, ← List.forall₂_eq_eq_eq, List.forall₂_map_left_iff, List.forall₂_map_right_iff]
  simp only [loadFile_eq_ok]

theorem mapM_refused {path : String} {documents : List (List String × FileNode)}
    (hfiles : ∀ d ∈ documents, d.2.isFile = true) {e : SchemaError} :
    (documents.mapM fun d => loadFile (pathOf path d.1) d.2) = .error e ↔ ∃ d message,
      First (fun d => ∀ models, ¬Holds (pathOf path d.1) d.2 models) documents d ∧
        Refused (pathOf path d.1) d.2 message ∧ e = .fileRead (pathOf path d.1) message := by
  rw [mapM_eq_error]
  simp only [loadFile_fails_iff]
  constructor
  · rintro ⟨d, hfirst, h⟩
    obtain ⟨message, hrefused, rfl⟩ := (loadFile_eq_error (hfiles d hfirst.mem)).1 h
    exact ⟨d, message, hfirst, hrefused, rfl⟩
  · rintro ⟨d, message, hfirst, hrefused, rfl⟩
    exact ⟨d, hfirst, (loadFile_eq_error (hfiles d hfirst.mem)).2 ⟨message, hrefused, rfl⟩⟩

/-- Loading a folder, if all folders in it are listed, gives the models of its documents in order,
or names the first document that does not load; otherwise it names the folder, for the first that
is not listed. Two folders with the same documents load the same, whatever else is in them. -/
theorem load_folder {look : Look} {path : String} {tree : FileNode}
    (hlook : look path = .ok tree) (hfolder : tree.isFolder = true) (htidy : tree.Tidy) :
    (Listable path tree → ∃ documents, Lists tree documents ∧
      (∀ models, load look path = .ok models ↔ ∃ lists,
        List.Forall₂ (fun d models => Holds (pathOf path d.1) d.2 models) documents lists ∧
          models = lists.flatten) ∧
      ∀ e, load look path = .error e ↔ ∃ d message,
        First (fun d => ∀ models, ¬Holds (pathOf path d.1) d.2 models) documents d ∧
          Refused (pathOf path d.1) d.2 message ∧ e = .fileRead (pathOf path d.1) message) ∧
    (¬Listable path tree → ∃ l fault, FirstUnlisted path tree l fault ∧
      load look path = .error (.fileRead path
        ("IO error for operation on " ++ pathOf path l ++ ": " ++ fault.message))) ∧
    ∀ (look' : Look) (tree' : FileNode),
      look' path = .ok tree' → tree'.isFolder = true → tree'.Tidy →
      Listable path tree → Listable path tree' →
      (∀ l document, IsDocument l → document.isFile = true →
        (tree.at? l = some document ↔ tree'.at? l = some document)) →
      load look' path = load look path := by
  refine ⟨fun hlist => ?_, load_of_not_listable hlook hfolder htidy, ?_⟩
  · obtain ⟨documents, hlists, hload⟩ := load_of_listable hlook hfolder htidy hlist
    refine ⟨documents, hlists, fun models => ?_, fun e => ?_⟩
    · rw [hload, bind_eq_ok]
      simp only [mapM_holds]
      refine exists_congr fun lists => and_congr_right fun _ => ?_
      constructor
      · rintro ⟨⟩
        rfl
      · rintro rfl
        rfl
    · have hfiles : ∀ d ∈ documents, d.2.isFile = true :=
        fun d hd => ((hlists.mem_iff d.1 d.2).1 hd).2.1
      rw [hload, bind_pure_eq_error, mapM_refused hfiles]
  · intro look' tree' hlook' hfolder' htidy' hlist hlist' hsame
    obtain ⟨documents, hlists, hload⟩ := load_of_listable hlook hfolder htidy hlist
    obtain ⟨documents', hlists', hload'⟩ := load_of_listable hlook' hfolder' htidy' hlist'
    rw [hload, hload', hlists.unique hlists' hsame]

/-- What the system says where it does not let something be read. -/
def denied : FileFault := .refused "Permission denied (os error 13)"

/-- A folder of files of which one cannot be read and the others are no texts. -/
def attic : List (String × FileNode) :=
  [("a-b.json", .file none), ("a", .folder [("x.json", .lockedFile denied), (".json", .folder [])]),
    ("notes.txt", .lockedFile denied)]

theorem tidy_attic : (folder attic).Tidy := by
  refine .folder (by decide) ?_
  simp only [attic, List.forall_mem_cons, List.not_mem_nil, false_implies, implies_true, and_true]
  refine ⟨.file _, .folder (by decide) ?_, .lockedFile _⟩
  simp only [List.forall_mem_cons, List.not_mem_nil, false_implies, implies_true, and_true]
  exact ⟨.lockedFile _, .folder (by decide) (by simp)⟩

theorem listable_attic : Listable "db" (folder attic) := by
  refine (listable_folder (by decide)).2 ⟨by decide, ?_⟩
  simp only [attic, List.forall_mem_cons, List.not_mem_nil, false_implies, implies_true, and_true]
  refine ⟨listable_file rfl, (listable_folder (by decide)).2 ⟨by decide, ?_⟩, listable_file rfl⟩
  simp only [List.forall_mem_cons, List.not_mem_nil, false_implies, implies_true, and_true]
  exact ⟨listable_file rfl, (listable_folder (by decide)).2 ⟨by decide, by simp⟩⟩

theorem lists_attic : Lists (folder attic)
    [(["a", "x.json"], .lockedFile denied), (["a-b.json"], .file none)] := by
  have hnodes : (folder attic).nodes = [([], folder attic),
      (["a"], .folder [("x.json", .lockedFile denied), (".json", .folder [])]),
      (["a", ".json"], .folder []), (["a", "x.json"], .lockedFile denied),
      (["a-b.json"], .file none), (["notes.txt"], .lockedFile denied)] := by
    simp [attic, nodes, nodesOfEntries, inOrder, List.mergeSort]
  have hlists := lists_nodes tidy_attic
  rw [hnodes] at hlists
  exact hlists

/-- The file in the folder `a` is the first one, although `-` comes before `/`. -/
theorem load_folder_attic :
    FileTree.node ⟨.folder [("db", folder attic)], []⟩ "db" = .ok (folder attic) ∧
      load (FileTree.node ⟨.folder [("db", folder attic)], []⟩) "db" =
        .error (.fileRead "db/a/x.json" denied.message) := by
  have hnode : FileTree.node ⟨.folder [("db", folder attic)], []⟩ "db" = .ok (folder attic) := rfl
  refine ⟨hnode, ?_⟩
  obtain ⟨documents, hlists, -, herror⟩ := (load_folder hnode rfl tidy_attic).1 listable_attic
  obtain rfl : documents = [(["a", "x.json"], .lockedFile denied), (["a-b.json"], .file none)] :=
    hlists.unique lists_attic fun _ _ _ _ => Iff.rfl
  refine (herror _).2 ⟨(["a", "x.json"], .lockedFile denied), _, first_cons.2 (.inl ⟨?_, rfl⟩),
    .locked (by decide), rfl⟩
  rintro models ⟨-, s, d, h, -⟩
  cases h

/-! ## Folders with long paths -/

/-- A path to `d` by so many steps that stay in the folder. -/
def dotted : Nat → String
  | 0 => "d"
  | n + 1 => "./" ++ dotted n

theorem utf8ByteSize_dotted (n : Nat) : (dotted n).utf8ByteSize = 2 * n + 1 := by
  induction n with
  | zero => rfl
  | succ n ih =>
    have hstep : "./".utf8ByteSize = 2 := rfl
    rw [dotted, String.utf8ByteSize_append, ih, hstep]
    omega

theorem toList_dotted (n : Nat) : (dotted (n + 1)).toList = '.' :: '/' :: (dotted n).toList :=
  String.toList_append

theorem getLast?_dotted (n : Nat) : (dotted n).toList.getLast? = some 'd' := by
  induction n with
  | zero => rfl
  | succ n ih => rw [toList_dotted, List.getLast?_cons, List.getLast?_cons, ih]; rfl

theorem pieces_dotted (n : Nat) :
    (Path.pieces (dotted n).toList).map String.ofList = List.replicate n "." ++ ["d"] := by
  induction n with
  | zero => rfl
  | succ n ih =>
    rw [toList_dotted, Path.pieces, if_neg (by decide), Path.pieces, if_pos rfl]
    dsimp only
    rw [List.map_cons, ih]
    rfl

theorem zero_not_mem_dotted (n : Nat) : '\x00' ∉ (dotted n).toList := by
  induction n with
  | zero => decide
  | succ n ih =>
    rw [toList_dotted]
    simp [ih]

theorem parse_dotted {n : Nat} (hn : n < 2047) :
    Path.parse (dotted (n + 1)) = .ok ⟨false, List.replicate (n + 1) "." ++ ["d"]⟩ := by
  have hshort : Path.isTooLong (dotted (n + 1)) = false := by
    unfold Path.isTooLong Path.maxBytes
    rw [utf8ByteSize_dotted, decide_eq_false_iff_not]
    omega
  unfold Path.parse
  rw [if_neg (zero_not_mem_dotted _), hshort, ← pieces_dotted, toList_dotted]
  rfl

theorem follow_dots {root : FileNode} {here : List String} {entries : List (String × FileNode)}
    (h : root.at? here = some (folder entries)) (n : Nat) (steps : List String) :
    root.follow here (List.replicate n "." ++ steps) = root.follow here steps := by
  induction n with
  | zero => rfl
  | succ n ih =>
    rw [List.replicate_succ, List.cons_append, follow, h]
    exact ih

theorem node_dotted {n : Nat} (hn : n < 2047) (node : FileNode) :
    FileTree.node ⟨.folder [("d", node)], []⟩ (dotted (n + 1)) = .ok node := by
  unfold FileTree.node
  rw [parse_dotted hn]
  show FileNode.follow _ [] _ >>= _ = _
  rw [follow_dots (at?_nil _)]
  cases node <;> rfl

theorem isTooLong_dotted : Path.isTooLong (dotted 2045) = false := by
  unfold Path.isTooLong Path.maxBytes
  rw [utf8ByteSize_dotted]
  rfl

theorem isTooLong_join_dotted : Path.isTooLong (Path.join (dotted 2045) "abcde") = true := by
  have hlast : (dotted 2045).toList.getLast? ≠ some '/' := by
    rw [getLast?_dotted]
    decide
  have hname : "/".utf8ByteSize + "abcde".utf8ByteSize = 6 := rfl
  unfold Path.isTooLong Path.maxBytes Path.join
  rw [if_neg hlast, String.utf8ByteSize_append, String.utf8ByteSize_append, utf8ByteSize_dotted,
    Nat.add_assoc, hname]
  rfl

theorem tidy_empty : (folder []).Tidy := .folder .nil (by simp)

theorem lists_empty : Lists (folder []) [] := by
  simpa [nodes, nodesOfEntries, inOrder, isFile] using lists_nodes tidy_empty

/-- A folder that holds no file at all does not load, if an empty folder in it has a path that is
too long, or if a folder in it is locked; without that folder it does. -/
theorem load_unlistable :
    (∀ l node, (folder [("abcde", folder [])]).at? l = some node → node.isFile = false) ∧
      load (FileTree.node ⟨.folder [("d", folder [])], []⟩) (dotted 2045) = .ok [] ∧
      (∃ message, load (FileTree.node ⟨.folder [("d", folder [("abcde", folder [])])], []⟩)
        (dotted 2045) = .error (.fileRead (dotted 2045) message)) ∧
      ∃ message, load (FileTree.node ⟨.folder [("d", folder [("e", lockedFolder denied)])], []⟩)
        "d" = .error (.fileRead "d" message) := by
  have hlook : ∀ node : FileNode,
      FileTree.node ⟨.folder [("d", node)], []⟩ (dotted 2045) = .ok node :=
    node_dotted (by decide)
  refine ⟨?_, ?_, ?_, ?_⟩
  · intro l node hat
    obtain _ | ⟨name, rest⟩ := l
    · cases hat
      rfl
    rw [at?_cons, Named.lookup_cons] at hat
    split_ifs at hat
    · cases rest <;> cases hat
      rfl
    · cases hat
  · have hlist : Listable (dotted 2045) (folder []) := by
      rw [listable_folder (by decide)]
      exact ⟨isTooLong_dotted, by simp⟩
    obtain ⟨documents, hlists, hload⟩ :=
      load_of_listable (hlook (folder [])) rfl tidy_empty hlist
    obtain rfl : documents = [] := hlists.unique lists_empty fun _ _ _ _ => Iff.rfl
    exact hload
  · have htidy : (folder [("abcde", folder [])]).Tidy :=
      .folder (by decide) (by simpa using tidy_empty)
    have hunlisted : Unlisted (pathOf (dotted 2045) ["abcde"]) (folder []) .nameTooLong := by
      rw [pathOf, List.foldl_cons, List.foldl_nil]
      exact .tooLong rfl isTooLong_join_dotted
    obtain ⟨l, fault, -, hload⟩ := load_of_not_listable (hlook _) rfl htidy fun hlist =>
      hlist ["abcde"] (folder []) _ rfl hunlisted
    exact ⟨_, hload⟩
  · have hnode : FileTree.node ⟨.folder [("d", folder [("e", lockedFolder denied)])], []⟩ "d" =
        .ok (folder [("e", lockedFolder denied)]) := rfl
    have htidy : (folder [("e", lockedFolder denied)]).Tidy :=
      .folder (by decide) (by simpa using .lockedFolder denied)
    obtain ⟨l, fault, -, hload⟩ := load_of_not_listable hnode rfl htidy fun hlist =>
      hlist ["e"] (lockedFolder denied) _ rfl (.locked (by decide))
    exact ⟨_, hload⟩

end OrmDdl.SchemaDocument
