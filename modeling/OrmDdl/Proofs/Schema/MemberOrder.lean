import OrmDdl.Mysql.Translator
import OrmDdl.Proofs.Json.Lookup
import OrmDdl.Proofs.Json.Samples
import OrmDdl.Proofs.Model.Places
import OrmDdl.Proofs.Schema.Layouts
/-!
# The order of members

`parse_alike`: documents that name no member twice and differ in nothing but the order of members,
where it does not count, and in members of unknown names are the same schema, or both are none.
Fields and relations stand in the order of their objects (`parse_order`).
-/

namespace OrmDdl

open Json Json.Reader

/-- No blank of any kind opens a value. -/
theorem Json.Tree.not_isBlank_of_opensWith {t : Tree} {c : Char} (h : t.opensWith c = true) :
    Text.isBlank c = false := by
  cases t with
  | bool b => cases b <;> exact beq_iff_eq.1 h ▸ by decide
  | number =>
    obtain rfl | hdigit := HasText.startsNumber_iff.1 h
    · decide
    · simp only [Char.isDigit, Bool.and_eq_true, decide_eq_true_eq] at hdigit
      have hlower : 48 ≤ c.toNat := hdigit.1
      have hupper : c.toNat ≤ 57 := hdigit.2
      simp [Text.isBlank, Text.inRanges, Text.blankRanges]
      omega
  | null | string | array | object => exact beq_iff_eq.1 h ▸ by decide

/-! ## Documents by their trees -/

namespace SchemaDocument

variable {t u : Tree} {text : String}

/-- A text is a bare list if its tree is a list. -/
theorem isBareList_iff (h : DocumentOf t text) :
    isBareList text = true ↔ ∃ items, t = .array items := by
  obtain ⟨before, value, behind, htext, hbefore, hbehind, ht⟩ := h
  obtain ⟨c, v, rfl, -⟩ := ht.exists_cons
  have hblank := Json.Tree.not_isBlank_of_opensWith ht.opens
  have htrim : Text.trimStart text.toList = c :: v ++ behind := by
    rw [htext, trimStart_blanks_append hbefore]
    exact List.dropWhile_cons_of_neg (Bool.eq_false_iff.1 hblank)
  unfold isBareList
  rw [htrim]
  show (some c == some '[') = true ↔ _
  rw [beq_iff_eq, Option.some.injEq]
  constructor
  · rintro rfl
    obtain ⟨entries, -, rfl, -⟩ := ht.of_list
    exact ⟨_, rfl⟩
  · rintro ⟨items, rfl⟩
    exact beq_iff_eq.1 ht.opens

/-- The document that a tree is, whichever its layout. -/
noncomputable def ofTree? : Tree → Option SchemaDocument
  | .array items => ((list Model.read maxDepth).ofTree? (.array items)).map ofModels
  | t => (Tree.record? record maxDepth t).filter (·.version ≤ supported)

theorem follows : record.Follows Place.outline .document := by
  have hversion : ∀ _ : Nat, Carried Place.outline .other natural32 := fun _ => .natural32
  have hmodels : ∀ n, Carried Place.outline .models (list Model.read n) :=
    .list (fun _ => rfl) Model.carried
  refine ⟨fun slot hslot => ?_, ?_⟩
  · simp only [record, List.mem_cons, List.not_mem_nil, or_false] at hslot
    rcases hslot with rfl | rfl
    · exact Slot.placed_of hversion (by decide) fun _ _ => rfl
    · exact Slot.placed_of hmodels (by decide) fun _ _ => rfl
  · simp only [record, List.pairwise_cons, List.forall_mem_cons, List.not_mem_nil,
      IsEmpty.forall_iff, implies_true, List.Pairwise.nil, and_true]
    exact .of (fun _ _ => rfl) (fun _ _ => rfl) (fun _ _ => rfl) (fun _ _ => rfl) fun _ _ _ => rfl

theorem denotes_read (n : Nat) : Denotes (read n) (Tree.record? record n) :=
  Record.denotes_read (fun _ hslot => follows.steady hslot) n

theorem steady_list (n : Nat) : Steady (list Model.read n) :=
  (denotes_list (fun n => (Model.carried n).steady) n).steady

/-- What is parsed is what is decoded, up to the supported version. -/
theorem parse_toOption_eq (text : String) :
    (parse text).toOption = (decode text).toOption.filter (·.version ≤ supported) := by
  unfold parse
  cases decode text with
  | error e => rfl
  | ok d =>
    show (if supported < d.version then .error _ else .ok d : Except SchemaError _).toOption =
      if decide (d.version ≤ supported) = true then some d else none
    by_cases hd : supported < d.version
    · rw [if_pos hd, if_neg (by simpa using hd)]
      rfl
    · rw [if_neg hd, if_pos (by simpa using hd)]
      rfl

/-- A document is parsed as what its tree is. -/
theorem parse_toOption (h : DocumentOf t text) : (parse text).toOption = ofTree? t := by
  rw [parse_toOption_eq]
  by_cases harray : ∃ items, t = .array items
  · have hbare := (isBareList_iff h).2 harray
    have hrun := h.run_toOption (steady_list maxDepth)
    obtain ⟨items, rfl⟩ := harray
    rw [decode_bare hbare, ofTree?, ← hrun]
    cases (list Model.read maxDepth).run text with
    | error e => rfl
    | ok models => rfl
  · have hdecode : decode text = (read maxDepth).run text :=
      if_neg fun hbare => harray ((isBareList_iff h).1 hbare)
    rw [hdecode, h.run_toOption (denotes_read maxDepth)]
    cases t with
    | array items => exact absurd ⟨items, rfl⟩ harray
    | null | bool | number | string | object => rfl

/-- Trees that are alike are the same document. -/
theorem ofTree?_alike (h : Alike Place.outline .document t u) (ht : t.Proper) (hu : u.Proper) :
    ofTree? t = ofTree? u := by
  cases h with
  | same t => rfl
  | array hpairs =>
    have hmodels : Carried Place.outline .document (list Model.read maxDepth) :=
      .list (fun _ => rfl) Model.carried maxDepth
    exact congrArg (Option.map ofModels) (hmodels.eq (.array hpairs) ht hu)
  | object hms hns hordered hextra hkept =>
    exact congrArg (Option.filter _)
      (follows.object_eq maxDepth (.object hms hns hordered hextra hkept) ht hu)

end SchemaDocument

/-! ## Order -/

namespace Json

/-- The elements of a list. -/
def Tree.items : Tree → List Tree
  | array items => items
  | _ => []

/-- The trees of the models, whichever the layout. -/
def Tree.models : Tree → List Tree
  | array items => items
  | t => ((t.at? "models" 1).map Tree.items).getD []

end Json

namespace Model

/-- Fields and relations stand in the order of their objects. -/
structure InOrderOf (m : Model) (t : Tree) : Prop where
  fields : m.fields.names = t.namesAt "validation_rules" 3
  relations : m.relations.names = t.namesAt "available_relations" 4

theorem keeps_fields :
    record.Keeps "validation_rules" 3 (·.fields) (NameMap.read FieldRule.read) := by
  have htext := fun n => (carried_text n).steady
  have hfields := fun n => (carried_fields n).steady
  have hrelations := fun n => (carried_relations n).steady
  refine ⟨⟨_, rfl, rfl, rfl, Slot.sets_of hfields fun _ _ => rfl⟩, fun j slot hj hji => ?_⟩
  rcases j with _ | _ | _ | _ | _ | j
  · cases hj
    exact ⟨by decide, Slot.leaves_of htext fun _ _ => rfl⟩
  · cases hj
    exact ⟨by decide, Slot.leaves_of htext fun _ _ => rfl⟩
  · cases hj
    exact ⟨by decide, Slot.leaves_of htext fun _ _ => rfl⟩
  · exact absurd rfl hji
  · cases hj
    exact ⟨by decide, Slot.leaves_of hrelations fun _ _ => rfl⟩
  · cases hj

theorem keeps_relations :
    record.Keeps "available_relations" 4 (·.relations) (NameMap.read Relation.read) := by
  have htext := fun n => (carried_text n).steady
  have hfields := fun n => (carried_fields n).steady
  have hrelations := fun n => (carried_relations n).steady
  refine ⟨⟨_, rfl, rfl, rfl, Slot.sets_of hrelations fun _ _ => rfl⟩, fun j slot hj hji => ?_⟩
  rcases j with _ | _ | _ | _ | _ | j
  · cases hj
    exact ⟨by decide, Slot.leaves_of htext fun _ _ => rfl⟩
  · cases hj
    exact ⟨by decide, Slot.leaves_of htext fun _ _ => rfl⟩
  · cases hj
    exact ⟨by decide, Slot.leaves_of htext fun _ _ => rfl⟩
  · cases hj
    exact ⟨by decide, Slot.leaves_of hfields fun _ _ => rfl⟩
  · exact absurd rfl hji
  · cases hj

/-- A model is finished with the fields and relations that were read. -/
theorem finish_eq_ok {d : Draft} {m : Model} (h : record.finish d = .ok m) :
    d.fields.getD ∅ = m.fields ∧ d.relations.getD ∅ = m.relations := by
  obtain ⟨_ | name, _ | table, idKey, _ | fields, relations⟩ := d <;> cases h
  exact ⟨rfl, rfl⟩

theorem inOrderOf {n : Nat} {t : Tree} (ht : t.Proper) {m : Model}
    (h : (read n).ofTree? t = some m) : m.InOrderOf t := by
  have hread : Denotes (read n) (Tree.record? record n) :=
    Record.denotes_read (fun _ hslot => follows.steady hslot) n
  rw [hread.ofTree?_eq ht.written] at h
  cases n with
  | zero => cases t <;> cases h
  | succ n =>
    obtain ⟨d, hfinish, hfields⟩ := keeps_fields.get_eq rfl ht h
    obtain ⟨d', hfinish', hrelations⟩ := keeps_relations.get_eq rfl ht h
    refine ⟨?_, ?_⟩
    · rw [← (finish_eq_ok hfinish).1]
      exact names_of_at? (fun n => (FieldRule.carried n).steady) ht hfields
    · rw [← (finish_eq_ok hfinish').2]
      exact names_of_at? (fun n => (Relation.carried n).steady) ht hrelations

end Model

namespace SchemaDocument

theorem keeps_models : record.Keeps "models" 1 (·.models) (list Model.read) := by
  refine ⟨⟨_, rfl, rfl, rfl, Slot.sets_of steady_list fun _ _ => rfl⟩, fun j slot hj hji => ?_⟩
  rcases j with _ | _ | j
  · cases hj
    exact ⟨by decide, Slot.leaves_of (fun _ => denotes_natural32.steady) fun _ _ => rfl⟩
  · exact absurd rfl hji
  · cases hj

/-- The models of a list stand in its order. -/
theorem forall₂_of_list {n : Nat} {t : Tree} (ht : t.Proper) {models : List Model}
    (h : (list Model.read n).ofTree? t = some models) :
    ∃ items, t = .array items ∧ List.Forall₂ (fun t m => m.InOrderOf t) items models := by
  have hlist := denotes_list (fun n => (Model.carried n).steady) n
  rw [hlist.ofTree?_eq ht.written] at h
  cases n with
  | zero => cases t <;> cases h
  | succ n =>
    cases t with
    | null | bool | number | string | object => cases h
    | array items =>
      exact ⟨items, rfl, forall₂_of_mapM (fun t hmem m hm => Model.inOrderOf (ht.item hmem) hm) h⟩

/-- Models stand in the order of their list, with fields and relations in the order of their
objects. -/
theorem parse_order {t : Tree} {text : String} (h : DocumentOf t text) (ht : t.Unrepeated)
    {d : SchemaDocument} (hd : parse text = .ok d) :
    List.Forall₂ (fun t m => m.InOrderOf t) t.models d.models := by
  have hproper : t.Proper := ⟨h.written, ht⟩
  have hread := parse_toOption h
  rw [hd] at hread
  cases t with
  | null | bool | number | string => cases hread
  | array items =>
    obtain ⟨models, hmodels, rfl⟩ := Option.map_eq_some_iff.1 hread.symm
    obtain ⟨_, ⟨⟩, horder⟩ := forall₂_of_list hproper hmodels
    exact horder
  | object members =>
    obtain ⟨hrecord, -⟩ := Option.filter_eq_some_iff.1 hread.symm
    obtain ⟨⟨version, _ | models⟩, hfinish, hmodels⟩ := keeps_models.get_eq rfl hproper hrecord
    · cases hfinish
    · cases hfinish
      obtain ⟨u, hu, hlist⟩ := Option.map_eq_some_iff.1 hmodels
      obtain ⟨items, rfl, horder⟩ := forall₂_of_list (hproper.of_at? hu) hlist
      have hitems : (Tree.object members).models = items := by
        show ((Tree.at? "models" 1 (.object members)).map Tree.items).getD [] = items
        rw [hu]
        rfl
      exact hitems ▸ horder

/-- Documents that are alike are both the same schema, or none, and so are their statements. Models,
fields and relations stand in their order. -/
theorem parse_alike {t u : Tree} {text text' : String} (ht : DocumentOf t text)
    (hu : DocumentOf u text') (hunrepeated : t.Unrepeated) (hunrepeated' : u.Unrepeated)
    (h : Alike Place.outline .document t u) :
    (parse text).toOption = (parse text').toOption ∧
      (∀ switches, (parse text).toOption.map (fun d => Mysql.convert switches d.models) =
        (parse text').toOption.map fun d => Mysql.convert switches d.models) ∧
      ∀ d, parse text = .ok d → List.Forall₂ (fun t m => m.InOrderOf t) t.models d.models := by
  have heq : (parse text).toOption = (parse text').toOption := by
    rw [parse_toOption ht, parse_toOption hu]
    exact ofTree?_alike h ⟨ht.written, hunrepeated⟩ ⟨hu.written, hunrepeated'⟩
  exact ⟨heq, fun switches => by rw [heq], fun d hd => parse_order ht hunrepeated hd⟩

end SchemaDocument

/-! ## A drawing -/

namespace Drawing

/-- A rule whose default is an object. -/
def style : Sample :=
  .object [("type", .string "object" (by decide)),
    ("default", .object [("pen", .string "thin" (by decide)), ("ink", .string "red" (by decide))]
      (by decide))] (by decide)

def model : Sample :=
  .object [("name", .string "Drawing" (by decide)), ("table", .string "drawings" (by decide)),
    ("validation_rules", .object [("style", style)] (by decide))] (by decide)

def document : Sample := .object [("models", .list [model])] (by decide)

/-- The rule with its members and those of its default the other way round. -/
def restyled : Sample :=
  .object [("default", .object [("ink", .string "red" (by decide)),
      ("pen", .string "thin" (by decide))] (by decide)),
    ("type", .string "object" (by decide))] (by decide)

def remodelled : Sample :=
  .object [("validation_rules", .object [("style", restyled)] (by decide)),
    ("table", .string "drawings" (by decide)), ("name", .string "Drawing" (by decide))] (by decide)

/-- The document with an origin that no document has. -/
def redrawn : Sample :=
  .object [("origin", .list []), ("models", .list [remodelled])] (by decide)

theorem style_alike : Alike Place.outline .rule style.tree restyled.tree := by
  refine @Alike.object Place Place.outline .rule _ _ [] []
    [⟨some "type", _, _⟩, ⟨some "default", _, _⟩] (.refl _) (.swap ..) nofun nofun ?_
  refine List.forall_mem_cons.2 ⟨fun _ _ _ _ => .same _, List.forall_mem_singleton.2 ?_⟩
  rintro name q ⟨⟩ hq
  have hdefault : Place.outline.member? .rule "default" = some .other := by decide
  obtain rfl := Option.some.inj (hdefault.symm.trans hq)
  refine @Alike.object Place Place.outline .other _ _ [] []
    [⟨some "pen", _, _⟩, ⟨some "ink", _, _⟩] (.refl _) (.swap ..) nofun nofun ?_
  exact List.forall_mem_cons.2 ⟨fun _ _ _ _ => .same _,
    List.forall_mem_singleton.2 fun _ _ _ _ => .same _⟩

theorem model_alike : Alike Place.outline .model model.tree remodelled.tree := by
  refine @Alike.object Place Place.outline .model _ _ [] []
    [⟨some "name", _, _⟩, ⟨some "table", _, _⟩, ⟨some "validation_rules", _, _⟩] (.refl _)
    (List.reverse_perm [(some "name", _), (some "table", _), (some "validation_rules", _)])
    nofun nofun ?_
  refine List.forall_mem_cons.2 ⟨fun _ _ _ _ => .same _, List.forall_mem_cons.2
    ⟨fun _ _ _ _ => .same _, List.forall_mem_singleton.2 ?_⟩⟩
  rintro name q ⟨⟩ hq
  have hfields : Place.outline.member? .model "validation_rules" = some .fields := by decide
  obtain rfl := Option.some.inj (hfields.symm.trans hq)
  refine @Alike.object Place Place.outline .fields _ _ [] [] [⟨some "style", _, _⟩] (.refl _)
    (.refl _) (fun _ => ⟨rfl, rfl⟩) nofun (List.forall_mem_singleton.2 ?_)
  rintro name q ⟨⟩ ⟨⟩
  exact style_alike

theorem document_alike : Alike Place.outline .document document.tree redrawn.tree := by
  refine @Alike.object Place Place.outline .document _ _ [] [(some "origin", _)]
    [⟨some "models", _, _⟩] (.refl _) (.swap ..) nofun ?_ (List.forall_mem_singleton.2 ?_)
  · exact List.forall_mem_singleton.2 ⟨"origin", rfl, by decide⟩
  · rintro name q ⟨⟩ hq
    have hmodels : Place.outline.member? .document "models" = some .models := by decide
    obtain rfl := Option.some.inj (hmodels.symm.trans hq)
    refine @Alike.array Place Place.outline .models [(_, _)] fun i pair hpair => ?_
    cases i with
    | zero =>
      cases hpair
      exact model_alike
    | succ i => cases hpair

end Drawing

theorem SchemaDocument.parse_alike_drawing :
    ∃ d, parse (String.ofList Drawing.document.text) = .ok d ∧
      parse (String.ofList Drawing.redrawn.text) = .ok d := by
  obtain ⟨heq, -⟩ := parse_alike Drawing.document.documentOf Drawing.redrawn.documentOf
    Drawing.document.unrepeated Drawing.redrawn.unrepeated Drawing.document_alike
  have hread : ((read maxDepth Drawing.document.text).toOption.map fun p =>
      (p.1.version, skipBlanks p.2)) = some (1, []) := by decide +kernel
  obtain ⟨⟨d, rest⟩, hok, hd⟩ := Option.map_eq_some_iff.1 hread
  obtain ⟨hversion, hrest⟩ := Prod.mk.inj hd
  have hrun : (read maxDepth).run (String.ofList Drawing.document.text) = .ok d := by
    refine run_of_ok ?_ hrest
    rw [String.toList_ofList]
    exact outcome_eq_some.1 hok
  have hdecode : decode (String.ofList Drawing.document.text) = .ok d := by
    refine (if_neg fun hbare => ?_).trans hrun
    obtain ⟨_, ⟨⟩⟩ := (isBareList_iff Drawing.document.documentOf).1 hbare
  have hparse := parse_eq_ok.2 ⟨hdecode, hversion.le⟩
  refine ⟨d, hparse, ?_⟩
  rw [hparse] at heq
  cases hparse' : parse (String.ofList Drawing.redrawn.text) with
  | error e => exact nomatch heq.trans (congrArg _ hparse')
  | ok d' => rw [Option.some.inj (heq.trans (congrArg _ hparse'))]

end OrmDdl
