import OrmDdl.Proofs.Json.Fields
import OrmDdl.Proofs.Json.Grammar
import OrmDdl.Proofs.Model.Locality
import OrmDdl.Schema.Document
/-!
# The two layouts of a document

A text that is one array of models may stand by itself or as the one member of an object.
`parse_layouts`: the two are the same document or none, except that the object opens a bracket more.
A list is read as the same wherever it stands, for its reader looks no further than its bracket
(`list_text`); where brackets are nested as deep as they may be, `layouts_differ`. A space that JSON
does not know shows a bare list for what it is, but neither layout is read with it
(`IsSpaced.parse_fails`).
-/

namespace OrmDdl

open Json (AreBlanks IsArrayText Rises)
open Json.Reader

namespace SchemaDocument

/-! ## The object around a list -/

/-- The object that holds a list of models and no version. -/
def wrapped (text : String) : String := "\x7b\"models\":" ++ text ++ "\x7d"

theorem toList_wrapped (text : String) : (wrapped text).toList =
    '\x7b' :: (Json.stringChars "models" ++ ':' :: (text.toList ++ ['\x7d'])) := by
  have hopen : "\x7b\"models\":".toList = '\x7b' :: (Json.stringChars "models" ++ [':']) := by
    decide
  have hclose : "\x7d".toList = ['\x7d'] := rfl
  unfold wrapped
  rw [String.toList_append, String.toList_append, hopen, hclose]
  simp

/-- The first round of the object reads the list. -/
theorem memberStep_models (n : Nat) (x : List Char) :
    record.memberStep n (true, {}) (Json.stringChars "models" ++ ':' :: x) =
      (list Model.read n >>= fun models =>
        pure (.more (false, { models := some models }))) x := by
  have found : record.slot? "models" = some record.slots[1] := rfl
  rw [Json.Record.memberStep_first found rfl]
  show ((list Model.read n >>= fun models => pure _) >>= _) x = _
  rw [bind_assoc]
  rfl

theorem memberStep_models_ok {n : Nat} {x : List Char} {models : List Model} {rest : List Char}
    (h : list Model.read n x = .ok (models, rest)) :
    record.memberStep n (true, {}) (Json.stringChars "models" ++ ':' :: x) =
      .ok (.more (false, { models := some models }), rest) := by
  rw [memberStep_models]
  exact bind_ok h

/-- Behind the list nothing is left of the object but its brace. -/
theorem memberStep_end (n : Nat) {models : List Model} {rest : List Char}
    (hrest : skipBlanks rest = ['\x7d']) :
    record.memberStep n (false, { models := some models }) rest =
      .ok (.done ⟨supported, models⟩, ['\x7d']) := by
  have hnext : nextMember false rest = .ok (false, ['\x7d']) := by
    unfold nextMember
    rw [bind_ok (next?_cons hrest)]
    rfl
  unfold Json.Record.memberStep
  rw [bind_ok hnext]
  rfl

theorem decode_bare {text : String} (h : isBareList text = true) :
    decode text = ofModels <$> (list Model.read maxDepth).run text := if_pos h

theorem decode_wrapped (text : String) :
    decode (wrapped text) = (read maxDepth).run (wrapped text) := by
  have hobject : isBareList (wrapped text) = false := by
    unfold isBareList
    rw [toList_wrapped]
    rfl
  unfold decode
  rw [hobject]
  rfl

theorem read_eq (n : Nat) (x : List Char) :
    read (n + 1) ('\x7b' :: x) = inObject (record.ofMembers n) ('\x7b' :: x) := by
  show (start >>= _) _ = _
  rw [bind_ok (start_cons (skipBlanks_of_not_blank (by decide) x))]
  rfl

/-- The list is read with one bracket less to open, and the object with it. -/
theorem read_wrapped_of_ok {n : Nat} {x : List Char} {models : List Model} {rest : List Char}
    (h : list Model.read n x = .ok (models, rest)) (hrest : skipBlanks rest = ['\x7d'])
    (hlength : rest.length ≤ x.length) :
    read (n + 1) ('\x7b' :: (Json.stringChars "models" ++ ':' :: x)) =
      .ok (⟨supported, models⟩, []) := by
  have shorter : rest.length < (Json.stringChars "models" ++ ':' :: x).length := by
    rw [List.length_append, List.length_cons]
    omega
  rw [read_eq]
  exact inObject_ok <| untilDone_of_more (memberStep_models_ok h) shorter <|
    untilDone_of_done (memberStep_end n hrest)

theorem read_wrapped_of_fails {n : Nat} {x : List Char} {cause : Json.Cause}
    (h : FailsWith cause (list Model.read n x)) :
    FailsWith cause (read (n + 1) ('\x7b' :: (Json.stringChars "models" ++ ':' :: x))) := by
  have hstep : FailsWith cause
      (record.memberStep n (true, {}) (Json.stringChars "models" ++ ':' :: x)) := by
    rw [memberStep_models]
    exact h.bind
  have hmembers : FailsWith cause
      (record.ofMembers n (Json.stringChars "models" ++ ':' :: x)) := hstep.bind
  rw [read_eq]
  exact hmembers.framed

/-- Neither a comma nor the brace comes next behind the list. -/
theorem memberStep_space (n : Nat) (d : Draft) {rest t : List Char} {c : Char}
    (hrest : skipBlanks rest = c :: t) (hc : Text.isBlank c = true) :
    FailsWith .expectedObjectEnd (record.memberStep n (false, d) rest) := by
  have hnext : FailsWith .expectedObjectEnd (nextMember false rest) := by
    unfold nextMember
    rw [bind_ok (next?_cons hrest)]
    generalize hsome : some c = next
    split
    · cases hsome
      exact absurd hc (by decide)
    · exact ⟨_, rfl⟩
    · cases hsome
      exact absurd hc (by decide)
    · exact ⟨_, rfl⟩
    · cases hsome
  exact hnext.bind

theorem read_wrapped_of_space {n : Nat} {x : List Char} {models : List Model} {rest t : List Char}
    {c : Char} (h : list Model.read n x = .ok (models, rest)) (hrest : skipBlanks rest = c :: t)
    (hc : Text.isBlank c = true) : FailsWith .expectedObjectEnd
      (read (n + 1) ('\x7b' :: (Json.stringChars "models" ++ ':' :: x))) := by
  have hmembers : FailsWith .expectedObjectEnd
      (record.ofMembers n (Json.stringChars "models" ++ ':' :: x)) :=
    FailsWith.untilDone (memberStep_models_ok h) (by simp) (memberStep_space n _ hrest hc)
  rw [read_eq]
  exact hmembers.framed

/-! ## A list wherever it stands -/

/-- More than so many brackets are open at some place of the text, strings aside. -/
def OpensMoreThan (n : Nat) (text : List Char) : Prop :=
  ∃ front, front <+: text ∧ n < ((Json.Nesting.outside 0).after front).opened

theorem OpensMoreThan.of_rises {n : Nat} {a b : List Char} (h : Rises n a) :
    OpensMoreThan n (a ++ b) := by
  obtain ⟨front, hfront, hopened⟩ := h 0
  rw [Nat.zero_add] at hopened
  exact ⟨front, hfront.trans (List.prefix_append a b), hopened⟩

/-- What is read of one array is read of it whatever stands behind it, and with any number of
brackets to open that it does not exceed. -/
theorem list_text {text x rest : List Char} {n : Nat} {models : List Model} (h : IsArrayText text)
    (hread : list Model.read n (text ++ x) = .ok (models, rest)) :
    ∃ blanks, blanks <:+ text ∧ AreBlanks blanks ∧ rest = blanks ++ x ∧ ∀ n' y,
      list Model.read n' (text ++ y) = .ok (models, blanks ++ y) ∨
        (n' < n ∧ OpensMoreThan n' text) ∧ FailsWith .tooDeep (list Model.read n' (text ++ y)) := by
  obtain ⟨array, blanks, rfl, harray, hblanks⟩ := h.exists_bracketed
  have htakes : ∀ n', rest = blanks ++ x ∧ ∀ t, list Model.read n' (array ++ t) = .ok (models, t) ∨
      Spent n n' array ∧ FailsWith .tooDeep (list Model.read n' (array ++ t)) := by
    intro n'
    obtain ⟨c, hs, hc, htakes⟩ := closed_list Model.graded_read n n' _ models rest hread
    rw [List.append_assoc] at hs
    obtain ⟨rfl, rfl⟩ := hc.unique harray hs.symm
    exact ⟨rfl, htakes⟩
  refine ⟨blanks, List.suffix_append array blanks, hblanks, (htakes 0).1, fun n' y => ?_⟩
  rw [List.append_assoc]
  exact ((htakes n').2 (blanks ++ y)).imp_right fun hdeep =>
    ⟨⟨hdeep.1.fewer, .of_rises hdeep.1.rises⟩, hdeep.2⟩

theorem list_text_of_le {text x rest : List Char} {n n' : Nat} {models : List Model}
    (h : IsArrayText text) (hn : n ≤ n')
    (hread : list Model.read n (text ++ x) = .ok (models, rest)) :
    ∃ blanks, ∀ y, list Model.read n' (text ++ y) = .ok (models, blanks ++ y) := by
  obtain ⟨blanks, -, -, -, hmoved⟩ := list_text h hread
  refine ⟨blanks, fun y => ?_⟩
  obtain hread | ⟨⟨hfewer, -⟩, -⟩ := hmoved n' y
  · exact hread
  · exact absurd hfewer (Nat.not_lt_of_le hn)

/-! ## Whole documents -/

/-- White space of any kind, of which JSON knows only some. -/
def AreSpaces (text : List Char) : Prop := ∀ c ∈ text, Text.isBlank c = true

theorem areSpaces_of_areBlanks {blanks : List Char} (h : AreBlanks blanks) : AreSpaces blanks := by
  intro c hc
  have hblank := h c hc
  simp only [isBlank, decide_eq_true_eq] at hblank
  rcases hblank with rfl | rfl | rfl | rfl <;> decide

theorem trimStart_blanks_append {blanks : List Char} (h : AreBlanks blanks) (rest : List Char) :
    Text.trimStart (blanks ++ rest) = Text.trimStart rest :=
  List.dropWhile_append_of_pos (areSpaces_of_areBlanks h)

/-- A text is one array with white space around it. -/
structure IsSpaced (text before array behind : List Char) : Prop where
  parts : text = before ++ (array ++ behind)
  before : AreSpaces before
  array : Json.Derives .array array
  behind : AreSpaces behind

theorem IsSpaced.isBareList {text : String} {before array behind : List Char}
    (h : IsSpaced text.toList before array behind) : isBareList text = true := by
  obtain ⟨rest, hrest⟩ : ∃ rest, array = '[' :: rest := by
    cases h.array with
    | emptyArray h => exact ⟨_, rfl⟩
    | array h => exact ⟨_, rfl⟩
  unfold SchemaDocument.isBareList Text.trimStart
  rw [h.parts, List.dropWhile_append_of_pos h.before, hrest]
  rfl

/-- Behind the blanks of JSON stands a space that is none. -/
theorem AreSpaces.exists_space {text : List Char} (h : AreSpaces text) (hblanks : ¬AreBlanks text) :
    ∃ blanks c rest, text = blanks ++ c :: rest ∧ AreBlanks blanks ∧ isBlank c = false ∧
      Text.isBlank c = true := by
  obtain ⟨blanks, htext, hfront, hnext⟩ := exists_blanks text
  cases hskip : skipBlanks text with
  | nil =>
    rw [hskip, List.append_nil] at htext
    exact absurd (htext ▸ hfront) hblanks
  | cons c rest =>
    rw [hskip] at htext hnext
    have hmem : c ∈ text := by
      rw [htext]
      exact List.mem_append_right _ List.mem_cons_self
    exact ⟨blanks, c, rest, htext, hfront, hnext c rfl, h c hmem⟩

theorem parse_eq_ok {text : String} {d : SchemaDocument} :
    parse text = .ok d ↔ decode text = .ok d ∧ d.version ≤ supported := by
  unfold parse
  cases decode text with
  | error e => simp
  | ok b =>
    show (if supported < b.version then _ else _) = _ ↔ _
    by_cases h : supported < b.version
    · rw [if_pos h]
      constructor
      · intro h
        cases h
      · rintro ⟨⟨⟩, hle⟩
        omega
    · rw [if_neg h]
      constructor
      · rintro ⟨⟩
        exact ⟨rfl, Nat.le_of_not_lt h⟩
      · rintro ⟨⟨⟩, -⟩
        rfl

section

variable {text : String} (h : IsArrayText text.toList)

include h

theorem isBareList_of_array : isBareList text = true := by
  obtain ⟨before, array, behind, htext, hbefore, harray, hbehind⟩ := h
  exact IsSpaced.isBareList
    ⟨htext, areSpaces_of_areBlanks hbefore, harray, areSpaces_of_areBlanks hbehind⟩

theorem run_list_iff (n : Nat) (d : SchemaDocument) :
    ofModels <$> (list Model.read n).run text = .ok d ↔
      ∃ models rest, list Model.read n text.toList = .ok (models, rest) ∧ d = ofModels models := by
  constructor
  · intro hrun
    cases hmodels : (list Model.read n).run text with
    | error e =>
      rw [hmodels] at hrun
      cases hrun
    | ok models =>
      rw [hmodels] at hrun
      cases hrun
      obtain ⟨rest, hread⟩ := run_eq_ok hmodels
      exact ⟨models, rest, hread, rfl⟩
  · rintro ⟨models, rest, hread, rfl⟩
    have hread' : list Model.read n (text.toList ++ []) = .ok (models, rest) := by
      rw [List.append_nil, hread]
    obtain ⟨blanks, -, hblanks, rfl, -⟩ := list_text h hread'
    rw [run_of_ok hread (skipBlanks_append hblanks [])]
    rfl

theorem exists_run_list_iff (n : Nat) : (∃ d, ofModels <$> (list Model.read n).run text = .ok d) ↔
    (list Model.read n text.toList).isOk = true := by
  simp only [run_list_iff h]
  cases list Model.read n text.toList with
  | error f => simp [Except.isOk, Except.toBool]
  | ok p => exact ⟨fun _ => rfl, fun _ => ⟨_, p.1, p.2, rfl, rfl⟩⟩

/-- A bare list is read as the models of a document of the supported version. -/
theorem parse_bare_iff (d : SchemaDocument) :
    parse text = .ok d ↔ ofModels <$> (list Model.read maxDepth).run text = .ok d := by
  rw [parse_eq_ok, decode_bare (isBareList_of_array h)]
  refine ⟨And.left, fun hrun => ⟨hrun, ?_⟩⟩
  obtain ⟨models, rest, -, rfl⟩ := (run_list_iff h maxDepth d).1 hrun
  exact Nat.le_refl _

/-- The object is read if the list in it is, with one bracket less to open. -/
theorem parse_wrapped_eq_ok (d : SchemaDocument) :
    parse (wrapped text) = .ok d ↔ ∃ models rest,
      list Model.read 126 (text.toList ++ ['\x7d']) = .ok (models, rest) ∧ d = ofModels models := by
  have hwhole : ∀ models rest, list Model.read 126 (text.toList ++ ['\x7d']) = .ok (models, rest) →
      read maxDepth (wrapped text).toList = .ok (ofModels models, []) := by
    intro models rest hread
    obtain ⟨blanks, hsuffix, hblanks, rfl, -⟩ := list_text h hread
    have hlength : (blanks ++ ['\x7d']).length ≤ (text.toList ++ ['\x7d']).length := by
      rw [List.length_append, List.length_append]
      exact Nat.add_le_add_right hsuffix.length_le _
    rw [toList_wrapped]
    exact read_wrapped_of_ok hread (skipBlanks_append hblanks _) hlength
  rw [parse_eq_ok, decode_wrapped]
  constructor
  · rintro ⟨hrun, -⟩
    obtain ⟨_, hd⟩ := run_eq_ok hrun
    cases hread : list Model.read 126 (text.toList ++ ['\x7d']) with
    | error f =>
      obtain ⟨place, hfails⟩ := read_wrapped_of_fails ⟨f.place, hread⟩
      rw [← toList_wrapped] at hfails
      exact nomatch hfails.symm.trans hd
    | ok p =>
      cases hd.symm.trans (hwhole p.1 p.2 hread)
      exact ⟨p.1, p.2, rfl, rfl⟩
  · rintro ⟨models, rest, hread, rfl⟩
    rw [run_of_ok (hwhole models rest hread) rfl]
    exact ⟨rfl, Nat.le_refl _⟩

/-- The object is read like the bare list in which one bracket less may be opened. -/
theorem parse_wrapped_iff (d : SchemaDocument) :
    parse (wrapped text) = .ok d ↔ ofModels <$> (list Model.read 126).run text = .ok d := by
  rw [parse_wrapped_eq_ok h, run_list_iff h]
  constructor
  · rintro ⟨models, rest, hread, rfl⟩
    obtain ⟨blanks, hmoved⟩ := list_text_of_le h (Nat.le_refl _) hread
    have hbare := hmoved []
    rw [List.append_nil] at hbare
    exact ⟨models, _, hbare, rfl⟩
  · rintro ⟨models, rest, hread, rfl⟩
    rw [← List.append_nil text.toList] at hread
    obtain ⟨blanks, hmoved⟩ := list_text_of_le h (Nat.le_refl _) hread
    exact ⟨models, _, hmoved ['\x7d'], rfl⟩

end

theorem parse_wrapped_of_read_fails {text : String} {cause : Json.Cause}
    (h : FailsWith cause (read maxDepth (wrapped text).toList)) :
    ∃ e, parse (wrapped text) = .error (.json e) ∧ e.cause = cause := by
  obtain ⟨e, hrun, hcause⟩ := run_of_fails h
  refine ⟨e, ?_, hcause⟩
  unfold parse
  rw [decode_wrapped, hrun]

theorem parse_wrapped_of_fails {text : String} {cause : Json.Cause}
    (h : FailsWith cause (list Model.read 126 (text.toList ++ ['\x7d']))) :
    ∃ e, parse (wrapped text) = .error (.json e) ∧ e.cause = cause := by
  refine parse_wrapped_of_read_fails ?_
  rw [toList_wrapped]
  exact read_wrapped_of_fails h

/-! ## Spaces that JSON does not know -/

theorem list_ne_ok_of_space {n : Nat} {s t : List Char} {c : Char} (hs : skipBlanks s = c :: t)
    (hc : Text.isBlank c = true) (models : List Model) (rest : List Char) :
    list Model.read n s ≠ .ok (models, rest) := by
  unfold list
  rw [bind_ok (start_cons hs)]
  split
  · exact absurd hc (by decide)
  · exact mismatch_ne_ok _ _ _ _

namespace IsSpaced

variable {text : String} {before array behind : List Char}
  (h : IsSpaced text.toList before array behind) (hspace : ¬(AreBlanks before ∧ AreBlanks behind))

include h hspace

/-- A space that is no blank is not passed: it stands before the list or is left behind it. -/
theorem space_of_read {n : Nat} {x rest : List Char} {models : List Model}
    (hread : list Model.read n (text.toList ++ x) = .ok (models, rest)) :
    ∃ c t, skipBlanks rest = c :: t ∧ Text.isBlank c = true := by
  by_cases hbefore : AreBlanks before
  · obtain ⟨blanks, c, t, rfl, hblanks, hc, hspace⟩ :=
      h.behind.exists_space fun hbehind => hspace ⟨hbefore, hbehind⟩
    have harray : IsArrayText (before ++ (array ++ blanks)) :=
      ⟨before, array, blanks, rfl, hbefore, h.array, hblanks⟩
    have htext : text.toList ++ x = before ++ (array ++ blanks) ++ (c :: t ++ x) := by
      rw [h.parts]
      simp
    rw [htext] at hread
    obtain ⟨left, -, hleft, rfl, -⟩ := list_text harray hread
    refine ⟨c, t ++ x, ?_, hspace⟩
    rw [skipBlanks_append hleft]
    exact skipBlanks_of_not_blank hc _
  · obtain ⟨blanks, c, t, rfl, hblanks, hc, hspace⟩ := h.before.exists_space hbefore
    have htext : text.toList ++ x = blanks ++ (c :: (t ++ (array ++ behind) ++ x)) := by
      rw [h.parts]
      simp
    have hskip : skipBlanks (text.toList ++ x) = c :: (t ++ (array ++ behind) ++ x) := by
      rw [htext, skipBlanks_append hblanks]
      exact skipBlanks_of_not_blank hc _
    exact absurd hread (list_ne_ok_of_space hskip hspace models rest)

theorem run_ne_ok (n : Nat) (models : List Model) :
    (list Model.read n).run text ≠ .ok models := by
  intro hrun
  obtain ⟨rest, hread, hrest⟩ := run_eq_ok_iff.1 hrun
  rw [← List.append_nil text.toList] at hread
  obtain ⟨c, t, hskip, -⟩ := h.space_of_read hspace hread
  exact nomatch hskip.symm.trans hrest

/-- Neither layout is read. -/
theorem parse_fails :
    (∃ e, parse text = .error e) ∧ ∃ e, parse (wrapped text) = .error e := by
  constructor
  · unfold parse
    rw [decode_bare h.isBareList]
    cases hrun : (list Model.read maxDepth).run text with
    | error e => exact ⟨_, rfl⟩
    | ok models => exact absurd hrun (h.run_ne_ok hspace maxDepth models)
  · cases hread : list Model.read 126 (text.toList ++ ['\x7d']) with
    | error f =>
      obtain ⟨e, he, -⟩ := parse_wrapped_of_fails ⟨f.place, hread⟩
      exact ⟨_, he⟩
    | ok p =>
      obtain ⟨c, t, hskip, hc⟩ := h.space_of_read hspace hread
      have hfails : FailsWith .expectedObjectEnd (read maxDepth (wrapped text).toList) := by
        rw [toList_wrapped]
        exact read_wrapped_of_space hread hskip hc
      obtain ⟨e, he, -⟩ := parse_wrapped_of_read_fails hfails
      exact ⟨_, he⟩

end IsSpaced

/-! ## Lists in one another -/

/-- Lists in one another, so many and one. -/
def lists : Nat → List Char
  | 0 => ['[', ']']
  | n + 1 => '[' :: (lists n ++ [']'])

/-- A member of an object. -/
def memberText (name : String) (value : List Char) : List Char :=
  '"' :: (name.toList ++ '"' :: ':' :: value)

/-- A list of one model, whose field has lists in one another as its default. -/
def groveArray (depth : Nat) : List Char :=
  let rule := memberText "type" "\"array\"".toList ++ ',' :: memberText "default" (lists depth)
  let fields := memberText "id" ('\x7b' :: (rule ++ ['\x7d']))
  let model := memberText "name" "\"Tree\"".toList ++
    ',' :: (memberText "table" "\"trees\"".toList ++
      ',' :: memberText "validation_rules" ('\x7b' :: (fields ++ ['\x7d'])))
  '[' :: ('\x7b' :: (model ++ ['\x7d']) ++ [']'])

/-- The list with blanks around it. -/
def grove (depth : Nat) : List Char := [' '] ++ (groveArray depth ++ ['\n'])

theorem derives_lists (n : Nat) : Json.Derives .array (lists n) := by
  induction n with
  | zero => exact .emptyArray (List.forall_mem_nil _)
  | succ n ih => exact .array (.oneElement ih.ofArray.bare)

theorem derives_string (s : String) (h : s.toList.all Json.isUnescaped = true) :
    Json.Derives .value ('"' :: (s.toList ++ ['"'])) := .string (.of_unescaped h)

theorem derives_member (name : String) {value : List Char}
    (hname : name.toList.all Json.isUnescaped = true) (h : Json.Derives .value value) :
    Json.Derives .member (memberText name value) :=
  .member (List.forall_mem_nil _) (.of_unescaped hname) (List.forall_mem_nil _) h.bare

theorem derives_groveArray (depth : Nat) : Json.Derives .array (groveArray depth) := by
  have hrule := Json.Derives.object <|
    .moreMembers (derives_member "type" (by decide) (derives_string "array" (by decide))) <|
    .oneMember (derives_member "default" (by decide) (derives_lists depth).ofArray)
  have hfields := Json.Derives.object (.oneMember (derives_member "id" (by decide) hrule))
  have hmodel := Json.Derives.object <|
    .moreMembers (derives_member "name" (by decide) (derives_string "Tree" (by decide))) <|
    .moreMembers (derives_member "table" (by decide) (derives_string "trees" (by decide))) <|
    .oneMember (derives_member "validation_rules" (by decide) hfields)
  exact .array (.oneElement hmodel.bare)

theorem isArrayText_text_grove (depth : Nat) :
    IsArrayText (String.ofList (grove depth)).toList := by
  rw [String.toList_ofList]
  exact ⟨[' '], _, ['\n'], rfl, List.forall_mem_singleton.2 rfl, derives_groveArray depth,
    List.forall_mem_singleton.2 rfl⟩

/-! ## The two layouts -/

theorem layouts_of_array {text : String} (h : IsArrayText text.toList) :
    (∀ d, parse (wrapped text) = .ok d → parse text = .ok d) ∧
      (∀ d, parse text = .ok d → d.version = 1 ∧
        (parse (wrapped text) = .ok d ∨
          (∃ e, parse (wrapped text) = .error (.json e) ∧ e.cause = .tooDeep) ∧
            OpensMoreThan 126 text.toList)) ∧
      ∀ d, parse (wrapped text) = .ok d ↔ ofModels <$> (list Model.read 126).run text = .ok d := by
  have hbare : ∀ d, parse text = .ok d ↔ _ := fun d =>
    (parse_bare_iff h d).trans (run_list_iff h maxDepth d)
  have hwrapped := parse_wrapped_eq_ok h
  refine ⟨fun d hd => ?_, fun d hd => ?_, parse_wrapped_iff h⟩
  · obtain ⟨models, rest, hread, rfl⟩ := (hwrapped d).1 hd
    obtain ⟨blanks, hmoved⟩ := list_text_of_le h (show 126 ≤ maxDepth by decide) hread
    have hread := hmoved []
    rw [List.append_nil] at hread
    exact (hbare _).2 ⟨models, _, hread, rfl⟩
  · obtain ⟨models, rest, hread, rfl⟩ := (hbare d).1 hd
    rw [← List.append_nil text.toList] at hread
    obtain ⟨blanks, -, -, -, hmoved⟩ := list_text h hread
    refine ⟨rfl, ?_⟩
    obtain hread | ⟨⟨-, hopens⟩, hfails⟩ := hmoved 126 ['\x7d']
    · exact .inl ((hwrapped _).2 ⟨models, _, hread, rfl⟩)
    · exact .inr ⟨parse_wrapped_of_fails hfails, hopens⟩

/-- Of one array with white space around it, the object gives what the bare list gives, unless the
bracket of the object is one too many: it is read like the bare list with one bracket less to open.
Neither is read if the white space is not JSON's. -/
theorem parse_layouts {before array behind : List Char} (text : String)
    (h : IsSpaced text.toList before array behind) :
    (∀ d, parse (wrapped text) = .ok d → parse text = .ok d) ∧
      (∀ d, parse text = .ok d → d.version = 1 ∧
        (parse (wrapped text) = .ok d ∨
          (∃ e, parse (wrapped text) = .error (.json e) ∧ e.cause = .tooDeep) ∧
            OpensMoreThan 126 text.toList)) ∧
      (∀ d, parse (wrapped text) = .ok d ↔
        ofModels <$> (list Model.read 126).run text = .ok d) ∧
      (¬(AreBlanks before ∧ AreBlanks behind) →
        (∃ e, parse text = .error e) ∧ ∃ e, parse (wrapped text) = .error e) := by
  by_cases hblanks : AreBlanks before ∧ AreBlanks behind
  · have harray : IsArrayText text.toList :=
      ⟨before, array, behind, h.parts, hblanks.1, h.array, hblanks.2⟩
    obtain ⟨hwrapped, hbare, hiff⟩ := layouts_of_array harray
    exact ⟨hwrapped, hbare, hiff, fun hspace => absurd hblanks hspace⟩
  · obtain ⟨⟨e, hbare⟩, ⟨e', hwrapped⟩⟩ := h.parse_fails hblanks
    refine ⟨fun d hd => ?_, fun d hd => ?_, fun d => ⟨fun hd => ?_, fun hd => ?_⟩,
      fun _ => ⟨⟨e, hbare⟩, ⟨e', hwrapped⟩⟩⟩
    · exact nomatch hwrapped.symm.trans hd
    · exact nomatch hbare.symm.trans hd
    · exact nomatch hwrapped.symm.trans hd
    · cases hrun : (list Model.read 126).run text with
      | ok models => exact absurd hrun (h.run_ne_ok hblanks 126 models)
      | error f =>
        rw [hrun] at hd
        cases hd

/-- A list of a model is one document in both layouts, and in none with a space that JSON does not
know behind it. -/
theorem parse_layouts_grove :
    (IsSpaced (String.ofList (grove 3)).toList [' '] (groveArray 3) ['\n'] ∧
      ∃ d, parse (wrapped (String.ofList (grove 3))) = .ok d ∧
        parse (String.ofList (grove 3)) = .ok d) ∧
    IsSpaced (String.ofList (groveArray 3 ++ ['\u00a0'])).toList [] (groveArray 3) ['\u00a0'] ∧
      (∃ e, parse (String.ofList (groveArray 3 ++ ['\u00a0'])) = .error e) ∧
      ∃ e, parse (wrapped (String.ofList (groveArray 3 ++ ['\u00a0']))) = .error e := by
  have h : IsSpaced (String.ofList (grove 3)).toList [' '] (groveArray 3) ['\n'] :=
    ⟨String.toList_ofList, List.forall_mem_singleton.2 (by decide), derives_groveArray 3,
      List.forall_mem_singleton.2 (by decide)⟩
  have hodd : IsSpaced (String.ofList (groveArray 3 ++ ['\u00a0'])).toList [] (groveArray 3)
      ['\u00a0'] :=
    ⟨String.toList_ofList, List.forall_mem_nil _, derives_groveArray 3,
      List.forall_mem_singleton.2 (by decide)⟩
  have hread : (list Model.read 126 (String.ofList (grove 3)).toList).isOk = true := by
    rw [String.toList_ofList]
    decide +kernel
  obtain ⟨hbare, -, hwrapped, -⟩ := parse_layouts (String.ofList (grove 3)) h
  obtain ⟨d, hd⟩ := (exists_run_list_iff (isArrayText_text_grove 3) 126).2 hread
  obtain ⟨-, -, -, hfails⟩ := parse_layouts _ hodd
  refine ⟨⟨h, d, (hwrapped d).2 hd, hbare d ((hwrapped d).2 hd)⟩, hodd, hfails ?_⟩
  rintro ⟨-, hbehind⟩
  exact absurd (hbehind '\u00a0' (List.mem_singleton_self _)) (by decide)

/-- The bare list takes a default that the object does not take. -/
theorem layouts_differ : IsArrayText (String.ofList (grove 122)).toList ∧
    (∃ d, parse (String.ofList (grove 122)) = .ok d) ∧
      ∀ d, parse (wrapped (String.ofList (grove 122))) ≠ .ok d := by
  have h := isArrayText_text_grove 122
  refine ⟨h, ?_, fun d hd => ?_⟩
  · simp only [parse_bare_iff h]
    rw [exists_run_list_iff h, String.toList_ofList]
    decide +kernel
  · have hread := (exists_run_list_iff h 126).1 ⟨d, (parse_wrapped_iff h d).1 hd⟩
    rw [String.toList_ofList] at hread
    have hfails : (list Model.read 126 (grove 122)).isOk = false := by decide +kernel
    exact nomatch hread.symm.trans hfails

end SchemaDocument

end OrmDdl
