import OrmDdl.Proofs.Json.Members
import OrmDdl.Proofs.Json.Typed
import OrmDdl.Proofs.Schema.Layouts
/-!
# Documents of newer versions

The version of a document is compared when the whole document has been read. `parse_newer`: one of a
newer version is refused as such if the same text with the supported version is accepted, and
otherwise for what it holds, like any other text. For the reader takes two texts that differ in their
version alone for the same models (`decode_text`).
-/

namespace OrmDdl

open Json (AreBlanks Derives Determined LeadsIn Spells memberPiece)
open Json.Reader

namespace SchemaDocument

/-! ## Texts with a version -/

/-- An object with a version among its members, the number left open. -/
structure VersionedText where
  /-- What stands before the object. -/
  before : List Char
  /-- The members before the version, each with its comma. -/
  left : List Char
  /-- What stands before the name of the version. -/
  lead : List Char
  /-- The name of the version, as it is spelled. -/
  name : List Char
  /-- What stands before the colon. -/
  gap : List Char
  /-- What stands before the number. -/
  space : List Char
  /-- What stands behind the number. -/
  trail : List Char
  /-- The members behind the version, each with its comma. -/
  right : List Char
  /-- What stands behind the object. -/
  after : List Char
  blanks : ∀ part ∈ [before, lead, gap, space, trail, after], AreBlanks part
  left_members : left = [] ∨ ∃ members, Derives .members members ∧ left = members ++ [',']
  right_members : right = [] ∨ ∃ members, Derives .members members ∧ right = ',' :: members
  spells : Spells name "schema_version".toList

namespace VersionedText

/-- What stands behind the number. -/
def behind (t : VersionedText) : List Char := t.trail ++ (t.right ++ '\x7d' :: t.after)

/-- The members, from the first to the brace. -/
def members (t : VersionedText) (version : Nat) : List Char :=
  t.left ++ (t.lead ++ (memberPiece t.name t.gap t.space (Nat.toDigits 10 version) ++ t.behind))

/-- The text with this version. -/
def text (t : VersionedText) (version : Nat) : String :=
  String.ofList (t.before ++ '\x7b' :: t.members version)

end VersionedText

/-! ## Fields of a document -/

theorem graded_slots : ∀ slot ∈ record.slots, slot.Graded := by
  intro slot hslot
  simp only [record, List.mem_cons, List.not_mem_nil, or_false] at hslot
  rcases hslot with rfl | rfl
  · exact Json.Slot.graded_of (graded_const agrees_natural32)
  · exact Json.Slot.graded_of fun n n' s => (closed_list Model.graded_read n n' s).agreesOn

theorem determined_slots (n : Nat) :
    ∀ slot ∈ record.slots, ∀ d, Determined (slot.read n d) := by
  intro slot hslot d
  simp only [record, List.mem_cons, List.not_mem_nil, or_false] at hslot
  rcases hslot with rfl | rfl
  · exact Json.determined_natural32.bind_pure _
  · exact (Json.determined_list Model.graded_read n).bind_pure _

/-! ## Rounds behind the version -/

def Draft.withVersion (d : Draft) (version : Nat) : Draft := { d with version := some version }

def withVersion (d : SchemaDocument) (version : Nat) : SchemaDocument := { d with version }

section

variable {n a b : Nat} {d e : Draft} {s t : List Char}

/-- Once there is a version, what it is does not matter to a member. -/
theorem takeMember_withVersion {name : String}
    (h : record.takeMember n (d.withVersion a) name s = .ok (e, t)) :
    ∃ e' : Draft, e = e'.withVersion a ∧
      record.takeMember n (d.withVersion b) name s = .ok (e'.withVersion b, t) := by
  unfold Json.Record.takeMember at h ⊢
  cases hslot : record.slot? name with
  | none =>
    simp only [hslot] at h ⊢
    obtain ⟨_, u, hcolon, h⟩ := bind_eq_ok h
    obtain ⟨_, v, hpass, ⟨⟩⟩ := bind_eq_ok h
    refine ⟨d, rfl, ?_⟩
    rw [bind_ok hcolon, bind_ok hpass]
    rfl
  | some slot =>
    simp only [hslot] at h ⊢
    have hmem : slot ∈ record.slots := List.mem_of_find?_eq_some hslot
    simp only [record, List.mem_cons, List.not_mem_nil, or_false] at hmem
    rcases hmem with rfl | rfl
    · cases h
    · by_cases hread : d.models.isSome = true
      · rw [if_pos (show Json.Slot.isRead _ (d.withVersion a) = true from hread)] at h
        cases h
      · rw [if_neg (show ¬Json.Slot.isRead _ (d.withVersion a) = true from hread)] at h
        rw [if_neg (show ¬Json.Slot.isRead _ (d.withVersion b) = true from hread)]
        obtain ⟨_, u, hcolon, h⟩ := bind_eq_ok h
        obtain ⟨models, v, hlist, ⟨⟩⟩ := bind_eq_ok h
        exact ⟨{ d with models := some models }, rfl, (bind_ok hcolon).trans (bind_ok hlist)⟩

/-- Nor to a round. -/
theorem memberStep_withVersion {first : Bool} {x : Step (Bool × Draft) SchemaDocument}
    (h : record.memberStep n (first, d.withVersion a) s = .ok (x, t)) :
    (∃ e : Draft, x = .more (false, e.withVersion a) ∧
      record.memberStep n (first, d.withVersion b) s = .ok (.more (false, e.withVersion b), t)) ∨
    ∃ r : SchemaDocument, x = .done (r.withVersion a) ∧
      record.memberStep n (first, d.withVersion b) s = .ok (.done (r.withVersion b), t) := by
  unfold Json.Record.memberStep at h ⊢
  obtain ⟨more, u, hnext, h⟩ := bind_eq_ok h
  rw [bind_ok hnext]
  cases more with
  | true =>
    obtain ⟨name, v, hstring, h⟩ := bind_eq_ok h
    obtain ⟨e, w, htake, ⟨⟩⟩ := bind_eq_ok h
    obtain ⟨e', rfl, hagain⟩ := takeMember_withVersion (b := b) htake
    refine .inl ⟨e', rfl, ?_⟩
    rw [if_pos rfl, bind_ok hstring, bind_ok hagain]
    rfl
  | false =>
    obtain ⟨r, v, hcomplete, ⟨⟩⟩ := bind_eq_ok h
    obtain ⟨version, _ | models⟩ := d
    · cases hcomplete
    · cases hcomplete
      exact .inr ⟨⟨a, models⟩, rfl, rfl⟩

/-- Behind its version a document is read as the same but for the version. -/
theorem rounds_withVersion {x : Bool × Draft} {r : SchemaDocument}
    (h : Rounds (record.memberStep n) x s r t) : ∀ {first : Bool} {d : Draft},
      x = (first, d.withVersion a) → ∃ r' : SchemaDocument, r = r'.withVersion a ∧
        Rounds (record.memberStep n) (first, d.withVersion b) s (r'.withVersion b) t := by
  induction h with
  | done h =>
    rintro first d rfl
    obtain ⟨e, hmore, -⟩ | ⟨r, hdone, hstep⟩ := memberStep_withVersion (b := b) h
    · cases hmore
    · cases hdone
      exact ⟨r, rfl, .done hstep⟩
  | more h _ ih =>
    rintro first d rfl
    obtain ⟨e, hmore, hstep⟩ | ⟨r, hdone, -⟩ := memberStep_withVersion (b := b) h
    · cases hmore
      obtain ⟨r, rfl, hrounds⟩ := ih rfl
      exact ⟨r, rfl, .more hstep hrounds⟩
    · cases hdone

end

/-! ## Two versions of one text -/

namespace VersionedText

variable (t : VersionedText) {n a b : Nat}

theorem delimited_behind : Json.Reader.Delimited t.behind := by
  have htrail : AreBlanks t.trail := t.blanks _ (by simp)
  unfold behind
  obtain hright | ⟨members, -, hright⟩ := t.right_members
  · rw [hright]
    exact Json.delimited_blanks_append htrail (.inr (.inr rfl)) _
  · rw [hright]
    exact Json.delimited_blanks_append htrail (.inl rfl) _

section

variable {first : Bool} {d : Draft} {pre : List Char} (hpre : LeadsIn first pre)

include hpre

/-- The member of the version is taken if there was none before it. -/
theorem memberStep_version (hfresh : d.version = none) (ha : a < Nat.pow 2 32) :
    record.memberStep n (first, d)
        (pre ++ (t.lead ++ (memberPiece t.name t.gap t.space (Nat.toDigits 10 a) ++ t.behind))) =
      .ok (.more (false, d.withVersion a), t.behind) := by
  rw [← List.append_assoc]
  have found : record.slot? (String.ofList "schema_version".toList) = some record.slots[0] := rfl
  have fresh : record.slots[0].isRead d = false := by
    show d.version.isSome = false
    rw [hfresh]
    rfl
  exact Json.Record.memberStep_ok (hpre.append (t.blanks _ (by simp))) t.spells
    (t.blanks _ (by simp)) (t.blanks _ (by simp)) found fresh
    ((natural32_digits ha).bind_pure d.withVersion) t.delimited_behind

/-- Nothing is read of a second version. -/
theorem not_rounds_version (hagain : d.version.isSome = true) (r : SchemaDocument)
    (rest : List Char) : ¬Rounds (record.memberStep n) (first, d)
      (pre ++ (t.lead ++ (memberPiece t.name t.gap t.space (Nat.toDigits 10 a) ++ t.behind)))
      r rest := by
  rw [← List.append_assoc]
  have found : record.slot? (String.ofList "schema_version".toList) = some record.slots[0] := rfl
  have hpre' : LeadsIn first (pre ++ t.lead) := hpre.append (t.blanks _ (by simp))
  intro h
  obtain ⟨x, u, hstep⟩ := h.exists_step
  exact Json.Record.memberStep_again hpre' t.spells found hagain t.behind x u hstep

end

theorem decode_eq (version : Nat) :
    decode (t.text version) = (read maxDepth).run (t.text version) := by
  have hbare : isBareList (t.text version) = false := by
    unfold isBareList text
    rw [String.toList_ofList, trimStart_blanks_append (t.blanks _ (by simp))]
    rfl
  unfold decode
  rw [hbare]
  rfl

section

variable {r : SchemaDocument} {rest : List Char} (ha : a < Nat.pow 2 32) (hb : b < Nat.pow 2 32)

include ha hb

/-- The members are read for one version as for another. -/
theorem rounds_members (h : Rounds (record.memberStep n) (true, {}) (t.members a) r rest) :
    r.version = a ∧
      Rounds (record.memberStep n) (true, {}) (t.members b) (r.withVersion b) rest := by
  obtain ⟨first, d, pre, hpre, hleft⟩ :=
    Json.Record.exists_rounds_left (determined_slots n) t.left_members h
  have hrounds := (hleft _ _ _).1 h
  cases hversion : d.version with
  | some version =>
    exact absurd hrounds (t.not_rounds_version hpre (by rw [hversion]; rfl) r rest)
  | none =>
    rw [Rounds.iff_of_more (t.memberStep_version hpre hversion ha)] at hrounds
    obtain ⟨r, rfl, hagain⟩ := rounds_withVersion (b := b) hrounds rfl
    exact ⟨rfl, (hleft _ _ _).2 (.more (t.memberStep_version hpre hversion hb) hagain)⟩

/-- The object is read for one version as for another. -/
theorem read_text (h : read (n + 1) (t.text a).toList = .ok (r, rest)) :
    r.version = a ∧ read (n + 1) (t.text b).toList = .ok (r.withVersion b, rest) := by
  have hobject : ∀ version, read (n + 1) (t.text version).toList =
      inObject (record.ofMembers n) ('\x7b' :: t.members version) := by
    intro version
    have hskip : skipBlanks (t.before ++ '\x7b' :: t.members version) =
        skipBlanks ('\x7b' :: t.members version) := skipBlanks_append (t.blanks _ (by simp)) _
    unfold text
    rw [String.toList_ofList, ← read_eq]
    exact Json.start_bind_eq hskip
  rw [hobject] at h ⊢
  obtain ⟨u, hmembers, hclose⟩ := framed_eq_ok h
  obtain ⟨hversion, hrounds⟩ := t.rounds_members ha hb (.of_untilDone hmembers)
  exact ⟨hversion, framed_ok (hrounds.untilDone
    (Json.Record.length_of_memberStep graded_slots)) hclose⟩

theorem decode_text (h : decode (t.text a) = .ok r) :
    r.version = a ∧ decode (t.text b) = .ok (r.withVersion b) := by
  rw [decode_eq, run_eq_ok_iff] at h
  obtain ⟨rest, hread, hrest⟩ := h
  obtain ⟨hversion, hread⟩ := t.read_text ha hb hread
  refine ⟨hversion, ?_⟩
  rw [decode_eq, run_eq_ok_iff]
  exact ⟨rest, hread, hrest⟩

end

end VersionedText

/-! ## Refusals -/

/-- A document of a newer version is refused. It is refused as one, which is a fault of what is handed
over, if the same text is accepted with the supported version, and otherwise as a text that is not
read. -/
theorem parse_newer (t : VersionedText) {version : Nat} (newer : supported < version)
    (fits : version < Nat.pow 2 32) : ∃ e, parse (t.text version) = .error e ∧
      (e.isInputError = true ↔ ∃ d, parse (t.text supported) = .ok d) ∧
      (e = .invalidFormat (.newerVersion version supported) ∨ ∃ fault, e = .json fault) := by
  have hsupported : supported < Nat.pow 2 32 := by decide
  cases hdecode : decode (t.text version) with
  | ok d =>
    obtain ⟨rfl, hread⟩ := t.decode_text fits hsupported hdecode
    have hparse : parse (t.text d.version) =
        .error (.invalidFormat (.newerVersion d.version supported)) := by
      unfold parse
      rw [hdecode]
      exact if_pos newer
    have haccepted : ∃ d, parse (t.text supported) = .ok d :=
      ⟨d.withVersion supported, parse_eq_ok.2 ⟨hread, Nat.le_refl _⟩⟩
    exact ⟨_, hparse, iff_of_true rfl haccepted, .inl rfl⟩
  | error fault =>
    have hparse : parse (t.text version) = .error (.json fault) := by
      unfold parse
      rw [hdecode]
    have hrefused : ¬∃ d, parse (t.text supported) = .ok d := by
      rintro ⟨d, hd⟩
      obtain ⟨-, hread⟩ := t.decode_text hsupported fits (parse_eq_ok.1 hd).1
      cases hdecode.symm.trans hread
    exact ⟨_, hparse, iff_of_false Bool.false_ne_true hrefused, .inr ⟨fault, rfl⟩⟩

/-- A newer document, with a member that is not known here behind its version and a field of this
type in front of it. -/
def calendar (tag : String) (h : tag.toList.all Json.isUnescaped = true) : VersionedText where
  before := [' ']
  left :=
    let rule := memberText "type" ('"' :: (tag.toList ++ ['"']))
    let fields := memberText "at" ('\x7b' :: (rule ++ ['\x7d']))
    let model := memberText "name" "\"Event\"".toList ++
      ',' :: (memberText "table" "\"events\"".toList ++
        ',' :: memberText "validation_rules" ('\x7b' :: (fields ++ ['\x7d'])))
    memberText "models" ('[' :: ('\x7b' :: (model ++ ['\x7d']) ++ [']'])) ++ [',']
  lead := []
  name := "schema_version".toList
  gap := []
  space := [' ']
  trail := []
  right := ',' :: memberText "zones" "[null]".toList
  after := ['\n']
  blanks := by
    simp [AreBlanks, isBlank]
  left_members := by
    have hrule := Json.Derives.object (.oneMember (derives_member "type" (by decide)
      (derives_string tag h)))
    have hfields := Json.Derives.object (.oneMember (derives_member "at" (by decide) hrule))
    have hmodel := Json.Derives.object <|
      .moreMembers (derives_member "name" (by decide) (derives_string "Event" (by decide))) <|
      .moreMembers (derives_member "table" (by decide) (derives_string "events" (by decide))) <|
      .oneMember (derives_member "validation_rules" (by decide) hfields)
    have hmodels : Derives .array _ := .array (.oneElement hmodel.bare)
    exact .inr ⟨_, .oneMember (derives_member "models" (by decide) hmodels.ofArray), rfl⟩
  right_members := by
    have hnull : Derives .value "null".toList := .word (List.mem_cons_self ..)
    have hzones : Derives .array _ := .array (.oneElement hnull.bare)
    exact .inr ⟨_, .oneMember (derives_member "zones" (by decide) hzones.ofArray), rfl⟩
  spells := .of_unescaped (by decide)

theorem parse_newer_calendar : supported < 2 ∧ 2 < Nat.pow 2 32 ∧
    parse ((calendar "string" (by decide)).text 2) =
      .error (.invalidFormat (.newerVersion 2 supported)) := by
  have hread : (read maxDepth ((calendar "string" (by decide)).text supported).toList).toOption.map
      (fun p => (p.1.version, skipBlanks p.2)) = some (supported, []) := by
    unfold VersionedText.text
    rw [String.toList_ofList]
    decide +kernel
  have haccepted : ∃ d, parse ((calendar "string" (by decide)).text supported) = .ok d := by
    simp only [parse_eq_ok, VersionedText.decode_eq, run_eq_ok_iff]
    cases hd : read maxDepth ((calendar "string" (by decide)).text supported).toList with
    | error fault =>
      rw [hd] at hread
      cases hread
    | ok p =>
      rw [hd] at hread
      obtain ⟨hversion, hrest⟩ := Prod.mk.inj (Option.some.inj hread)
      exact ⟨p.1, ⟨p.2, rfl, hrest⟩, hversion.le⟩
  refine ⟨by decide, by decide, ?_⟩
  obtain ⟨e, he, hinput, rfl | ⟨fault, rfl⟩⟩ :=
    parse_newer (calendar "string" (by decide)) (show supported < 2 by decide) (by decide)
  · exact he
  · exact nomatch hinput.2 haccepted

/-- A type of field that is not known here hides the version. -/
theorem parse_calendar : supported < 2 ∧
    ∃ fault, parse ((calendar "date" (by decide)).text 2) = .error (.json fault) := by
  have hread : (read maxDepth ((calendar "date" (by decide)).text 2).toList).isOk = false := by
    unfold VersionedText.text
    rw [String.toList_ofList]
    decide +kernel
  refine ⟨by decide, ?_⟩
  unfold parse
  rw [VersionedText.decode_eq]
  cases hrun : (read maxDepth).run ((calendar "date" (by decide)).text 2) with
  | error fault => exact ⟨fault, rfl⟩
  | ok d =>
    obtain ⟨rest, hd⟩ := run_eq_ok hrun
    rw [hd] at hread
    cases hread

end SchemaDocument

end OrmDdl
