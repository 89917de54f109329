import OrmDdl.Json.Value
import OrmDdl.Proofs.Json.Scalars
/-!
# Printed values are read back

`reads_value`: a value of any kind, printed compact or spread, is read as itself if its doubles read
back and no more brackets are open in it at once than the reader may open. `inList_print` and
`inObject_print` are the same for lists and objects whose elements are read by any reader, and carry
the typed readers as well.

The induction is on the value, and inside a list or an object on what is left of it behind the
first element; there the text at hand starts with a comma or the line of the closing bracket.
-/

namespace OrmDdl.Json

/-! ## Measures of a value -/

mutual

/-- The greatest number of brackets open at once. -/
def nesting : Json → Nat
  | array items => nestingOfItems items + 1
  | object members => nestingOfMembers members + 1
  | _ => 0

def nestingOfItems : List Json → Nat
  | [] => 0
  | j :: r => max (nesting j) (nestingOfItems r)

def nestingOfMembers : List (String × Json) → Nat
  | [] => 0
  | (_, j) :: r => max (nesting j) (nestingOfMembers r)

end

mutual

/-- All doubles in a value. -/
def doubles : Json → List Double
  | number n => n.doubles
  | array items => doublesOfItems items
  | object members => doublesOfMembers members
  | _ => []

def doublesOfItems : List Json → List Double
  | [] => []
  | j :: r => doubles j ++ doublesOfItems r

def doublesOfMembers : List (String × Json) → List Double
  | [] => []
  | (_, j) :: r => doubles j ++ doublesOfMembers r

end

theorem nestingOfItems_le_iff {items : List Json} {n : Nat} :
    nestingOfItems items ≤ n ↔ ∀ j ∈ items, j.nesting ≤ n := by
  induction items with
  | nil => simp [nestingOfItems]
  | cons j r ih => rw [nestingOfItems, Nat.max_le, ih, List.forall_mem_cons]

theorem nestingOfMembers_le_iff {members : List (String × Json)} {n : Nat} :
    nestingOfMembers members ≤ n ↔ ∀ m ∈ members, m.2.nesting ≤ n := by
  induction members with
  | nil => simp [nestingOfMembers]
  | cons m r ih => rw [nestingOfMembers, Nat.max_le, ih, List.forall_mem_cons]

/-- A list within a bound opens a bracket, and its elements are within one less. -/
theorem exists_of_nesting_array_le {items : List Json} {n : Nat} (h : (array items).nesting ≤ n) :
    ∃ k, n = k + 1 ∧ ∀ j ∈ items, j.nesting ≤ k := by
  have h : nestingOfItems items + 1 ≤ n := h
  obtain ⟨k, rfl⟩ := Nat.exists_eq_add_of_le' (Nat.le_trans (Nat.le_add_left 1 _) h)
  exact ⟨k, rfl, nestingOfItems_le_iff.1 (by omega)⟩

/-- An object within a bound opens a bracket, and its members are within one less. -/
theorem exists_of_nesting_object_le {members : List (String × Json)} {n : Nat}
    (h : (object members).nesting ≤ n) : ∃ k, n = k + 1 ∧ ∀ m ∈ members, m.2.nesting ≤ k := by
  have h : nestingOfMembers members + 1 ≤ n := h
  obtain ⟨k, rfl⟩ := Nat.exists_eq_add_of_le' (Nat.le_trans (Nat.le_add_left 1 _) h)
  exact ⟨k, rfl, nestingOfMembers_le_iff.1 (by omega)⟩

namespace Reader

variable {α : Type} {l : Option Nat}

/-! ## Between values -/

theorem isBlank_of_mem_lineBreak {c : Char} (h : c ∈ lineBreak l) : isBlank c = true := by
  match l, h with
  | some n, h =>
    simp only [lineBreak, List.mem_cons, List.mem_replicate] at h
    rcases h with rfl | ⟨-, rfl⟩ <;> decide

theorem skipBlanks_lineBreak (t : List Char) : skipBlanks (lineBreak l ++ t) = skipBlanks t :=
  skipBlanks_append (fun _ h => isBlank_of_mem_lineBreak h) t

theorem delimited_lineBreak {t : List Char} (h : Delimited t) : Delimited (lineBreak l ++ t) := by
  match l with
  | none => exact h
  | some n => exact delimited_cons (.inl (by decide)) _

theorem delimited_printItems (items : List Json) (t : List Char) :
    Delimited (printItems l items ++ t) := by
  cases items with
  | nil =>
    rw [printItems, List.append_assoc]
    exact delimited_lineBreak (delimited_cons (by simp) _)
  | cons j r =>
    rw [printItems]
    exact delimited_cons (by simp) _

theorem delimited_printMembers (members : List (String × Json)) (t : List Char) :
    Delimited (printMembers l members ++ t) := by
  cases members with
  | nil =>
    rw [printMembers, List.append_assoc]
    exact delimited_lineBreak (delimited_cons (by simp) _)
  | cons m r =>
    rw [printMembers]
    exact delimited_cons (by simp) _

/-- What stands before an element or a member: a comma, unless it is the first, and a line break. -/
def lead (l : Option Nat) (first : Bool) : List Char :=
  (if first then [] else [',']) ++ lineBreak (l.map (· + 1))

/-- The break of the line behind the last element, absent between two brackets. -/
def trail (l : Option Nat) (first : Bool) : List Char := if first then [] else lineBreak l

theorem skipBlanks_trail (first : Bool) (t : List Char) :
    skipBlanks (trail l first ++ t) = skipBlanks t := by
  cases first with
  | true => rfl
  | false => exact skipBlanks_lineBreak t

/-! ## Lists -/

theorem nextElement_lead {first : Bool} {c : Char} {u : List Char} (hc : isBlank c = false)
    (hend : c ≠ ']') : nextElement first (lead l first ++ c :: u) = .ok (true, c :: u) := by
  have hs : skipBlanks (lineBreak (l.map (· + 1)) ++ c :: u) = c :: u := by
    rw [skipBlanks_lineBreak, skipBlanks_of_not_blank hc]
  unfold nextElement
  cases first with
  | true =>
    rw [bind_ok (next?_cons (show skipBlanks (lead l true ++ c :: u) = c :: u from hs))]
    by_cases h : c = ','
    · subst h
      rfl
    · simp [pure_eq]
  | false =>
    have hcomma : skipBlanks (lead l false ++ c :: u) =
        ',' :: (lineBreak (l.map (· + 1)) ++ c :: u) := skipBlanks_of_not_blank (by decide) _
    rw [bind_ok (next?_cons hcomma)]
    show (advance >>= fun _ => next? >>= _) _ = _
    rw [bind_ok (show advance (',' :: _) = .ok ((), lineBreak _ ++ c :: u) from rfl),
      bind_ok (next?_cons hs)]
    simp [pure_eq]

theorem nextElement_trail (first : Bool) (rest : List Char) :
    nextElement first (trail l first ++ ']' :: rest) = .ok (false, ']' :: rest) := by
  have hs : skipBlanks (trail l first ++ ']' :: rest) = ']' :: rest := by
    rw [skipBlanks_trail, skipBlanks_of_not_blank (by decide)]
  unfold nextElement
  rw [bind_ok (next?_cons hs)]
  rfl

theorem elementStep_lead {element : Reader α} (read : List α) {text rest : List Char} {a : α}
    (h : Reads element text a) (hd : Delimited rest) :
    elementStep element read (lead l read.isEmpty ++ (text ++ rest)) =
      .ok (.more (a :: read), rest) := by
  have hread := h.ok_append hd
  obtain ⟨c, t, rfl, hc, hend⟩ := h.opens
  unfold elementStep
  rw [List.cons_append, bind_ok (nextElement_lead hc hend), if_pos rfl]
  exact bind_ok hread

theorem elementStep_trail (element : Reader α) (read : List α) (rest : List Char) :
    elementStep element read (trail l read.isEmpty ++ ']' :: rest) =
      .ok (.done read.reverse, ']' :: rest) := by
  unfold elementStep
  rw [bind_ok (nextElement_trail read.isEmpty rest)]
  rfl

/-- A round of a list that takes one element leaves the repetition with what is behind it. -/
theorem untilDone_elementStep_lead {element : Reader α} (read : List α) {text rest : List Char}
    {a : α} {x : List α × List Char} (h : Reads element text a) (hd : Delimited rest)
    (hx : untilDone (elementStep element) (a :: read) rest = .ok x) :
    untilDone (elementStep element) read (lead l read.isEmpty ++ (text ++ rest)) = .ok x := by
  have hpos := h.length_pos
  have shorter : rest.length < (lead l read.isEmpty ++ (text ++ rest)).length := by
    simp only [List.length_append]
    omega
  exact untilDone_of_more (elementStep_lead read h hd) shorter hx

/-- The elements behind the first. -/
theorem untilDone_elementStep {element : Reader α} {f : α → Json} (rest : List Char) :
    ∀ (as read : List α), read ≠ [] →
      (∀ a ∈ as, Reads element (print (l.map (· + 1)) (f a)) a) →
      untilDone (elementStep element) read (printItems l (as.map f) ++ rest) =
        .ok (read.reverse ++ as, ']' :: rest) := by
  intro as
  induction as with
  | nil =>
    intro read hread _
    have hempty : read.isEmpty = false := by simpa using hread
    have hstep := elementStep_trail (l := l) element read rest
    rw [hempty] at hstep
    rw [List.map_nil, printItems, List.append_nil, List.append_assoc]
    exact untilDone_of_done hstep
  | cons a as ih =>
    intro read hread h
    have hempty : read.isEmpty = false := by simpa using hread
    have hx := ih (a :: read) (by simp) fun b hb => h b (List.mem_cons_of_mem _ hb)
    have hr := untilDone_elementStep_lead (l := l) read (h a (List.mem_cons_self ..))
      (delimited_printItems (as.map f) rest) hx
    rw [hempty] at hr
    have htext : printItems l ((a :: as).map f) ++ rest = lead l false ++
        (print (l.map (· + 1)) (f a) ++ (printItems l (as.map f) ++ rest)) := by
      simp [printItems, lead]
    rw [htext, hr, List.reverse_cons, List.append_assoc, List.singleton_append]

/-- A printed list is read as the values that its elements are read as. -/
theorem inList_print {element : Reader α} {f : α → Json} {as : List α} (rest : List Char)
    (h : ∀ a ∈ as, Reads element (print (l.map (· + 1)) (f a)) a) :
    inList (elements element) (print l (.array (as.map f)) ++ rest) = .ok (as, rest) := by
  unfold elements
  match as, h with
  | [], _ => exact inList_ok (untilDone_of_done (elementStep_trail (l := l) element [] rest))
  | a :: as, h =>
    have hx := untilDone_elementStep (l := l) rest as [a] (by simp)
      fun b hb => h b (List.mem_cons_of_mem _ hb)
    have hr := untilDone_elementStep_lead (l := l) [] (h a (List.mem_cons_self ..))
      (delimited_printItems (as.map f) rest) hx
    have htext : print l (.array ((a :: as).map f)) ++ rest = '[' :: (lead l true ++
        (print (l.map (· + 1)) (f a) ++ (printItems l (as.map f) ++ rest))) := by
      simp [print, lead]
    rw [htext]
    exact inList_ok hr

/-! ## Objects -/

/-- The text of a member up to its value. -/
def label (l : Option Nat) (name : String) : List Char :=
  stringChars name ++ nameEnd (l.map (· + 1))

theorem nextMember_lead (first : Bool) (name : String) (t : List Char) :
    nextMember first (lead l first ++ (stringChars name ++ t)) = .ok (true, stringChars name ++ t) := by
  have hs : skipBlanks (lineBreak (l.map (· + 1)) ++ (stringChars name ++ t)) =
      stringChars name ++ t := by
    rw [skipBlanks_lineBreak]
    exact skipBlanks_of_not_blank (by decide) _
  unfold nextMember
  cases first with
  | true => exact bind_ok (next?_cons hs)
  | false =>
    have hcomma : skipBlanks (lead l false ++ (stringChars name ++ t)) =
        ',' :: (lineBreak (l.map (· + 1)) ++ (stringChars name ++ t)) :=
      skipBlanks_of_not_blank (by decide) _
    rw [bind_ok (next?_cons hcomma)]
    show (advance >>= fun _ => next? >>= _) _ = _
    rw [bind_ok (show advance (',' :: _) = .ok ((), lineBreak _ ++ (stringChars name ++ t)) from rfl),
      bind_ok (next?_cons hs)]
    rfl

theorem nextMember_trail (first : Bool) (rest : List Char) :
    nextMember first (trail l first ++ '\x7d' :: rest) = .ok (false, '\x7d' :: rest) := by
  have hs : skipBlanks (trail l first ++ '\x7d' :: rest) = '\x7d' :: rest := by
    rw [skipBlanks_trail, skipBlanks_of_not_blank (by decide)]
  unfold nextMember
  rw [bind_ok (next?_cons hs)]
  rfl

/-- Behind the colon at most a blank stands before the value. -/
theorem colon_nameEnd (t : List Char) :
    ∃ u, colon (nameEnd l ++ t) = .ok ((), u) ∧ skipBlanks u = skipBlanks t := by
  have hs : ∀ u, colon (':' :: u) = .ok ((), u) := by
    intro u
    unfold colon
    rw [bind_ok (next?_cons (skipBlanks_of_not_blank (by decide) u))]
    rfl
  cases l with
  | none => exact ⟨t, hs t, rfl⟩
  | some n =>
    have hblank : ∀ c ∈ [' '], isBlank c = true := by
      intro c hc
      rw [List.mem_singleton.1 hc]
      rfl
    exact ⟨' ' :: t, hs _, skipBlanks_append hblank t⟩

theorem memberStep_lead {value : Reader α} (read : List (String × α)) (name : String)
    {text rest : List Char} {a : α} (h : Reads value text a) (hd : Delimited rest) :
    memberStep value read (lead l read.isEmpty ++ (label l name ++ (text ++ rest))) =
      .ok (.more ((name, a) :: read), rest) := by
  obtain ⟨u, hcolon, hu⟩ := colon_nameEnd (l := l.map (· + 1)) (text ++ rest)
  rw [h.skipBlanks_eq] at hu
  unfold memberStep label
  rw [List.append_assoc (stringChars name), bind_ok (nextMember_lead _ name _), if_pos rfl,
    bind_ok (string_stringChars name _), bind_ok hcolon, bind_ok (h.ok u rest hu hd)]
  rfl

theorem memberStep_trail (value : Reader α) (read : List (String × α)) (rest : List Char) :
    memberStep value read (trail l read.isEmpty ++ '\x7d' :: rest) =
      .ok (.done read.reverse, '\x7d' :: rest) := by
  unfold memberStep
  rw [bind_ok (nextMember_trail read.isEmpty rest)]
  rfl

/-- A round of an object that takes one member leaves the repetition with what is behind it. -/
theorem untilDone_memberStep_lead {value : Reader α} (read : List (String × α)) (name : String)
    {text rest : List Char} {a : α} {x : List (String × α) × List Char} (h : Reads value text a)
    (hd : Delimited rest) (hx : untilDone (memberStep value) ((name, a) :: read) rest = .ok x) :
    untilDone (memberStep value) read
      (lead l read.isEmpty ++ (label l name ++ (text ++ rest))) = .ok x := by
  have hpos := h.length_pos
  have shorter : rest.length <
      (lead l read.isEmpty ++ (label l name ++ (text ++ rest))).length := by
    simp only [List.length_append]
    omega
  exact untilDone_of_more (memberStep_lead read name h hd) shorter hx

/-- The members behind the first. -/
theorem untilDone_memberStep {value : Reader α} {f : α → Json} (rest : List Char) :
    ∀ (as read : List (String × α)), read ≠ [] →
      (∀ p ∈ as, Reads value (print (l.map (· + 1)) (f p.2)) p.2) →
      untilDone (memberStep value) read
          (printMembers l (as.map fun p => (p.1, f p.2)) ++ rest) =
        .ok (read.reverse ++ as, '\x7d' :: rest) := by
  intro as
  induction as with
  | nil =>
    intro read hread _
    have hempty : read.isEmpty = false := by simpa using hread
    have hstep := memberStep_trail (l := l) value read rest
    rw [hempty] at hstep
    rw [List.map_nil, printMembers, List.append_nil, List.append_assoc]
    exact untilDone_of_done hstep
  | cons p as ih =>
    intro read hread h
    obtain ⟨name, a⟩ := p
    have hempty : read.isEmpty = false := by simpa using hread
    have hx := ih ((name, a) :: read) (by simp) fun q hq => h q (List.mem_cons_of_mem _ hq)
    have hd : Delimited (printMembers l (as.map fun p => (p.1, f p.2)) ++ rest) :=
      delimited_printMembers _ _
    have hr := untilDone_memberStep_lead (l := l) read name (h _ (List.mem_cons_self ..)) hd hx
    rw [hempty] at hr
    have htext : printMembers l (((name, a) :: as).map fun p => (p.1, f p.2)) ++ rest =
        lead l false ++ (label l name ++ (print (l.map (· + 1)) (f a) ++
          (printMembers l (as.map fun p => (p.1, f p.2)) ++ rest))) := by
      simp [printMembers, lead, label]
    rw [htext, hr, List.reverse_cons, List.append_assoc, List.singleton_append]

/-- A printed object is read as the values that its members are read as. -/
theorem inObject_print {value : Reader α} {f : α → Json} {as : List (String × α)}
    (rest : List Char) (h : ∀ p ∈ as, Reads value (print (l.map (· + 1)) (f p.2)) p.2) :
    inObject (members value) (print l (.object (as.map fun p => (p.1, f p.2))) ++ rest) =
      .ok (as, rest) := by
  unfold members
  match as, h with
  | [], _ => exact inObject_ok (untilDone_of_done (memberStep_trail (l := l) value [] rest))
  | (name, a) :: as, h =>
    have hx := untilDone_memberStep (l := l) rest as [(name, a)] (by simp)
      fun q hq => h q (List.mem_cons_of_mem _ hq)
    have hd : Delimited (printMembers l (as.map fun p => (p.1, f p.2)) ++ rest) :=
      delimited_printMembers _ _
    have hr := untilDone_memberStep_lead (l := l) [] name (h _ (List.mem_cons_self ..)) hd hx
    have htext : print l (.object (((name, a) :: as).map fun p => (p.1, f p.2))) ++ rest =
        '\x7b' :: (lead l true ++ (label l name ++ (print (l.map (· + 1)) (f a) ++
          (printMembers l (as.map fun p => (p.1, f p.2)) ++ rest)))) := by
      simp [print, lead, label]
    rw [htext]
    exact inObject_ok hr

/-! ## Values of any kind -/

theorem print_array_opens (items : List Json) :
    ∃ c t, print l (.array items) = c :: t ∧ isBlank c = false ∧ c ≠ ']' := by
  cases items <;> exact ⟨'[', _, rfl, by decide, by decide⟩

theorem print_object_opens (members : List (String × Json)) :
    ∃ c t, print l (.object members) = c :: t ∧ isBlank c = false ∧ c ≠ ']' := by
  cases members <;> exact ⟨'\x7b', _, rfl, by decide, by decide⟩

/-- A printed list is found by its bracket. -/
theorem start_array {items : List Json} {s rest : List Char}
    (hs : skipBlanks s = print l (.array items) ++ rest) :
    start s = .ok ('[', print l (.array items) ++ rest) := by
  obtain ⟨t, ht⟩ : ∃ t, print l (.array items) = '[' :: t := by
    cases items <;> exact ⟨_, rfl⟩
  rw [ht] at hs ⊢
  exact start_cons hs

/-- A printed object is found by its brace. -/
theorem start_object {members : List (String × Json)} {s rest : List Char}
    (hs : skipBlanks s = print l (.object members) ++ rest) :
    start s = .ok ('\x7b', print l (.object members) ++ rest) := by
  obtain ⟨t, ht⟩ : ∃ t, print l (.object members) = '\x7b' :: t := by
    cases members <;> exact ⟨_, rfl⟩
  rw [ht] at hs ⊢
  exact start_cons hs

theorem stringChars_opens (s : String) :
    ∃ c t, stringChars s = c :: t ∧ isBlank c = false ∧ c ≠ ']' :=
  ⟨'"', _, rfl, by decide, by decide⟩

theorem number_opens {n : Number} (h : ∀ x ∈ n.doubles, x.ReadsBack) :
    ∃ c t, n.chars = c :: t ∧ isBlank c = false ∧ c ≠ ']' := by
  obtain ⟨c, t, hc, hstart⟩ := number_head (number_chars h)
  refine ⟨c, t, hc, ?_, ?_⟩
  · cases hb : isBlank c with
    | false => rfl
    | true =>
      simp only [isBlank, decide_eq_true_eq] at hb
      rcases hb with rfl | rfl | rfl | rfl <;> simp at hstart
  · rintro rfl
    simp at hstart

theorem reads_null (depth : Nat) : Reads (value depth) (print l .null) .null where
  opens := ⟨'n', _, rfl, by decide, by decide⟩
  ok s rest hs _ := by
    unfold value
    rw [bind_ok (start_cons hs)]
    exact bind_ok (word_append (w := "null") rfl rest)

theorem reads_bool (depth : Nat) (b : Bool) : Reads (value depth) (print l (.bool b)) (.bool b) := by
  cases b with
  | false =>
    refine ⟨⟨'f', _, rfl, by decide, by decide⟩, fun s rest hs _ => ?_⟩
    unfold value
    rw [bind_ok (start_cons hs)]
    exact bind_ok (word_append (w := "false") rfl rest)
  | true =>
    refine ⟨⟨'t', _, rfl, by decide, by decide⟩, fun s rest hs _ => ?_⟩
    unfold value
    rw [bind_ok (start_cons hs)]
    exact bind_ok (word_append (w := "true") rfl rest)

/-- A printed number is found by its first character, and read from there. -/
theorem start_number {n : Number} (h : ∀ x ∈ n.doubles, x.ReadsBack) {s rest : List Char}
    (hs : skipBlanks s = n.chars ++ rest) (hd : Delimited rest) :
    ∃ c u, (c = '-' ∨ c.isDigit = true) ∧ start s = .ok (c, c :: u) ∧
      number (c :: u) = .ok (n, rest) := by
  obtain ⟨c, t, hc, hstart⟩ := number_head (number_chars h)
  have hr := number_chars_append h hd
  rw [hc, List.cons_append] at hs hr
  exact ⟨c, t ++ rest, hstart, start_cons hs, hr⟩

theorem reads_number (depth : Nat) {n : Number} (h : ∀ x ∈ n.doubles, x.ReadsBack) :
    Reads (value depth) (print l (.number n)) (.number n) where
  opens := number_opens h
  ok s rest hs hd := by
    obtain ⟨c, u, hstart, hs, hr⟩ := start_number h hs hd
    unfold value
    rw [bind_ok hs]
    split
    case h_7 =>
      rw [if_pos hstart]
      exact bind_ok hr
    -- no number starts like another value
    all_goals simp at hstart

theorem reads_string (depth : Nat) (str : String) :
    Reads (value depth) (print l (.string str)) (.string str) where
  opens := stringChars_opens str
  ok s rest hs _ := by
    unfold value
    rw [bind_ok (start_cons hs)]
    exact bind_ok (string_stringChars str rest)

theorem reads_array {depth : Nat} {items : List Json}
    (h : ∀ j ∈ items, Reads (value depth) (print (l.map (· + 1)) j) j) :
    Reads (value (depth + 1)) (print l (.array items)) (.array items) where
  opens := print_array_opens items
  ok s rest hs _ := by
    have hr := inList_print (l := l) (f := id) rest h
    rw [List.map_id] at hr
    unfold value
    rw [bind_ok (start_array hs)]
    exact bind_ok hr

theorem reads_object {depth : Nat} {members : List (String × Json)}
    (h : ∀ m ∈ members, Reads (value depth) (print (l.map (· + 1)) m.2) m.2) :
    Reads (value (depth + 1)) (print l (.object members)) (.object members) where
  opens := print_object_opens members
  ok s rest hs _ := by
    have hr := inObject_print (l := l) (f := id) rest h
    have hid : (members.map fun p => (p.1, id p.2)) = members := List.map_id members
    rw [hid] at hr
    unfold value
    rw [bind_ok (start_object hs)]
    exact bind_ok hr

mutual

/-- A printed value is read as itself. -/
theorem reads_value : ∀ (j : Json) (depth : Nat) (l : Option Nat), j.nesting ≤ depth →
    (∀ x ∈ j.doubles, x.ReadsBack) → Reads (value depth) (print l j) j
  | .null, depth, _, _, _ => reads_null depth
  | .bool b, depth, _, _, _ => reads_bool depth b
  | .number n, depth, _, _, h => reads_number depth h
  | .string s, depth, _, _, _ => reads_string depth s
  | .array items, depth, l, hn, h => by
    obtain ⟨k, rfl, hk⟩ := exists_of_nesting_array_le hn
    exact reads_array fun j hj => reads_items items k (l.map (· + 1)) hk h j hj
  | .object members, depth, l, hn, h => by
    obtain ⟨k, rfl, hk⟩ := exists_of_nesting_object_le hn
    exact reads_object fun m hm => reads_members members k (l.map (· + 1)) hk h m hm

theorem reads_items : ∀ (items : List Json) (depth : Nat) (l : Option Nat),
    (∀ j ∈ items, j.nesting ≤ depth) → (∀ x ∈ doublesOfItems items, x.ReadsBack) →
    ∀ j ∈ items, Reads (value depth) (print l j) j
  | i :: r, depth, l, hn, h, j, hj => by
    rcases List.mem_cons.1 hj with hi | hj
    · rw [hi]
      exact reads_value i depth l (hn i (List.mem_cons_self ..))
        fun x hx => h x (List.mem_append_left _ hx)
    · exact reads_items r depth l (fun j hj => hn j (List.mem_cons_of_mem _ hj))
        (fun x hx => h x (List.mem_append_right _ hx)) j hj

theorem reads_members : ∀ (members : List (String × Json)) (depth : Nat) (l : Option Nat),
    (∀ m ∈ members, m.2.nesting ≤ depth) → (∀ x ∈ doublesOfMembers members, x.ReadsBack) →
    ∀ m ∈ members, Reads (value depth) (print l m.2) m.2
  | (k, i) :: r, depth, l, hn, h, m, hm => by
    rcases List.mem_cons.1 hm with hi | hm
    · rw [hi]
      exact reads_value i depth l (hn _ (List.mem_cons_self ..))
        fun x hx => h x (List.mem_append_left _ hx)
    · exact reads_members r depth l (fun m hm => hn m (List.mem_cons_of_mem _ hm))
        (fun x hx => h x (List.mem_append_right _ hx)) m hm

end

end Reader

end OrmDdl.Json
