import OrmDdl.Json.Record
import OrmDdl.Proofs.Json.Printed
/-!
# Records are read from printed objects

`Record.Fills`: members of an object fill the fields of a record one after the other, each once and
each by the reader of its field. `Record.reads_object`: a printed object whose members fill the
record is read as what the fields make. Field lists in which some members are left out are built
with `Fills.append` and `Fills.optional`.
-/

namespace OrmDdl.Json

open Reader

variable {δ α β : Type} {l : Option Nat}

/-! ## Fields -/

theorem Slot.reads {name : String} {required : Bool} {get : δ → Option β} {set : δ → β → δ}
    {read : Nat → Reader β} {others : List String} {depth : Nat} {text : List Char} {b : β}
    (d : δ) (h : Reads (read depth) text b) :
    Reads ((Slot.of name required get set read others).read depth d) text (set d b) :=
  h.bind_pure (set d)

namespace Record

/-- The members fill the fields of the record one after the other. -/
inductive Fills (r : Record δ α) (depth : Nat) (l : Option Nat) :
    δ → List (String × Json) → δ → Prop
  | nil (d : δ) : Fills r depth l d [] d
  | cons {d d' d'' : δ} {name : String} {j : Json} {members : List (String × Json)} (slot : Slot δ)
      (found : r.slot? name = some slot) (fresh : slot.isRead d = false)
      (reads : Reads (slot.read depth d) (print (l.map (· + 1)) j) d')
      (rest : Fills r depth l d' members d'') : Fills r depth l d ((name, j) :: members) d''

namespace Fills

variable {r : Record δ α} {depth : Nat} {d d' d'' : δ}

theorem append {ms ns : List (String × Json)} (h : Fills r depth l d ms d')
    (h' : Fills r depth l d' ns d'') : Fills r depth l d (ms ++ ns) d'' := by
  induction h with
  | nil => exact h'
  | cons slot found fresh reads _ ih => exact .cons slot found fresh reads (ih h')

theorem one {name : String} {j : Json} (slot : Slot δ) (found : r.slot? name = some slot)
    (fresh : slot.isRead d = false) (reads : Reads (slot.read depth d) (print (l.map (· + 1)) j) d') :
    Fills r depth l d [(name, j)] d' :=
  .cons slot found fresh reads (.nil d')

/-- A member that is left out where there is no value. -/
theorem optional {name : String} (o : Option β) (f : β → Json) (set : Option β → δ) (slot : Slot δ)
    (found : r.slot? name = some slot) (fresh : slot.isRead (set none) = false)
    (reads : ∀ b ∈ o, Reads (slot.read depth (set none)) (print (l.map (· + 1)) (f b)) (set (some b))) :
    Fills r depth l (set none) (o.map fun b => (name, f b)).toList (set o) := by
  cases o with
  | none => exact .nil _
  | some b => exact one slot found fresh (reads b rfl)

end Fills

/-! ## Objects -/

variable {r : Record δ α} {depth : Nat}

theorem takeMember_ok {d d' : δ} {name : String} {slot : Slot δ} {text rest : List Char}
    (found : r.slot? name = some slot) (fresh : slot.isRead d = false)
    (reads : Reads (slot.read depth d) text d') (hd : Delimited rest) :
    r.takeMember depth d name (nameEnd (l.map (· + 1)) ++ (text ++ rest)) = .ok (d', rest) := by
  obtain ⟨u, hcolon, hu⟩ := colon_nameEnd (l := l.map (· + 1)) (text ++ rest)
  rw [reads.skipBlanks_eq] at hu
  unfold takeMember
  rw [found]
  show (if slot.isRead d = true then _ else colon >>= fun _ => slot.read depth d) _ = _
  rw [if_neg (by simp [fresh]), bind_ok hcolon]
  exact reads.ok u rest hu hd

theorem memberStep_lead {d d' : δ} (first : Bool) {name : String} {slot : Slot δ}
    {text rest : List Char} (found : r.slot? name = some slot) (fresh : slot.isRead d = false)
    (reads : Reads (slot.read depth d) text d') (hd : Delimited rest) :
    r.memberStep depth (first, d) (lead l first ++ (label l name ++ (text ++ rest))) =
      .ok (.more (false, d'), rest) := by
  unfold Record.memberStep label
  rw [List.append_assoc (stringChars name), bind_ok (nextMember_lead first name _), if_pos rfl,
    bind_ok (string_stringChars name _), bind_ok (takeMember_ok found fresh reads hd)]
  rfl

/-- The first member of an object, of a field that is known. -/
theorem memberStep_first {d : δ} {name : String} {slot : Slot δ} (found : r.slot? name = some slot)
    (fresh : slot.isRead d = false) (x : List Char) :
    r.memberStep depth (true, d) (stringChars name ++ ':' :: x) =
      (slot.read depth d >>= fun d' => pure (.more (false, d'))) x := by
  have hnext : nextMember true (stringChars name ++ ':' :: x) =
      .ok (true, stringChars name ++ ':' :: x) := nextMember_lead (l := none) true name _
  have hcolon : colon (':' :: x) = .ok ((), x) := by
    unfold colon
    rw [bind_ok (next?_cons (skipBlanks_of_not_blank (by decide) x))]
    rfl
  have htake : r.takeMember depth d name (':' :: x) = slot.read depth d x := by
    unfold Record.takeMember
    rw [found]
    show (if slot.isRead d = true then _ else colon >>= fun _ => slot.read depth d) _ = _
    rw [if_neg (by simp [fresh]), bind_ok hcolon]
  have hstring := string_stringChars name (':' :: x)
  unfold Record.memberStep
  rw [bind_ok hnext, if_pos rfl, bind_ok hstring]
  show (r.takeMember depth d name (':' :: x) >>= _) = _
  rw [htake]
  rfl

theorem memberStep_trail {d : δ} {a : α} (first : Bool) (rest : List Char)
    (hfinish : r.finish d = .ok a) :
    r.memberStep depth (first, d) (trail l first ++ '\x7d' :: rest) =
      .ok (.done a, '\x7d' :: rest) := by
  have hc : r.complete d ('\x7d' :: rest) = .ok (a, '\x7d' :: rest) := by
    unfold complete
    rw [hfinish]
    rfl
  unfold Record.memberStep
  rw [bind_ok (nextMember_trail first rest)]
  exact bind_ok hc

theorem untilDone_memberStep_lead {d d' : δ} (first : Bool) {name : String} {slot : Slot δ}
    {text rest : List Char} {x : α × List Char} (found : r.slot? name = some slot)
    (fresh : slot.isRead d = false) (reads : Reads (slot.read depth d) text d')
    (hd : Delimited rest) (hx : untilDone (r.memberStep depth) (false, d') rest = .ok x) :
    untilDone (r.memberStep depth) (first, d)
      (lead l first ++ (label l name ++ (text ++ rest))) = .ok x := by
  have hpos := reads.length_pos
  have shorter : rest.length < (lead l first ++ (label l name ++ (text ++ rest))).length := by
    simp only [List.length_append]
    omega
  exact untilDone_of_more (memberStep_lead first found fresh reads hd) shorter hx

/-- The members behind the first. -/
theorem untilDone_memberStep {d d' : δ} {members : List (String × Json)} {a : α}
    (rest : List Char) (h : Fills r depth l d members d') (hfinish : r.finish d' = .ok a) :
    untilDone (r.memberStep depth) (false, d) (printMembers l members ++ rest) =
      .ok (a, '\x7d' :: rest) := by
  induction h with
  | nil d =>
    have hstep : r.memberStep depth (false, d) (trail l false ++ '\x7d' :: rest) =
        .ok (.done a, '\x7d' :: rest) := memberStep_trail false rest hfinish
    rw [printMembers, List.append_assoc]
    exact untilDone_of_done hstep
  | @cons d d' d'' name j members slot found fresh reads _ ih =>
    have hd : Delimited (printMembers l members ++ rest) := delimited_printMembers _ _
    have hr := untilDone_memberStep_lead (l := l) false found fresh reads hd (ih hfinish)
    have htext : printMembers l ((name, j) :: members) ++ rest = lead l false ++
        (label l name ++ (print (l.map (· + 1)) j ++ (printMembers l members ++ rest))) := by
      simp [printMembers, lead, label]
    rw [htext, hr]

/-- A printed object whose members fill the fields is read as the record of these fields. -/
theorem reads_object {members : List (String × Json)} {d : δ} {a : α}
    (h : Fills r depth l r.empty members d) (hfinish : r.finish d = .ok a) :
    Reads (r.read (depth + 1)) (print l (.object members)) a where
  opens := print_object_opens members
  ok s rest hs _ := by
    have hr : inObject (r.ofMembers depth) (print l (.object members) ++ rest) = .ok (a, rest) := by
      unfold ofMembers
      cases h with
      | nil =>
        exact inObject_ok (untilDone_of_done (memberStep_trail (l := l) true rest hfinish))
      | @cons _ d' _ name j ms slot found fresh reads hrest =>
        have hx := untilDone_memberStep rest hrest hfinish
        have hd : Delimited (printMembers l ms ++ rest) := delimited_printMembers _ _
        have hm := untilDone_memberStep_lead (l := l) true found fresh reads hd hx
        have htext : print l (.object ((name, j) :: ms)) ++ rest = '\x7b' :: (lead l true ++
            (label l name ++ (print (l.map (· + 1)) j ++ (printMembers l ms ++ rest)))) := by
          simp [print, lead, label]
        rw [htext]
        exact inObject_ok hm
    unfold Record.read
    rw [bind_ok (start_object hs)]
    exact hr

end Record

end OrmDdl.Json
