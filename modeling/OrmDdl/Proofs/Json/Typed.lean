import OrmDdl.Json.Record
import OrmDdl.Proofs.Json.Printed
/-!
# Values of a known form are read back

The readers that expect text, a number, a list or an object take what is printed for one: each
finds the first character it looks for, and goes on as the reader of any value does.
-/

namespace OrmDdl.Json.Reader

variable {α : Type} {l : Option Nat}

/-! ## Scalars -/

theorem text_reads (s : String) : Reads text (print l (.string s)) s where
  opens := stringChars_opens s
  ok t rest hs _ := by
    unfold text
    rw [bind_ok (start_cons hs)]
    exact string_stringChars s rest

/-- What does not start like `null` is read by the reader given. -/
theorem optional_reads {r : Reader α} {text : List Char} {a : α} (h : Reads r text a)
    (hnull : text.head? ≠ some 'n') : Reads (optional r) text (some a) where
  opens := h.opens
  ok s rest hs hd := by
    -- `start` passes the blanks, and `r` is given what is behind them
    have hr : r (text ++ rest) = .ok (a, rest) := h.ok_append hd
    obtain ⟨c, t, rfl, hc, -⟩ := h.opens
    have hn : c ≠ 'n' := fun hn => hnull (congrArg some hn)
    have hdone : (do return some (← r) : Reader (Option α)) ((c :: t) ++ rest) =
        .ok (some a, rest) := bind_ok hr
    unfold optional
    rw [bind_ok (start_cons hs)]
    split
    · exact absurd rfl hn
    · exact hdone

theorem double_reads {x : Double} (h : x.ReadsBack) : Reads double (print l (ofDouble x)) x := by
  have htext : print l (ofDouble x) = (Number.double x).chars := by
    unfold ofDouble
    rw [if_pos h.finite]
    rfl
  have hback : ∀ y ∈ (Number.double x).doubles, y.ReadsBack := by
    intro y hy
    rw [List.mem_singleton.1 hy]
    exact h
  rw [htext]
  refine ⟨number_opens hback, fun s rest hs hd => ?_⟩
  obtain ⟨c, u, hstart, hs, hr⟩ := start_number hback hs hd
  unfold double
  rw [bind_ok hs, if_pos hstart]
  exact bind_ok hr

/-- A number does not start like `null`. -/
theorem head?_ofDouble {x : Double} (h : x.ReadsBack) :
    (print l (ofDouble x)).head? ≠ some 'n' := by
  obtain ⟨c, t, hc, hstart⟩ := number_head h.number
  have htext : print l (ofDouble x) = c :: t := by
    unfold ofDouble
    rw [if_pos h.finite]
    exact hc
  rw [htext]
  rintro ⟨⟩
  simp at hstart

theorem natural32_digits {n : Nat} (h : n < Nat.pow 2 32) :
    Reads natural32 (Nat.toDigits 10 n) n := by
  have h64 : n < Nat.pow 2 64 := Nat.lt_trans h (by decide)
  have hback : ∀ y ∈ (Number.natural n h64).doubles, y.ReadsBack := fun _ hy => nomatch hy
  refine ⟨number_opens hback, fun s rest hs hd => ?_⟩
  obtain ⟨c, u, hstart, hs, hr⟩ := start_number hback hs hd
  unfold natural32
  rw [bind_ok hs, if_pos hstart]
  refine settled_ok ?_
  rw [bind_ok hr]
  show (if n < Nat.pow 2 32 then _ else _ : Reader Nat) rest = _
  rw [if_pos h]
  rfl

theorem natural32_reads {n : Nat} (h : n < Nat.pow 2 32) :
    Reads natural32 (print l (.ofNat n)) n := by
  have h64 : n < Nat.pow 2 64 := Nat.lt_trans h (by decide)
  have htext : print l (.ofNat n) = Nat.toDigits 10 n := by
    unfold Json.ofNat
    rw [dif_pos h64]
    rfl
  rw [htext]
  exact natural32_digits h

theorem decoded_ok {decode : String → Except Cause α} {name : String} {a : α}
    (h : decode name = .ok a) (rest : List Char) :
    decoded decode (stringChars name ++ rest) = .ok (a, rest) := by
  refine settled_ok ?_
  rw [bind_ok (string_stringChars name rest), h]
  rfl

theorem variant_reads {decode : String → Except Cause α} {name : String} {a : α}
    (h : decode name = .ok a) (depth : Nat) :
    Reads (variant decode depth) (print l (.string name)) a where
  opens := stringChars_opens name
  ok t rest hs _ := by
    unfold variant
    rw [bind_ok (start_cons hs)]
    exact decoded_ok h rest

/-! ## Lists and objects -/

theorem list_reads {element : Nat → Reader α} {f : α → Json} {as : List α} {depth : Nat}
    (h : ∀ a ∈ as, Reads (element depth) (print (l.map (· + 1)) (f a)) a) :
    Reads (list element (depth + 1)) (print l (.array (as.map f))) as where
  opens := print_array_opens _
  ok s rest hs _ := by
    unfold list
    rw [bind_ok (start_array hs)]
    exact inList_print rest h

theorem named_reads {value : Nat → Reader α} {f : α → Json} {as : List (String × α)} {depth : Nat}
    (h : ∀ p ∈ as, Reads (value depth) (print (l.map (· + 1)) (f p.2)) p.2) :
    Reads (named value (depth + 1)) (print l (.object (as.map fun p => (p.1, f p.2)))) as where
  opens := print_object_opens _
  ok s rest hs _ := by
    unfold named
    rw [bind_ok (start_object hs)]
    exact inObject_print rest h

end OrmDdl.Json.Reader
