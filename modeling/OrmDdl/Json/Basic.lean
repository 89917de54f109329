import OrmDdl.Double.Basic
/-!
# JSON values

A value as its text writes it: members of an object stand in order, and a name may occur twice.
`normalize` gives the value that the text means, where every object holds each name once, with the
last value given for it, in ascending order.
-/

namespace OrmDdl

namespace Json

/-- A JSON number: whole numbers of 64 bits are exact, all others are doubles. -/
inductive Number where
  | natural (n : Nat) (fits : n < Nat.pow 2 64)
  | negative (magnitude : Nat) (fits : 0 < magnitude ∧ magnitude ≤ Nat.pow 2 63)
  | double (x : Double)
deriving DecidableEq

namespace Number

/-- The double nearest to a number. -/
def toDouble : Number → Double
  | natural n _ => .ofNat n
  | negative m _ => .ofRatio true m 1
  | double x => x

/-- Equality of numbers; a whole number is unequal to the double of the same value. -/
def same : Number → Number → Bool
  | natural m _, natural n _ => m == n
  | negative m _, negative n _ => m == n
  | double x, double y => x.same y
  | _, _ => false

end Number

end Json

/-- A JSON value with its members in the order of the text. -/
inductive Json where
  | null
  | bool (b : Bool)
  | number (n : Json.Number)
  | string (s : String)
  | array (items : List Json)
  | object (members : List (String × Json))

namespace Json

/-- The number of a natural; one beyond 64 bits becomes a double. -/
def ofNat (n : Nat) : Json :=
  .number (if h : n < Nat.pow 2 64 then .natural n h else .double (.ofNat n))

/-! ### Objects with each name once -/

/-- Puts a member at the place of its name, over an earlier one of that name. -/
def insertMember (name : String) (value : Json) : List (String × Json) → List (String × Json)
  | [] => [(name, value)]
  | (k, v) :: r =>
    if name < k then (name, value) :: (k, v) :: r
    else if name = k then (name, value) :: r
    else (k, v) :: insertMember name value r

/-- The members in order of names, the last of each name. -/
def sortMembers (members : List (String × Json)) : List (String × Json) :=
  members.foldl (fun sorted m => insertMember m.1 m.2 sorted) []

mutual

/-- The value with every object in order of names, the last member of each name. -/
def normalize : Json → Json
  | array items => array (normalizeItems items)
  | object members => object (sortMembers (normalizeMembers members))
  | value => value

def normalizeItems : List Json → List Json
  | [] => []
  | j :: r => normalize j :: normalizeItems r

def normalizeMembers : List (String × Json) → List (String × Json)
  | [] => []
  | (k, j) :: r => (k, normalize j) :: normalizeMembers r

end

mutual

/-- Whether every object holds each name once, in ascending order. -/
def isNormal : Json → Bool
  | array items => areNormal items
  | object members =>
    decide ((members.map Prod.fst).Pairwise (· < ·)) && areNormalMembers members
  | _ => true

def areNormal : List Json → Bool
  | [] => true
  | j :: r => isNormal j && areNormal r

def areNormalMembers : List (String × Json) → Bool
  | [] => true
  | (_, j) :: r => isNormal j && areNormalMembers r

end

theorem areNormalMembers_iff {ms : List (String × Json)} :
    areNormalMembers ms = true ↔ ∀ m ∈ ms, isNormal m.2 = true := by
  induction ms with
  | nil => simp [areNormalMembers]
  | cons m r ih => simp [areNormalMembers, ih]

theorem mem_insertMember {name : String} {value : Json} {ms : List (String × Json)}
    {m : String × Json} (h : m ∈ insertMember name value ms) : m = (name, value) ∨ m ∈ ms := by
  induction ms with
  | nil => simpa [insertMember] using h
  | cons p r ih =>
    simp only [insertMember] at h
    split at h
    · simpa using h
    · split at h
      · simp only [List.mem_cons] at h ⊢
        exact h.imp_right Or.inr
      · simp only [List.mem_cons] at h ⊢
        rcases h with h | h
        · exact .inr (.inl h)
        · exact (ih h).imp_right Or.inr

theorem sorted_insertMember {name : String} {value : Json} {ms : List (String × Json)}
    (h : (ms.map Prod.fst).Pairwise (· < ·)) :
    ((insertMember name value ms).map Prod.fst).Pairwise (· < ·) := by
  induction ms with
  | nil => simp [insertMember]
  | cons p r ih =>
    obtain ⟨k, v⟩ := p
    simp only [List.map_cons, List.pairwise_cons] at h
    simp only [insertMember]
    split
    · rename_i hlt
      simp only [List.map_cons, List.pairwise_cons, List.mem_cons]
      refine ⟨?_, h.1, h.2⟩
      rintro a (rfl | ha)
      · exact hlt
      · exact String.lt_trans hlt (h.1 a ha)
    · split
      · rename_i heq
        subst heq
        simpa using h
      · rename_i hlt hne
        simp only [List.map_cons, List.pairwise_cons]
        refine ⟨?_, ih h.2⟩
        intro a ha
        obtain ⟨m, hm, rfl⟩ := List.mem_map.1 ha
        rcases mem_insertMember hm with rfl | hm
        · exact Std.lt_of_le_of_ne (String.not_lt.1 hlt) (Ne.symm hne)
        · exact h.1 _ (List.mem_map_of_mem hm)

theorem sorted_sortMembers (ms : List (String × Json)) :
    ((sortMembers ms).map Prod.fst).Pairwise (· < ·) := by
  suffices ∀ acc : List (String × Json), (acc.map Prod.fst).Pairwise (· < ·) →
      ((ms.foldl (fun sorted m => insertMember m.1 m.2 sorted) acc).map Prod.fst).Pairwise
        (· < ·) from this [] (by simp)
  induction ms with
  | nil => exact fun _ h => h
  | cons m r ih => exact fun acc h => ih _ (sorted_insertMember h)

theorem mem_sortMembers {ms : List (String × Json)} {m : String × Json} (h : m ∈ sortMembers ms) :
    m ∈ ms := by
  suffices ∀ acc : List (String × Json),
      m ∈ ms.foldl (fun sorted m => insertMember m.1 m.2 sorted) acc → m ∈ acc ∨ m ∈ ms by
    simpa using this [] h
  clear h
  induction ms with
  | nil => exact fun _ h => .inl h
  | cons p r ih =>
    intro acc h
    rcases ih _ h with h | h
    · rcases mem_insertMember h with rfl | h
      · exact .inr (by simp)
      · exact .inl h
    · exact .inr (List.mem_cons_of_mem _ h)

mutual

theorem isNormal_normalize : ∀ j : Json, (normalize j).isNormal = true
  | null | bool _ | number _ | string _ => by simp [normalize, isNormal]
  | array items => by simpa [normalize, isNormal] using areNormal_normalizeItems items
  | object members => by
    have hm := isNormal_of_mem_normalizeMembers members
    simp only [normalize, isNormal, Bool.and_eq_true, decide_eq_true_eq, areNormalMembers_iff]
    exact ⟨sorted_sortMembers _, fun m h => hm m (mem_sortMembers h)⟩

theorem areNormal_normalizeItems : ∀ items : List Json, areNormal (normalizeItems items) = true
  | [] => rfl
  | j :: r => by simp [normalizeItems, areNormal, isNormal_normalize j, areNormal_normalizeItems r]

theorem isNormal_of_mem_normalizeMembers : ∀ (members : List (String × Json)),
    ∀ m ∈ normalizeMembers members, m.2.isNormal = true
  | [], _, h => by simp [normalizeMembers] at h
  | (k, j) :: r, m, h => by
    simp only [normalizeMembers, List.mem_cons] at h
    rcases h with rfl | h
    · exact isNormal_normalize j
    · exact isNormal_of_mem_normalizeMembers r m h

end

/-! ### Equality -/

mutual

/-- Equality of values, numbers compared as numbers. -/
def same : Json → Json → Bool
  | null, null => true
  | bool a, bool b => a == b
  | number a, number b => a.same b
  | string a, string b => a == b
  | array a, array b => sameItems a b
  | object a, object b => sameMembers a b
  | _, _ => false

def sameItems : List Json → List Json → Bool
  | [], [] => true
  | a :: r, b :: s => same a b && sameItems r s
  | _, _ => false

def sameMembers : List (String × Json) → List (String × Json) → Bool
  | [], [] => true
  | (k, a) :: r, (l, b) :: s => k == l && same a b && sameMembers r s
  | _, _ => false

end

end Json

/-- A JSON value whose objects hold each name once, in ascending order. -/
structure Literal where
  value : Json
  normal : value.isNormal = true

namespace Literal

/-- The literal that a text means. -/
def ofJson (j : Json) : Literal := ⟨j.normalize, j.isNormal_normalize⟩

end Literal

end OrmDdl
