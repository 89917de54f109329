import OrmDdl.SchemaError
/-!
# Field rules

What a field of a model may hold: its type tags, bounds and default. An explicit default of `null`
is not the same as none.
-/

namespace OrmDdl

/-- The constraints of one field. Bounds of a string are bounds of its length. -/
structure FieldRule where
  types : TypeSet
  min : Option Double := none
  max : Option Double := none
  defaultValue : Option Literal := none

namespace FieldRule

/-- Lets the field hold `null` as well. -/
def nullable (r : FieldRule) : FieldRule := { r with types := r.types.nullable }

def IsNullable (r : FieldRule) : Prop := r.types.IsNullable

instance (r : FieldRule) : Decidable r.IsNullable :=
  inferInstanceAs (Decidable (TypeSet.IsNullable _))

/-- Whether a lower bound is given that is not negative. -/
def isUnsigned (r : FieldRule) : Bool :=
  match r.min with
  | some min => Double.zero ≤ min
  | none => false

/-- Whether a lower bound is given that is negative. -/
def hasNegativeMin (r : FieldRule) : Bool :=
  match r.min with
  | some min => min < Double.zero
  | none => false

/-- Whether both bounds are given and equal. -/
def isFixedLength (r : FieldRule) : Bool :=
  match r.min, r.max with
  | some min, some max => min.same max
  | _, _ => false

/-- A rule needs a type. -/
def validate (r : FieldRule) : Except SchemaError Unit :=
  if r.types.isEmpty then .error (.invalidFormat .noTypes) else .ok ()

/-- Equality of rules, numbers compared as numbers. -/
def same (r s : FieldRule) : Bool :=
  let sameBound : Option Double → Option Double → Bool
    | some x, some y => x.same y
    | none, none => true
    | _, _ => false
  let sameDefault : Option Literal → Option Literal → Bool
    | some x, some y => x.value.same y.value
    | none, none => true
    | _, _ => false
  r.types == s.types && sameBound r.min s.min && sameBound r.max s.max
    && sameDefault r.defaultValue s.defaultValue

/-- The members of a rule; a bound or default that is not given is left out. -/
def toJson (r : FieldRule) : Json :=
  .object <|
    [("type", r.types.toJson)]
      ++ (r.min.map fun x => ("min", .ofDouble x)).toList
      ++ (r.max.map fun x => ("max", .ofDouble x)).toList
      ++ (r.defaultValue.map fun l => ("default", l.value)).toList

/-- The fields of a rule while it is read. -/
structure Draft where
  types : Option TypeSet := none
  min : Option (Option Double) := none
  max : Option (Option Double) := none
  defaultValue : Option Literal := none

open Json Json.Reader in
/-- The form of a rule. -/
def record : Record Draft FieldRule where
  title := "FieldRule"
  slots :=
    [.of "type" true (·.types) (fun d x => { d with types := some x }) TypeSet.read [],
     .of "min" false (·.min) (fun d x => { d with min := some x }) (fun _ => optional double) [],
     .of "max" false (·.max) (fun d x => { d with max := some x }) (fun _ => optional double) [],
     .of "default" false (·.defaultValue) (fun d x => { d with defaultValue := some x })
      (fun depth => Literal.ofJson <$> value depth) []]
  empty := {}
  finish d := return {
    types := ← required "type" d.types
    min := d.min.join
    max := d.max.join
    defaultValue := d.defaultValue }

def read : Nat → Json.Reader FieldRule := record.read

end FieldRule

end OrmDdl
