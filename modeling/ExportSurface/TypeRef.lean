import ExportSurface.QualifiedName
/-!
# Type references

A type is a class applied to arguments, a type parameter with its upper
bounds, or the untyped marker `dynamic`. Two renderings are kept apart:

* `TypeRef.text` is what a reader sees: nullability is marked, bounds are not
  spelled;
* `TypeRef.key` is what an answer is remembered under: nullability is erased
  at every level and bounds are spelled.

So types that differ in nullability alone share a key (`key_asNullable`), and
parameters of one name with different bounds do not.
-/

namespace ExportSurface

mutual

/-- A type reference. -/
inductive TypeRef where
  /-- A class type, such as `kotlin.Array<kotlin.Int>?`. -/
  | named (name : QualifiedName) (arguments : List TypeArgument) (nullable : Bool)
  /-- A type parameter in scope, with its upper bounds. -/
  | parameter (name : String) (bounds : List TypeRef) (nullable : Bool)
  /-- The untyped marker. -/
  | dynamic

/-- A type argument: a type, or a star projection. -/
inductive TypeArgument where
  | star
  | type (type : TypeRef)

end

instance : Inhabited TypeRef := ⟨.dynamic⟩
instance : Inhabited TypeArgument := ⟨.star⟩

/-! ## Equality -/

mutual

private def TypeRef.decideEq (a b : TypeRef) : Decidable (a = b) :=
  match a, b with
  | .named c as m, .named d bs n =>
    haveI := TypeArgument.decideEqAll as bs
    decidable_of_iff (c = d ∧ as = bs ∧ m = n) (by simp)
  | .parameter p as m, .parameter q bs n =>
    haveI := TypeRef.decideEqAll as bs
    decidable_of_iff (p = q ∧ as = bs ∧ m = n) (by simp)
  | .dynamic, .dynamic => isTrue rfl
  | .named .., .parameter .. | .named .., .dynamic | .parameter .., .named ..
  | .parameter .., .dynamic | .dynamic, .named .. | .dynamic, .parameter .. =>
    isFalse (by intro h; cases h)

private def TypeArgument.decideEq (a b : TypeArgument) : Decidable (a = b) :=
  match a, b with
  | .star, .star => isTrue rfl
  | .type s, .type t =>
    haveI := TypeRef.decideEq s t
    decidable_of_iff (s = t) (by simp)
  | .star, .type _ | .type _, .star => isFalse (by intro h; cases h)

private def TypeRef.decideEqAll (as bs : List TypeRef) : Decidable (as = bs) :=
  match as, bs with
  | [], [] => isTrue rfl
  | a :: as, b :: bs =>
    haveI := TypeRef.decideEq a b
    haveI := TypeRef.decideEqAll as bs
    decidable_of_iff (a = b ∧ as = bs) (by simp)
  | [], _ :: _ | _ :: _, [] => isFalse (by intro h; cases h)

private def TypeArgument.decideEqAll (as bs : List TypeArgument) : Decidable (as = bs) :=
  match as, bs with
  | [], [] => isTrue rfl
  | a :: as, b :: bs =>
    haveI := TypeArgument.decideEq a b
    haveI := TypeArgument.decideEqAll as bs
    decidable_of_iff (a = b ∧ as = bs) (by simp)
  | [], _ :: _ | _ :: _, [] => isFalse (by intro h; cases h)

end

instance : DecidableEq TypeRef := TypeRef.decideEq
instance : DecidableEq TypeArgument := TypeArgument.decideEq

/-! ## Rendering -/

/-- A class name with its rendered arguments, without brackets when there are none. -/
def applied (name : String) : List String → String
  | [] => name
  | args => name ++ "<" ++ ", ".intercalate args ++ ">"

/-- A rendered type with its nullability marked. -/
def marked (nullable : Bool) (text : String) : String :=
  if nullable then text ++ "?" else text

/-- A parameter name with its rendered upper bounds, alone when there are none. -/
def bounded (name : String) : List String → String
  | [] => name
  | bounds => name ++ " : " ++ " & ".intercalate bounds

mutual

/-- The type as a reader sees it. -/
def TypeRef.text : TypeRef → String
  | .named name args nullable => marked nullable (applied name.text (TypeArgument.texts args))
  | .parameter name _ nullable => marked nullable name
  | .dynamic => "dynamic"

/-- The argument as a reader sees it. -/
def TypeArgument.text : TypeArgument → String
  | .star => "*"
  | .type t => t.text

/-- The arguments as a reader sees them. -/
def TypeArgument.texts : List TypeArgument → List String
  | [] => []
  | a :: as => a.text :: TypeArgument.texts as

end

mutual

/-- The type as answers about it are remembered. -/
def TypeRef.key : TypeRef → String
  | .named name args _ => applied name.text (TypeArgument.keys args)
  | .parameter name bounds _ => bounded name (TypeRef.keys bounds)
  | .dynamic => "dynamic"

/-- The argument inside a key. -/
def TypeArgument.key : TypeArgument → String
  | .star => "*"
  | .type t => t.key

/-- The bounds inside a key. -/
def TypeRef.keys : List TypeRef → List String
  | [] => []
  | t :: ts => t.key :: TypeRef.keys ts

/-- The arguments inside a key. -/
def TypeArgument.keys : List TypeArgument → List String
  | [] => []
  | a :: as => a.key :: TypeArgument.keys as

end

@[simp] theorem TypeArgument.texts_eq_map (as : List TypeArgument) :
    TypeArgument.texts as = as.map TypeArgument.text := by
  induction as with
  | nil => rfl
  | cons a as ih => simp [TypeArgument.texts, ih]

@[simp] theorem TypeArgument.keys_eq_map (as : List TypeArgument) :
    TypeArgument.keys as = as.map TypeArgument.key := by
  induction as with
  | nil => rfl
  | cons a as ih => simp [TypeArgument.keys, ih]

@[simp] theorem TypeRef.keys_eq_map (ts : List TypeRef) :
    TypeRef.keys ts = ts.map TypeRef.key := by
  induction ts with
  | nil => rfl
  | cons t ts ih => simp [TypeRef.keys, ih]

instance : ToString TypeRef := ⟨TypeRef.text⟩
instance : ToString TypeArgument := ⟨TypeArgument.text⟩

/-! ## Parts of a type -/

mutual

/-- Whether a star projection stands anywhere in the argument tree. The
bounds of a type parameter are not looked into. -/
def TypeRef.hasStar : TypeRef → Bool
  | .named _ args _ => TypeArgument.anyStar args
  | .parameter .. => false
  | .dynamic => false

/-- Whether the argument is a star projection or holds one. -/
def TypeArgument.hasStar : TypeArgument → Bool
  | .star => true
  | .type t => t.hasStar

/-- Whether one of the arguments is a star projection or holds one. -/
def TypeArgument.anyStar : List TypeArgument → Bool
  | [] => false
  | a :: as => a.hasStar || TypeArgument.anyStar as

end

@[simp] theorem TypeArgument.anyStar_eq_any (as : List TypeArgument) :
    TypeArgument.anyStar as = as.any TypeArgument.hasStar := by
  induction as with
  | nil => rfl
  | cons a as ih => simp [TypeArgument.anyStar, ih]

namespace TypeRef

/-- A class without arguments. -/
def plain (name : String) : TypeRef :=
  .named ⟨name⟩ [] false

/-- A type parameter without bounds. -/
def unbounded (name : String) : TypeRef :=
  .parameter name [] false

/-- The class a type refers to. -/
def className? : TypeRef → Option QualifiedName
  | .named name _ _ => some name
  | _ => none

/-- The arguments of a class type. -/
def arguments : TypeRef → List TypeArgument
  | .named _ args _ => args
  | _ => []

/-- The same type, marked nullable; `dynamic` has no such mark. -/
def asNullable : TypeRef → TypeRef
  | .named name args _ => .named name args true
  | .parameter name bounds _ => .parameter name bounds true
  | .dynamic => .dynamic

@[simp] theorem key_asNullable (t : TypeRef) : t.asNullable.key = t.key := by
  cases t <;> simp [asNullable, key]

@[simp] theorem hasStar_asNullable (t : TypeRef) : t.asNullable.hasStar = t.hasStar := by
  cases t <;> simp [asNullable, hasStar]

end TypeRef

end ExportSurface
