import ExportSurface.TypeRef
/-!
# Built-in types

The standard types that the foreign side already knows. A type is recognised
by its class alone; of its arguments only the element of an array has to be
exportable itself, and a star projection anywhere rules the type out.
-/

namespace ExportSurface

/-- Kinds of built-in type. -/
inductive Builtin where
  | top
  | unit
  | primitive
  | string
  | primitiveArray
  | array
  | enumBase
  | throwable
  | classReference
  | collection
deriving DecidableEq, Repr, Inhabited

namespace Builtin

/-- The built-in classes and their kinds. -/
def table : List (String × Builtin) :=
  [("kotlin.Any", top), ("kotlin.Unit", unit), ("kotlin.String", string),
   ("kotlin.Array", array), ("kotlin.Enum", enumBase), ("kotlin.Throwable", throwable),
   ("kotlin.reflect.KClass", classReference),
   ("kotlin.Boolean", primitive), ("kotlin.Byte", primitive), ("kotlin.Short", primitive),
   ("kotlin.Int", primitive), ("kotlin.Float", primitive), ("kotlin.Double", primitive),
   ("kotlin.BooleanArray", primitiveArray), ("kotlin.ByteArray", primitiveArray),
   ("kotlin.ShortArray", primitiveArray), ("kotlin.IntArray", primitiveArray),
   ("kotlin.FloatArray", primitiveArray), ("kotlin.DoubleArray", primitiveArray),
   ("kotlin.collections.Collection", collection),
   ("kotlin.collections.MutableCollection", collection),
   ("kotlin.collections.List", collection), ("kotlin.collections.MutableList", collection),
   ("kotlin.collections.Set", collection), ("kotlin.collections.MutableSet", collection),
   ("kotlin.collections.Map", collection), ("kotlin.collections.MutableMap", collection)]

/-- The kind of the built-in class that a type refers to. -/
def ofType? (t : TypeRef) : Option Builtin := do
  table.lookup (← t.className?).text

/-- Whether values of the kind are converted when they cross over. -/
def needsConversion : Builtin → Bool
  | .collection => true
  | _ => false

/-- Whether a type is built in and exportable, with `ask` to decide on the
element of an array. An array without an element type is accepted. -/
def accepts {m : Type → Type} [Monad m] (ask : TypeRef → m Bool) (t : TypeRef) : m Bool :=
  if t.hasStar then pure false
  else
    match ofType? t with
    | none => pure false
    | some .array =>
      match t.arguments with
      | [] => pure true
      | .star :: _ => pure false
      | .type element :: _ => ask element
    | some _ => pure true

end Builtin

mutual

/-- Whether a type, or a type in its argument tree, is a collection, whose
values are converted when they cross over. -/
def TypeRef.needsConversion : TypeRef → Bool
  | .named name args nullable =>
    (Builtin.ofType? (.named name args nullable)).any (·.needsConversion)
      || TypeArgument.anyConversion args
  | .parameter .. => false
  | .dynamic => false

/-- Whether an argument is a type whose values are converted. -/
def TypeArgument.needsConversion : TypeArgument → Bool
  | .star => false
  | .type t => t.needsConversion

/-- Whether one of the arguments is a type whose values are converted. -/
def TypeArgument.anyConversion : List TypeArgument → Bool
  | [] => false
  | a :: as => a.needsConversion || TypeArgument.anyConversion as

end

@[simp] theorem TypeArgument.anyConversion_eq_any (as : List TypeArgument) :
    TypeArgument.anyConversion as = as.any TypeArgument.needsConversion := by
  induction as with
  | nil => rfl
  | cons a as ih => simp [TypeArgument.anyConversion, ih]

end ExportSurface
