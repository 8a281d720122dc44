import ExportSurface.Text.Split
/-!
# Qualified names

A declaration is known by its qualified name, segments joined by dots. The
short name is the last segment and the parent is all that stands before it;
a name without a dot has no parent.
-/

namespace ExportSurface

/-- A fully qualified declaration name such as `shop.cart.Item`. -/
structure QualifiedName where
  text : String
deriving DecidableEq, Repr, Inhabited

namespace QualifiedName

instance : ToString QualifiedName := ⟨text⟩

/-- Names of one text are one name. -/
theorem eq_of_text_eq {n k : QualifiedName} (h : n.text = k.text) : n = k := by
  cases n
  cases k
  exact congrArg mk h

/-- The segments between the dots, at least one. -/
def segments (n : QualifiedName) : List String :=
  (Text.pieces '.' n.text.toList).map String.ofList

/-- The last segment. -/
def shortName (n : QualifiedName) : String :=
  n.segments.getLastD ""

/-- All segments but the last, if there is more than one. -/
def parent? (n : QualifiedName) : Option QualifiedName :=
  match (Text.pieces '.' n.text.toList).dropLast with
  | [] => none
  | ps => some ⟨String.ofList (Text.glue '.' ps)⟩

/-- The name one segment longer; below the empty name the segment stands alone. -/
def child (n : QualifiedName) (segment : String) : QualifiedName :=
  if n.text = "" then ⟨segment⟩ else ⟨n.text ++ "." ++ segment⟩

/-- The text of the parent, empty for a name without one. -/
def owner (n : QualifiedName) : String :=
  (n.parent?.map text).getD ""

end QualifiedName

end ExportSurface
