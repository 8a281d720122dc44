import ExportSurface.SourceModule
/-!
# Errors of a source module

A module may be inconsistent: a property without a type, or a path that
leads nowhere. That a declaration cannot be exported is no error.
-/

namespace ExportSurface

/-- What is wrong with a module, or with a path into it. -/
inductive ModuleError where
  /-- A property has neither a getter nor a backing field. -/
  | untypedProperty (name : QualifiedName)
  /-- A path leads to no declaration. -/
  | noDeclaration (path : TreePath)
deriving DecidableEq, Repr, Inhabited

/-- The wording of an error. -/
def ModuleError.message : ModuleError → String
  | .untypedProperty name =>
    "property " ++ name.text ++ " has neither a getter nor a backing field"
  | .noDeclaration path => "no declaration at " ++ path.text

/-- The type of a property's value. -/
def PropertyDecl.valueType (p : PropertyDecl) : Except ModuleError TypeRef :=
  match p.valueType? with
  | some t => .ok t
  | none => .error (.untypedProperty p.name)

/-- The module with the declaration at a path changed. -/
def SourceModule.adjustAt (m : SourceModule) (f : Declaration → Declaration) (p : TreePath) :
    Except ModuleError SourceModule :=
  match m.adjustAt? f p with
  | some changed => .ok changed
  | none => .error (.noDeclaration p)

/-- The module with the declaration at a path marked. -/
def SourceModule.markAt (m : SourceModule) (p : TreePath) : Except ModuleError SourceModule :=
  m.adjustAt Declaration.markExported p

end ExportSurface
