import ExportSurface.TypeRef
/-!
# Declarations

Classes, functions, properties and constructors as they stand in a source
file, with the marker annotation that puts a declaration on the export
surface. A class is a header followed by its members, which may be classes
again.

Constructors have no name and no annotations of their own, so they are never
marked: a class's mark covers them.
-/

namespace ExportSurface

/-- Declared visibility. -/
inductive Visibility where
  | pub
  | prot
  | internal
  | priv
deriving DecidableEq, Repr, Inhabited

/-- The word a visibility is written with. -/
def Visibility.text : Visibility → String
  | .pub => "public"
  | .prot => "protected"
  | .internal => "internal"
  | .priv => "private"

instance : ToString Visibility := ⟨Visibility.text⟩

/-- What a class declaration declares. -/
inductive ClassKind where
  | plainClass
  | interface
  | object
  | enumClass
  | annotationClass
deriving DecidableEq, Repr, Inhabited

/-- Modifiers that can keep a declaration off the export surface. -/
structure Modifiers where
  /-- A multiplatform stub. -/
  expect : Bool := false
  /-- Implemented outside the compiled module. -/
  external : Bool := false
  /-- An inline function, or the older spelling of a value class. -/
  inline : Bool := false
  /-- A suspending function. -/
  suspend : Bool := false
  /-- A value class. -/
  value : Bool := false
  /-- An anonymous object. -/
  anonymous : Bool := false
deriving DecidableEq, Repr, Inhabited

/-- A named value parameter. -/
structure ValueParameter where
  name : String
  type : TypeRef
deriving DecidableEq, Inhabited

/-- A function or method. -/
structure FunctionDecl where
  name : QualifiedName
  visibility : Visibility := .pub
  modifiers : Modifiers := {}
  annotations : List QualifiedName := []
  returnType : TypeRef
  parameters : List ValueParameter := []
  dispatchReceiver : Option TypeRef := none
  extensionReceiver : Option TypeRef := none
  /-- The ancestor this member is inherited from without being redeclared. -/
  inheritedFrom : Option TypeRef := none
deriving DecidableEq, Inhabited

/-- A class constructor. -/
structure ConstructorDecl where
  visibility : Visibility := .pub
  modifiers : Modifiers := {}
  primary : Bool := false
  parameters : List ValueParameter := []
  /-- The outer instance, for a constructor of an inner class. -/
  dispatchReceiver : Option TypeRef := none
deriving DecidableEq, Inhabited

/-- A property getter. -/
structure Getter where
  returnType : TypeRef
  dispatchReceiver : Option TypeRef := none
  extensionReceiver : Option TypeRef := none
deriving DecidableEq, Inhabited

/-- A property. -/
structure PropertyDecl where
  name : QualifiedName
  visibility : Visibility := .pub
  modifiers : Modifiers := {}
  annotations : List QualifiedName := []
  mutable : Bool := false
  getter : Option Getter := none
  backingField : Option TypeRef := none
  /-- The ancestor this member is inherited from without being redeclared. -/
  inheritedFrom : Option TypeRef := none
deriving DecidableEq, Inhabited

/-- All of a class declaration but its members. -/
structure ClassHeader where
  name : QualifiedName
  kind : ClassKind := .plainClass
  visibility : Visibility := .pub
  modifiers : Modifiers := {}
  annotations : List QualifiedName := []
  typeParameters : List String := []
  supertypes : List TypeRef := []
deriving DecidableEq, Inhabited

/-- Any declaration. -/
inductive Declaration where
  | classDecl (header : ClassHeader) (members : List Declaration)
  | function (f : FunctionDecl)
  | property (p : PropertyDecl)
  | constructor (c : ConstructorDecl)

/-- A class: its header and its members in declaration order. -/
structure ClassDecl extends ClassHeader where
  members : List Declaration := []

instance : Inhabited Declaration := ⟨.constructor {}⟩
instance : Inhabited ClassDecl := ⟨{ name := default }⟩

/-! ## Equality -/

mutual

private def Declaration.decideEq (a b : Declaration) : Decidable (a = b) :=
  match a, b with
  | .classDecl h as, .classDecl k bs =>
    haveI := Declaration.decideEqAll as bs
    decidable_of_iff (h = k ∧ as = bs) (by simp)
  | .function f, .function g => decidable_of_iff (f = g) (by simp)
  | .property p, .property q => decidable_of_iff (p = q) (by simp)
  | .constructor c, .constructor d => decidable_of_iff (c = d) (by simp)
  | .classDecl .., .function _ | .classDecl .., .property _ | .classDecl .., .constructor _
  | .function _, .classDecl .. | .function _, .property _ | .function _, .constructor _
  | .property _, .classDecl .. | .property _, .function _ | .property _, .constructor _
  | .constructor _, .classDecl .. | .constructor _, .function _
  | .constructor _, .property _ => isFalse (by intro h; cases h)

private def Declaration.decideEqAll (as bs : List Declaration) : Decidable (as = bs) :=
  match as, bs with
  | [], [] => isTrue rfl
  | a :: as, b :: bs =>
    haveI := Declaration.decideEq a b
    haveI := Declaration.decideEqAll as bs
    decidable_of_iff (a = b ∧ as = bs) (by simp)
  | [], _ :: _ | _ :: _, [] => isFalse (by intro h; cases h)

end

instance : DecidableEq Declaration := Declaration.decideEq

instance : DecidableEq ClassDecl
  | ⟨h, as⟩, ⟨k, bs⟩ => decidable_of_iff (h = k ∧ as = bs) (by simp)

/-! ## The export marker -/

/-- The annotation that puts a declaration on the export surface. -/
def exportMarker : QualifiedName := ⟨"kotlin.js.JsExport"⟩

/-- Whether the marker is among the annotations. -/
def carriesMarker (annotations : List QualifiedName) : Bool :=
  annotations.contains exportMarker

/-- The annotations with the marker, appended where it was missing. -/
def withMarker (annotations : List QualifiedName) : List QualifiedName :=
  if carriesMarker annotations then annotations else annotations ++ [exportMarker]

@[simp] theorem carriesMarker_withMarker (as : List QualifiedName) :
    carriesMarker (withMarker as) = true := by
  unfold withMarker
  split
  · assumption
  · simp [carriesMarker]

/-- Marking what is marked changes nothing. -/
theorem withMarker_of_carriesMarker {as : List QualifiedName} (h : carriesMarker as = true) :
    withMarker as = as := by
  simp [withMarker, h]

/-! ## Functions, constructors, properties -/

/-- The types of a parameter list as a reader sees them. -/
def parameterTexts (ps : List ValueParameter) : String :=
  ", ".intercalate (ps.map (·.type.text))

/-- `owner::member`, with an empty owner in the root package. -/
def memberText (name : QualifiedName) : String :=
  name.owner ++ "::" ++ name.shortName

namespace FunctionDecl

/-- Whether the function carries the export marker. -/
def isExported (f : FunctionDecl) : Bool := carriesMarker f.annotations

/-- The function with the export marker. -/
def markExported (f : FunctionDecl) : FunctionDecl :=
  { f with annotations := withMarker f.annotations }

/-- `owner::name(types):type`. -/
def signature (f : FunctionDecl) : String :=
  memberText f.name ++ "(" ++ parameterTexts f.parameters ++ "):" ++ f.returnType.text

end FunctionDecl

namespace ConstructorDecl

/-- `owner::<init>(types)`. -/
def signature (c : ConstructorDecl) (owner : QualifiedName) : String :=
  owner.text ++ "::<init>(" ++ parameterTexts c.parameters ++ ")"

end ConstructorDecl

namespace PropertyDecl

/-- Whether the property carries the export marker. -/
def isExported (p : PropertyDecl) : Bool := carriesMarker p.annotations

/-- The property with the export marker. -/
def markExported (p : PropertyDecl) : PropertyDecl :=
  { p with annotations := withMarker p.annotations }

/-- The type of the value: the getter's, or the backing field's when there is
no getter. -/
def valueType? (p : PropertyDecl) : Option TypeRef :=
  match p.getter with
  | some g => some g.returnType
  | none => p.backingField

/-- `owner::name: type`. -/
def signature (p : PropertyDecl) : String :=
  memberText p.name ++ ": " ++ ((p.valueType?.map TypeRef.text).getD "<unresolved>")

end PropertyDecl

/-! ## Classes -/

namespace ClassHeader

/-- Whether the class carries the export marker. -/
def isExported (h : ClassHeader) : Bool := carriesMarker h.annotations

/-- The header with the export marker. -/
def markExported (h : ClassHeader) : ClassHeader :=
  { h with annotations := withMarker h.annotations }

/-- The class as a type, applied to its own type parameters. -/
def selfType (h : ClassHeader) : TypeRef :=
  .named h.name (h.typeParameters.map fun p => .type (.unbounded p)) false

end ClassHeader

namespace Declaration

/-- The property a declaration is. -/
def property? : Declaration → Option PropertyDecl
  | .property p => some p
  | _ => none

/-- The function a declaration is. -/
def function? : Declaration → Option FunctionDecl
  | .function f => some f
  | _ => none

/-- The constructor a declaration is. -/
def constructor? : Declaration → Option ConstructorDecl
  | .constructor c => some c
  | _ => none

/-- The class a declaration is. -/
def class? : Declaration → Option ClassDecl
  | .classDecl h ms => some ⟨h, ms⟩
  | _ => none

/-- The qualified name; a constructor has none. -/
def name? : Declaration → Option QualifiedName
  | .classDecl h _ => some h.name
  | .function f => some f.name
  | .property p => some p.name
  | .constructor _ => none

/-- The word for the kind of declaration. -/
def kindText : Declaration → String
  | .classDecl .. => "class"
  | .function _ => "function"
  | .property _ => "property"
  | .constructor _ => "constructor"

/-- Whether the declaration carries the export marker. -/
def isExported : Declaration → Bool
  | .classDecl h _ => h.isExported
  | .function f => f.isExported
  | .property p => p.isExported
  | .constructor _ => false

/-- The declaration with the export marker; a constructor stays as it is. -/
def markExported : Declaration → Declaration
  | .classDecl h ms => .classDecl h.markExported ms
  | .function f => .function f.markExported
  | .property p => .property p.markExported
  | .constructor c => .constructor c

/-- The declarations directly inside. -/
def members : Declaration → List Declaration
  | .classDecl _ ms => ms
  | _ => []

end Declaration

namespace ClassDecl

/-- The class as a declaration. -/
def toDeclaration (c : ClassDecl) : Declaration := .classDecl c.toClassHeader c.members

/-- The member properties, in declaration order. -/
def properties (c : ClassDecl) : List PropertyDecl := c.members.filterMap Declaration.property?

/-- The member functions, in declaration order. -/
def methods (c : ClassDecl) : List FunctionDecl := c.members.filterMap Declaration.function?

/-- The constructors, in declaration order. -/
def constructors (c : ClassDecl) : List ConstructorDecl :=
  c.members.filterMap Declaration.constructor?

/-- The nested classes, in declaration order. -/
def nestedClasses (c : ClassDecl) : List ClassDecl := c.members.filterMap Declaration.class?

end ClassDecl

end ExportSurface
