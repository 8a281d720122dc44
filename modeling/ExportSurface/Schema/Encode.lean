import ExportSurface.Json.Printer
import ExportSurface.SourceModule
/-!
# Encoding modules

A module is written out in full: every field is there, in a fixed order with
the tag first, and what is absent is `null`.
-/

namespace ExportSurface

open Json (strings option)

/-! ## Words and names -/

/-- The word for a kind of class. -/
def ClassKind.text : ClassKind → String
  | .plainClass => "class"
  | .interface => "interface"
  | .object => "object"
  | .enumClass => "enum"
  | .annotationClass => "annotation"

/-- A visibility as JSON. -/
def Visibility.toJson (v : Visibility) : Json := .string v.text

/-- A kind of class as JSON. -/
def ClassKind.toJson (k : ClassKind) : Json := .string k.text

/-- Qualified names as JSON. -/
def QualifiedName.listToJson (ns : List QualifiedName) : Json := strings (ns.map (·.text))

/-- Modifiers as JSON. -/
def Modifiers.toJson (m : Modifiers) : Json :=
  .object
    [("expect", .bool m.expect), ("external", .bool m.external), ("inline", .bool m.inline),
     ("suspend", .bool m.suspend), ("value", .bool m.value), ("anonymous", .bool m.anonymous)]

/-! ## Types -/

mutual

/-- A type as JSON. -/
def TypeRef.toJson : TypeRef → Json
  | .named name args nullable =>
    .object
      [("kind", .string "class"), ("class", .string name.text),
       ("arguments", .array (TypeArgument.toJsons args)), ("nullable", .bool nullable)]
  | .parameter name bounds nullable =>
    .object
      [("kind", .string "parameter"), ("name", .string name),
       ("bounds", .array (TypeRef.toJsons bounds)), ("nullable", .bool nullable)]
  | .dynamic => .object [("kind", .string "dynamic")]

/-- A type argument as JSON. -/
def TypeArgument.toJson : TypeArgument → Json
  | .star => .string "star"
  | .type t => .object [("type", t.toJson)]

/-- Types as JSON. -/
def TypeRef.toJsons : List TypeRef → List Json
  | [] => []
  | t :: ts => t.toJson :: TypeRef.toJsons ts

/-- Type arguments as JSON. -/
def TypeArgument.toJsons : List TypeArgument → List Json
  | [] => []
  | a :: as => a.toJson :: TypeArgument.toJsons as

end

/-! ## Declarations -/

/-- A value parameter as JSON. -/
def ValueParameter.toJson (p : ValueParameter) : Json :=
  .object [("name", .string p.name), ("type", p.type.toJson)]

/-- Value parameters as JSON. -/
def ValueParameter.listToJson (ps : List ValueParameter) : Json :=
  .array (ps.map ValueParameter.toJson)

/-- A getter as JSON. -/
def Getter.toJson (g : Getter) : Json :=
  .object
    [("return-type", g.returnType.toJson),
     ("dispatch-receiver", option TypeRef.toJson g.dispatchReceiver),
     ("extension-receiver", option TypeRef.toJson g.extensionReceiver)]

/-- A function's fields. -/
def FunctionDecl.fields (f : FunctionDecl) : List (String × Json) :=
  [("fq-name", .string f.name.text), ("visibility", f.visibility.toJson),
   ("modifiers", f.modifiers.toJson), ("annotations", QualifiedName.listToJson f.annotations),
   ("return-type", f.returnType.toJson),
   ("parameters", ValueParameter.listToJson f.parameters),
   ("dispatch-receiver", option TypeRef.toJson f.dispatchReceiver),
   ("extension-receiver", option TypeRef.toJson f.extensionReceiver),
   ("inherited-from", option TypeRef.toJson f.inheritedFrom)]

/-- A property's fields. -/
def PropertyDecl.fields (p : PropertyDecl) : List (String × Json) :=
  [("fq-name", .string p.name.text), ("visibility", p.visibility.toJson),
   ("modifiers", p.modifiers.toJson), ("annotations", QualifiedName.listToJson p.annotations),
   ("mutable", .bool p.mutable), ("getter", option Getter.toJson p.getter),
   ("backing-field", option TypeRef.toJson p.backingField),
   ("inherited-from", option TypeRef.toJson p.inheritedFrom)]

/-- A constructor's fields. -/
def ConstructorDecl.fields (c : ConstructorDecl) : List (String × Json) :=
  [("visibility", c.visibility.toJson), ("modifiers", c.modifiers.toJson),
   ("primary", .bool c.primary), ("parameters", ValueParameter.listToJson c.parameters),
   ("dispatch-receiver", option TypeRef.toJson c.dispatchReceiver)]

/-- A class's fields, given its members. -/
def ClassHeader.fields (h : ClassHeader) (members : List Json) : List (String × Json) :=
  [("fq-name", .string h.name.text), ("kind", h.kind.toJson),
   ("visibility", h.visibility.toJson), ("modifiers", h.modifiers.toJson),
   ("annotations", QualifiedName.listToJson h.annotations),
   ("type-parameters", strings h.typeParameters),
   ("supertypes", .array (TypeRef.toJsons h.supertypes)),
   ("declarations", .array members)]

mutual

/-- A declaration as JSON. -/
def Declaration.toJson : Declaration → Json
  | .classDecl h ms =>
    .object (("decl", .string "class") :: h.fields (Declaration.toJsons ms))
  | .function f => .object (("decl", .string "function") :: f.fields)
  | .property p => .object (("decl", .string "property") :: p.fields)
  | .constructor c => .object (("decl", .string "constructor") :: c.fields)

/-- Declarations as JSON. -/
def Declaration.toJsons : List Declaration → List Json
  | [] => []
  | d :: ds => d.toJson :: Declaration.toJsons ds

end

/-- A class as JSON, without a tag. -/
def ClassDecl.toJson (c : ClassDecl) : Json :=
  .object (c.toClassHeader.fields (Declaration.toJsons c.members))

/-! ## Modules -/

/-- A source file as JSON. -/
def SourceFile.toJson (f : SourceFile) : Json :=
  .object
    [("path", .string f.path), ("package", .string f.package),
     ("declarations", .array (Declaration.toJsons f.declarations))]

/-- A module as JSON. -/
def SourceModule.toJson (m : SourceModule) : Json :=
  .object
    [("name", .string m.name), ("files", .array (m.files.map SourceFile.toJson)),
     ("dependencies", .array (m.dependencies.map ClassDecl.toJson))]

/-- A module as text. -/
def SourceModule.toText (m : SourceModule) : String := m.toJson.pretty

end ExportSurface
