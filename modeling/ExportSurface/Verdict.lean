import ExportSurface.Declaration.Basic
/-!
# Verdicts

What the rules say about a declaration: it can be exported, or it is
rejected for the first reason found. A reason holds the members and types at
fault already rendered.
-/

namespace ExportSurface

/-- A property of a declaration that keeps it off the export surface. -/
inductive PlatformFlag where
  | expect
  | external
  | inline
  | suspend
  | value
  | annotationClass
  | anonymous
deriving DecidableEq, Repr, Inhabited

/-- The wording of a flag. -/
def PlatformFlag.text : PlatformFlag → String
  | .expect => "expect declaration"
  | .external => "external declaration"
  | .inline => "inline function"
  | .suspend => "suspend function"
  | .value => "value class"
  | .annotationClass => "annotation class"
  | .anonymous => "anonymous object"

/-- The first disqualifying condition of a declaration. -/
inductive Rejection where
  | platform (flag : PlatformFlag)
  | notPublic (visibility : Visibility)
  | supertypes (types : List String)
  | constructors (signatures : List String)
  | properties (signatures : List String)
  | methods (signatures : List String)
  /-- Method names bound to more than one signature. -/
  | overloadedMethods (names : List String)
  | returnType (type : String)
  | dispatchReceiver (type : String)
  | extensionReceiver (type : String)
  /-- Parameters as `name: type`. -/
  | parameters (parameters : List String)
  | propertyType (type : String)
deriving DecidableEq, Repr, Inhabited

/-- Texts in brackets. -/
def bracketed (items : List String) : String :=
  "[" ++ ", ".intercalate items ++ "]"

/-- The wording of a rejection. -/
def Rejection.text : Rejection → String
  | .platform flag => "platform restriction (" ++ flag.text ++ ")"
  | .notPublic visibility => visibility.text ++ " visibility"
  | .supertypes types => "non-exportable supertypes " ++ bracketed types
  | .constructors signatures => "non-exportable constructors " ++ bracketed signatures
  | .properties signatures => "non-exportable properties " ++ bracketed signatures
  | .methods signatures => "non-exportable methods " ++ bracketed signatures
  | .overloadedMethods names =>
    "overloaded methods " ++ bracketed names
      ++ " which could cause a call ambiguity in JavaScript"
  | .returnType type => "non-exportable return type " ++ type
  | .dispatchReceiver type => "non-exportable dispatch receiver " ++ type
  | .extensionReceiver type => "non-exportable extension receiver " ++ type
  | .parameters ps => "non-exportable parameters " ++ bracketed ps
  | .propertyType type => "non-exportable property type " ++ type

/-- What the rules say about a declaration. -/
inductive Verdict where
  | exportable
  | rejected (reason : Rejection)
deriving DecidableEq, Repr, Inhabited

namespace Verdict

/-- Whether the declaration can be exported. -/
def isExportable : Verdict → Bool
  | .exportable => true
  | .rejected _ => false

/-- The reason why it cannot. -/
def rejection? : Verdict → Option Rejection
  | .exportable => none
  | .rejected reason => some reason

/-- Exportable unless there is a reason against it. -/
def ofRejection? : Option Rejection → Verdict
  | none => .exportable
  | some reason => .rejected reason

/-- Exportable unless something is at fault. -/
def ofOffending (reason : List String → Rejection) : List String → Verdict
  | [] => .exportable
  | offending => .rejected (reason offending)

end Verdict

end ExportSurface
