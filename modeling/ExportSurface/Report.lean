import ExportSurface.Json.Basic
import ExportSurface.Memo
import ExportSurface.Verdict
/-!
# The report of a pass

Everything a pass decided, in the order of the walk, with its rendering as
text and as JSON.
-/

namespace ExportSurface

/-- Why a declaration never came before the rules. -/
inductive SkipReason where
  /-- No export pattern matches its name. -/
  | filtered
  | notPublic (visibility : Visibility)
  | platform (flag : PlatformFlag)
deriving DecidableEq, Repr, Inhabited

/-- The wording of a reason. -/
def SkipReason.text : SkipReason → String
  | .filtered => "no export pattern matches"
  | .notPublic visibility => visibility.text ++ " visibility"
  | .platform flag => flag.text

/-- A declaration that the pass left alone, and why. -/
structure Excluded (α : Type) where
  name : String
  kind : String
  reason : α
deriving DecidableEq, Repr, Inhabited

/-- Everything a pass decided. -/
structure Report where
  moduleName : String
  /-- Declarations newly marked. -/
  exported : List String := []
  alreadyExported : List String := []
  rejected : List (Excluded Rejection) := []
  skipped : List (Excluded SkipReason) := []
  /-- Signatures on the surface whose values are converted when they cross. -/
  needsConversion : List String := []
  memo : MemoStats := {}
deriving DecidableEq, Repr, Inhabited

namespace Report

/-! ## Questions -/

/-- Whether a name was newly marked. -/
def isExported (r : Report) (name : String) : Bool :=
  r.exported.contains name

/-- Why a name was rejected, where it was. -/
def rejectionOf? (r : Report) (name : String) : Option Rejection :=
  (r.rejected.find? (·.name = name)).map (·.reason)

/-- Why a name was skipped, where it was. -/
def skipReasonOf? (r : Report) (name : String) : Option SkipReason :=
  (r.skipped.find? (·.name = name)).map (·.reason)

/-! ## As text -/

/-- A titled list of lines, left out when there are none. -/
def titledLines (title : String) (lines : List String) : List String :=
  if lines.isEmpty then [] else ["", "--- " ++ title ++ " ---"] ++ lines.map ("  " ++ ·)

/-- A line about a declaration left alone. -/
def excludedLine (reasonText : α → String) (x : Excluded α) : String :=
  "[" ++ x.kind ++ "] " ++ x.name ++ ": " ++ reasonText x.reason

/-- The lines of the report. -/
def lines (r : Report) : List String :=
  [s!"=== Export Report ({r.moduleName}) ===",
   s!"Exported: {r.exported.length} | Already exported: {r.alreadyExported.length} | "
     ++ s!"Rejected: {r.rejected.length} | Skipped: {r.skipped.length}",
   s!"Memo: {r.memo.entries} entries, {r.memo.hits} hits ({r.memo.provisional} provisional), "
     ++ s!"{r.memo.misses} misses, {r.memo.deferred} deferred"]
    ++ titledLines "Exported" r.exported
    ++ titledLines "Needs conversion" r.needsConversion
    ++ titledLines "Rejected" (r.rejected.map (excludedLine Rejection.text))
    ++ titledLines "Skipped" (r.skipped.map (excludedLine SkipReason.text))

/-- The report as text, each line ended. -/
def text (r : Report) : String :=
  String.join (r.lines.map (· ++ "\n"))

end Report

/-! ## As JSON -/

/-- The word for a flag. -/
def PlatformFlag.word : PlatformFlag → String
  | .expect => "expect"
  | .external => "external"
  | .inline => "inline"
  | .suspend => "suspend"
  | .value => "value"
  | .annotationClass => "annotation"
  | .anonymous => "anonymous"

/-- A reason with what it says in detail. -/
def reasonJson (reason : String) (detail : Json) : Json :=
  .object [("reason", .string reason), ("detail", detail)]

/-- A rejection as JSON. -/
def Rejection.toJson : Rejection → Json
  | .platform flag => reasonJson "platform" (.string flag.word)
  | .notPublic visibility => reasonJson "not-public" (.string visibility.text)
  | .supertypes types => reasonJson "supertypes" (.strings types)
  | .constructors signatures => reasonJson "constructors" (.strings signatures)
  | .properties signatures => reasonJson "properties" (.strings signatures)
  | .methods signatures => reasonJson "methods" (.strings signatures)
  | .overloadedMethods names => reasonJson "overloaded-methods" (.strings names)
  | .returnType type => reasonJson "return-type" (.string type)
  | .dispatchReceiver type => reasonJson "dispatch-receiver" (.string type)
  | .extensionReceiver type => reasonJson "extension-receiver" (.string type)
  | .parameters ps => reasonJson "parameters" (.strings ps)
  | .propertyType type => reasonJson "property-type" (.string type)

/-- A reason to skip as JSON. -/
def SkipReason.toJson : SkipReason → Json
  | .filtered => .object [("reason", .string "filtered")]
  | .notPublic visibility => reasonJson "not-public" (.string visibility.text)
  | .platform flag => reasonJson "platform" (.string flag.word)

/-- A declaration left alone as JSON. -/
def Excluded.toJson (reasonToJson : α → Json) (x : Excluded α) : Json :=
  .object [("name", .string x.name), ("kind", .string x.kind), ("reason", reasonToJson x.reason)]

/-- The use of a memo as JSON. -/
def MemoStats.toJson (s : MemoStats) : Json :=
  .object
    [("hits", .nat s.hits), ("misses", .nat s.misses), ("provisional", .nat s.provisional),
     ("deferred", .nat s.deferred), ("entries", .nat s.entries)]

/-- The report as JSON. -/
def Report.toJson (r : Report) : Json :=
  .object
    [("module", .string r.moduleName), ("exported", .strings r.exported),
     ("already_exported", .strings r.alreadyExported),
     ("rejected", .array (r.rejected.map (·.toJson Rejection.toJson))),
     ("skipped", .array (r.skipped.map (·.toJson SkipReason.toJson))),
     ("needs_conversion", .strings r.needsConversion), ("memo", r.memo.toJson)]

end ExportSurface
