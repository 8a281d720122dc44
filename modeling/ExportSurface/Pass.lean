import ExportSurface.Diagnostic
import ExportSurface.Evaluator
import ExportSurface.Glob.Filter
import ExportSurface.Report
/-!
# The export pass

Walks a module and decides on every candidate, that is on every class and on
the functions and properties at the top level; members are covered by their
class. A candidate that is not marked already must be selected by the filter
and get past the gate before the evaluator is asked for a verdict.

All decisions are about the module as it was when the pass began. The markers
are attached when every decision is in, so a pass that fails marks nothing.
-/

namespace ExportSurface

/-! ## Candidates -/

/-- A declaration that can carry the export marker itself. -/
inductive Candidate where
  | ofClass (c : ClassDecl)
  | ofFunction (f : FunctionDecl)
  | ofProperty (p : PropertyDecl)
deriving Inhabited

namespace Candidate

/-- The candidate that a declaration is, at the top level or not. -/
def of? (topLevel : Bool) : Declaration → Option Candidate
  | .classDecl h ms => some (.ofClass ⟨h, ms⟩)
  | .function f => if topLevel then some (.ofFunction f) else none
  | .property p => if topLevel then some (.ofProperty p) else none
  | .constructor _ => none

/-- The qualified name. -/
def name : Candidate → QualifiedName
  | .ofClass c => c.name
  | .ofFunction f => f.name
  | .ofProperty p => p.name

/-- The word for the kind. -/
def kindText : Candidate → String
  | .ofClass _ => "class"
  | .ofFunction _ => "function"
  | .ofProperty _ => "property"

/-- Whether the candidate is marked already. -/
def isExported : Candidate → Bool
  | .ofClass c => c.isExported
  | .ofFunction f => f.isExported
  | .ofProperty p => p.isExported

/-- The visibility. -/
def visibility : Candidate → Visibility
  | .ofClass c => c.visibility
  | .ofFunction f => f.visibility
  | .ofProperty p => p.visibility

/-- The modifiers. -/
def modifiers : Candidate → Modifiers
  | .ofClass c => c.modifiers
  | .ofFunction f => f.modifiers
  | .ofProperty p => p.modifiers

/-- Whether the candidate is a class. -/
def isClass : Candidate → Bool
  | .ofClass _ => true
  | _ => false

/-- Whether the candidate is a function. -/
def isFunction : Candidate → Bool
  | .ofFunction _ => true
  | _ => false

/-- Whether the candidate is an annotation class. -/
def isAnnotationClass : Candidate → Bool
  | .ofClass c => c.kind = .annotationClass
  | _ => false

/-! ## The gate -/

/-- What keeps a candidate away from the evaluator by its kind and modifiers. -/
def flag? (c : Candidate) : Option PlatformFlag :=
  let m := c.modifiers
  if m.expect then some .expect
  else if m.external then some .external
  else if m.inline && c.isFunction then some .inline
  else if m.suspend then some .suspend
  else if m.value || (m.inline && c.isClass) then some .value
  else if c.isAnnotationClass then some .annotationClass
  else if m.anonymous then some .anonymous
  else none

/-- What keeps a candidate away from the evaluator. -/
def gate (c : Candidate) : Option SkipReason :=
  if c.visibility ≠ .pub then some (.notPublic c.visibility)
  else c.flag?.map .platform

/-! ## Conversions -/

/-- Whether values in a function's signature are converted. -/
def functionConverts (f : FunctionDecl) : Bool :=
  (f.returnType :: f.parameters.map (·.type)).any TypeRef.needsConversion

/-- Whether a property's value is converted. -/
def propertyConverts (p : PropertyDecl) : Bool :=
  p.valueType?.any TypeRef.needsConversion

/-- Whether values in a constructor's signature are converted. -/
def constructorConverts (c : ConstructorDecl) : Bool :=
  c.parameters.any (·.type.needsConversion)

/-- The public signatures with values that are converted when they cross: a
class's constructors, then its properties, then its methods. -/
def conversionSites : Candidate → List String
  | .ofClass c =>
    ((c.constructors.filter fun k => Rule.isPublic k.visibility && constructorConverts k).map
        (·.signature c.name))
      ++ ((c.properties.filter fun p => Rule.isPublic p.visibility && propertyConverts p).map
        PropertyDecl.signature)
      ++ ((c.methods.filter fun f => Rule.isPublic f.visibility && functionConverts f).map
        FunctionDecl.signature)
  | .ofFunction f => if functionConverts f then [f.signature] else []
  | .ofProperty p => if propertyConverts p then [p.signature] else []

end Candidate

/-! ## Decisions -/

/-- What a pass decides about a candidate. -/
inductive Decision where
  | mark
  | alreadyExported
  | skip (reason : SkipReason)
  | reject (reason : Rejection)
deriving DecidableEq, Repr, Inhabited

/-- Value classes and suspending functions are likely to surprise their
author, so skipping them is said louder than the rest. -/
def PlatformFlag.skipSeverity : PlatformFlag → Severity
  | .value => .warning
  | .suspend => .warning
  | _ => .trace

/-- How loud a skipped candidate is reported. -/
def SkipReason.severity : SkipReason → Severity
  | .filtered => .info
  | .notPublic _ => .trace
  | .platform flag => flag.skipSeverity

/-- What is reported about a skipped candidate. -/
def SkipReason.diagnostic (name : String) (reason : SkipReason) : Diagnostic where
  severity := reason.severity
  message :=
    match reason with
    | .filtered => "Skipping " ++ name ++ ": " ++ reason.text
    | _ => "Not exporting " ++ name ++ ": " ++ reason.text

/-- What is reported about a signature with values that are converted. -/
def conversionDiagnostic (site : String) : Diagnostic :=
  ⟨.trace, site ++ " needs a runtime collection conversion"⟩

/-- What is reported about a candidate, the decision first. -/
def Decision.diagnostics (c : Candidate) : Decision → List Diagnostic
  | .mark =>
    ⟨.info, "Exporting " ++ c.name.text⟩ :: c.conversionSites.map conversionDiagnostic
  | .alreadyExported => [⟨.trace, c.name.text ++ " is already exported"⟩]
  | .skip reason => [reason.diagnostic c.name.text]
  | .reject reason =>
    [⟨.warning, "Will not export " ++ c.name.text ++ " due to " ++ reason.text⟩]

/-- The report with one more candidate decided. -/
def Report.add (r : Report) (c : Candidate) : Decision → Report
  | .mark =>
    { r with
      exported := r.exported ++ [c.name.text]
      needsConversion := r.needsConversion ++ c.conversionSites }
  | .alreadyExported => { r with alreadyExported := r.alreadyExported ++ [c.name.text] }
  | .skip reason => { r with skipped := r.skipped ++ [⟨c.name.text, c.kindText, reason⟩] }
  | .reject reason => { r with rejected := r.rejected ++ [⟨c.name.text, c.kindText, reason⟩] }

/-! ## The pass -/

/-- A pass: which names it considers, and what its rules look at. -/
structure Pass where
  filter : ExportFilter := .all
  options : RuleOptions := {}
deriving Inhabited

/-- What a pass has come to: its decisions in the order of the walk, what it
reported about them, and the session they were made in. -/
structure Progress where
  report : Report
  /-- The places of the candidates to be marked. -/
  plan : List TreePath := []
  diagnostics : List Diagnostic := []
  session : Session := {}

/-- How a pass ends. -/
structure Outcome where
  /-- The module afterwards. -/
  result : SourceModule
  /-- The report, or why there is none. -/
  report : Except ModuleError Report
  diagnostics : List Diagnostic

/-- The wording of an error that ends a pass. -/
def ModuleError.passMessage (e : ModuleError) : String :=
  "malformed declaration graph: " ++ e.message

namespace Pass

/-- What is reported at the start. -/
def banner (p : Pass) : Diagnostic :=
  ⟨.info,
    if p.filter.isEmpty then "Exporting all public declarations"
    else "Exporting declarations that match one of: "
      ++ bracketed (p.filter.patterns.map fun s => "'" ++ s ++ "'")⟩

/-- Decides on a candidate. -/
def decide (p : Pass) (e : Evaluator) (c : Candidate) : Query Decision :=
  if c.isExported then pure .alreadyExported
  else if !p.filter.selects c.name.text then pure (.skip .filtered)
  else
    match c.gate with
    | some reason => pure (.skip reason)
    | none => do
      let verdict ← match c with
        | .ofClass d => e.classVerdict d
        | .ofFunction f => e.functionVerdict f
        | .ofProperty q => e.propertyVerdict q
      match verdict with
      | .exportable => pure .mark
      | .rejected reason => pure (.reject reason)

/-- Decides on the candidates among declarations in turn. An error ends the
decisions, and is the last thing reported. -/
def decideAll (p : Pass) (e : Evaluator) (g : Progress) :
    List (TreePath × Declaration) → Except (ModuleError × List Diagnostic) Progress
  | [] => .ok g
  | (path, d) :: more =>
    match Candidate.of? path.isTopLevel d with
    | none => decideAll p e g more
    | some c =>
      match (p.decide e c).ask g.session with
      | (.error failure, _) =>
        .error (failure, g.diagnostics ++
          [⟨.error, "Cannot decide whether to export " ++ c.name.text ++ ": "
            ++ failure.passMessage⟩])
      | (.ok decision, session) =>
        decideAll p e
          { report := g.report.add c decision
            plan := if decision = .mark then g.plan ++ [path] else g.plan
            diagnostics := g.diagnostics ++ decision.diagnostics c
            session }
          more

/-- Marks the declarations at all places in turn. An error ends the marking; what
was marked until then stays marked. -/
def markAll (m : SourceModule) : List TreePath → Except ModuleError Unit × SourceModule
  | [] => (.ok (), m)
  | path :: paths =>
    match m.markAt path with
    | .error failure => (.error failure, m)
    | .ok marked => markAll marked paths

/-- Runs the pass over a module. -/
def run (p : Pass) (m : SourceModule) : Outcome :=
  let start : Progress := { report := { moduleName := m.name }, diagnostics := [p.banner] }
  match p.decideAll (.ofModule m p.options) start m.walk with
  | .error (failure, diagnostics) => { result := m, report := .error failure, diagnostics }
  | .ok g =>
    match markAll m g.plan with
    | (.error failure, marked) =>
      { result := marked, report := .error failure, diagnostics := g.diagnostics }
    | (.ok (), marked) =>
      { result := marked
        report := .ok { g.report with memo := g.session.memo.stats }
        diagnostics := g.diagnostics }

end Pass

end ExportSurface
