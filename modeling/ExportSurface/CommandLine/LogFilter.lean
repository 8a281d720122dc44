import ExportSurface.CommandLine.LogDirective
/-!
# Log filters

Which messages are shown. A filter is a list of directives. Of those that
apply to a message by where it is reported the most specific one decides; a
directive that names a span shows messages inside it besides. A flag on the
command line sets the filter, else the environment, else the manifest, else
messages from `info` on are shown.
-/

namespace ExportSurface

/-! ## Messages and where they come from -/

/-- A stretch of work that messages are reported in. -/
structure LogSpan where
  target : String
  name : String
  fields : List (String × String)
deriving DecidableEq, Repr, Inhabited

/-- A message with the part of the program that reports it. -/
structure LogEntry where
  target : String
  /-- The span it is reported in, which is of level `info`. -/
  span : Option LogSpan := none
  diagnostic : Diagnostic
deriving DecidableEq, Repr, Inhabited

namespace LogEntry

/-- The only field of a message. -/
def fieldName : String := "message"

/-- What a pass over a module reports. -/
def ofPass (moduleName : String) (d : Diagnostic) : LogEntry where
  target := "exportpub_analysis::diagnostics"
  span := some
    { target := "exportpub_analysis::annotate"
      name := "export_pass"
      fields := [("module", moduleName)] }
  diagnostic := d

/-- What a command reports after a pass. -/
def ofAnalyze (d : Diagnostic) : LogEntry where
  target := "exportpub::commands::analyze"
  diagnostic := d

end LogEntry

/-! ## Directives on messages -/

namespace LogDirective

/-- Whether a target begins as the directive says. -/
def covers (d : LogDirective) (target : String) : Bool :=
  d.target.all fun t => t.toList.isPrefixOf target.toList

/-- Whether the directive decides about a message by its target and field
alone. -/
def appliesTo (d : LogDirective) (e : LogEntry) : Bool :=
  d.span.isNone && d.covers e.target
    && d.field.all fun (name, value) => value.isNone && name = LogEntry.fieldName

/-- Whether the directive shows messages inside a span. -/
def selects (d : LogDirective) (s : LogSpan) : Bool :=
  (d.span.isSome || d.field.isSome) && d.covers s.target && d.span.all (· = s.name)
    && d.field.all fun (name, value) =>
      match s.fields.lookup name with
      | none => false
      | some v => value.all (· = v)

/-- How specific a directive is: by the length of its target first. -/
def weight (d : LogDirective) : Nat :=
  2 * (d.target.map (·.length + 1)).getD 0 + (if d.field.isSome then 1 else 0)

/-- Whether two directives are about the same messages. -/
def sameScope (d e : LogDirective) : Bool :=
  d.target = e.target && d.span = e.span && d.field = e.field

end LogDirective

/-! ## Filters -/

/-- Directives in the order they were given. -/
structure LogFilter where
  directives : List LogDirective
deriving DecidableEq, Repr, Inhabited

namespace LogFilter

/-- The filter of a list of directives. If it is empty only errors are shown. -/
def ofList (ds : List LogDirective) : LogFilter :=
  ⟨if ds.isEmpty then [{ level := .error }] else ds⟩

/-- The pieces of a text between commas, without the empty ones. -/
def pieces (s : String) : List (List Char) :=
  (Text.pieces ',' s.toList).filter (· ≠ [])

/-- The filter of a text. What is no directive in it does not count. -/
def ofText (s : String) : LogFilter :=
  ofList ((pieces s).filterMap LogDirective.parse?)

/-- The filter of a text that holds nothing but directives. -/
def parse? (s : String) : Option LogFilter :=
  ((pieces s).mapM LogDirective.parse?).map ofList

/-- The directives that none after them takes the place of. -/
def lasting : List LogDirective → List LogDirective
  | [] => []
  | d :: ds => if ds.any d.sameScope then lasting ds else d :: lasting ds

/-- The more specific of two directives. -/
def preferred (best : Option LogDirective) (d : LogDirective) : Option LogDirective :=
  match best with
  | none => some d
  | some b => if b.weight < d.weight then some d else some b

/-- The directive that decides about a message. -/
def decisive? (f : LogFilter) (e : LogEntry) : Option LogDirective :=
  ((lasting f.directives).filter (·.appliesTo e)).foldl preferred none

/-- Whether spans are followed at all: some directive has to reach their
level, or ask for the value of a field, which may come at any level. -/
def followsSpans (f : LogFilter) : Bool :=
  f.directives.any fun d => d.level.shows .info || d.field.any (·.2.isSome)

/-- Whether a message of a severity is shown for the span it is in. -/
def showsInside (f : LogFilter) (s : LogSpan) (severity : Severity) : Bool :=
  f.followsSpans
    && (lasting f.directives).any fun d => d.selects s && d.level.shows severity

/-- Whether a message is shown. -/
def shows (f : LogFilter) (e : LogEntry) : Bool :=
  let severity := e.diagnostic.severity
  (f.decisive? e).any (·.level.shows severity) || e.span.any (f.showsInside · severity)

/-- The filter in effect. What the environment holds counts only if all of it
can be read. -/
def effective (verbose quiet : Bool) (environment manifest : Option String) : LogFilter :=
  if verbose then ofText (LogLevel.directives "trace")
  else if quiet then ofText "error"
  else
    match environment.bind parse? with
    | some f => f
    | none => ofText (LogLevel.directives (manifest.getD "info"))

end LogFilter

end ExportSurface
