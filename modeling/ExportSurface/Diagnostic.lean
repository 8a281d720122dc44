/-!
# Diagnostics

What a pass reports while it runs: messages with a severity, in order.
-/

namespace ExportSurface

/-- How much a message matters. -/
inductive Severity where
  /-- Fine detail, such as why a declaration was not even considered. -/
  | trace
  | info
  | warning
  | error
deriving DecidableEq, Repr, Inhabited

namespace Severity

/-- Severities in ascending order. -/
def rank : Severity → Nat
  | .trace => 0
  | .info => 1
  | .warning => 2
  | .error => 3

/-- The label printed before a message. -/
def label : Severity → String
  | .trace => "TRACE"
  | .info => "INFO"
  | .warning => "WARN"
  | .error => "ERROR"

end Severity

/-- A reported message. -/
structure Diagnostic where
  severity : Severity
  message : String
deriving DecidableEq, Repr, Inhabited

namespace Diagnostic

/-- Whether one text stands somewhere in another. -/
def occursIn (needle : List Char) : List Char → Bool
  | [] => needle.isEmpty
  | c :: cs => needle.isPrefixOf (c :: cs) || occursIn needle cs

/-- The messages of exactly one severity. -/
def messages (ds : List Diagnostic) (s : Severity) : List String :=
  (ds.filter (·.severity = s)).map (·.message)

/-- The number of messages of exactly one severity. -/
def count (ds : List Diagnostic) (s : Severity) : Nat :=
  (messages ds s).length

/-- Whether a message of at least that severity contains a text. -/
def contains (ds : List Diagnostic) (s : Severity) (needle : String) : Bool :=
  ds.any fun d =>
    s.rank ≤ d.severity.rank && occursIn needle.toList d.message.toList

end Diagnostic

end ExportSurface
