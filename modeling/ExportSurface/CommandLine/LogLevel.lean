import ExportSurface.Diagnostic
import ExportSurface.Text.Numeral
/-!
# Log levels

How much of what the program reports is shown. A level has a name and a
number, and is usually applied to every part of the program at once.
-/

namespace ExportSurface

/-- What is shown at least. -/
inductive LogLevel where
  | off
  | error
  | warn
  | info
  | debug
  | trace
deriving DecidableEq, Repr, Inhabited

namespace LogLevel

/-- The levels in the order of their numbers. -/
def byNumber : List LogLevel := [off, error, warn, info, debug, trace]

/-- The names of levels; no name at all stands for errors. -/
def byName : List (String × LogLevel) :=
  [("off", off), ("error", error), ("", error), ("warn", warn), ("info", info),
   ("debug", debug), ("trace", trace)]

/-- The number that a text denotes, written with or without a plus sign. -/
def number? (s : String) : Option Nat :=
  let digits := match s.toList with
    | '+' :: ds => ds
    | ds => ds
  if digits ≠ [] && digits.all Char.isDigit then some (Text.decimal digits) else none

/-- The level of a number, or of a name in upper or lower case. -/
def ofName? (name : String) : Option LogLevel :=
  match number? name with
  | some n => byNumber[n]?
  | none => byName.lookup name.toLower

/-- Levels in the order of how much they show. -/
def rank : LogLevel → Nat
  | .off => 0
  | .error => 1
  | .warn => 2
  | .info => 3
  | .debug => 4
  | .trace => 5

/-- The least level that shows a severity. -/
def ofSeverity : Severity → LogLevel
  | .error => .error
  | .warning => .warn
  | .info => .info
  | .trace => .trace

/-- Whether a severity is shown. -/
def shows (l : LogLevel) (s : Severity) : Bool := (ofSeverity s).rank ≤ l.rank

/-- The parts of the program whose messages a level applies to. -/
def parts : List String :=
  ["exportpub", "exportpub_analysis", "exportpub_glob", "exportpub_model"]

/-- A level applied to every part of the program. -/
def directives (level : String) : String :=
  ",".intercalate (parts.map fun p => p ++ "=" ++ level)

end LogLevel

end ExportSurface
