import ExportSurface.Glob.Basic
import ExportSurface.Text.Blank
/-!
# Export filters

A list of globs, any of which selects a name. Patterns are trimmed and blank
ones dropped, so a list of blank patterns is no filter at all: it selects
every name.
-/

namespace ExportSurface

/-- Globs that select names between them. -/
structure ExportFilter where
  globs : List Glob := []
deriving Inhabited

namespace ExportFilter

/-- The filter that selects every name. -/
def all : ExportFilter := {}

/-- The patterns that count, trimmed. -/
def effective (patterns : List String) : List String :=
  (patterns.map Text.trimmed).filter (· ≠ "")

/-- The filter of a list of patterns, or the first of them that does not compile. -/
def ofPatterns (engine : Glob.Engine) (patterns : List String) (separator : Char) :
    Except GlobError ExportFilter := do
  let globs ← (effective patterns).mapM fun p => Glob.compile engine p separator
  return { globs }

/-- Whether there are no globs. -/
def isEmpty (f : ExportFilter) : Bool := f.globs.isEmpty

/-- Whether a name is selected. -/
def selects (f : ExportFilter) (name : String) : Bool :=
  f.isEmpty || f.globs.any (·.isMatch name)

/-- The patterns of the globs. -/
def patterns (f : ExportFilter) : List String := f.globs.map (·.pattern)

end ExportFilter

end ExportSurface
