import ExportSurface.Text.Blank
import ExportSurface.Text.Split
import ExportSurface.Toml.Reader
/-!
# Manifests

The settings of a project: which names to export, how names are separated,
what the rules look at, and how much is logged. A manifest is a TOML text with
the sections `export` and `log`, in which everything has a default.
-/

namespace ExportSurface

/-- The settings of a project. -/
structure Manifest where
  /-- Globs over qualified names; none of them exports every public declaration. -/
  patterns : List String := []
  /-- The separator the globs are written against. -/
  separator : Char := '.'
  /-- Whether the types of property values are checked. -/
  checkPropertyTypes : Bool := true
  /-- The log level in effect when nothing else sets one. -/
  level : Option String := none
deriving DecidableEq, Repr, Inhabited

namespace Manifest

/-- The name of the file that holds a manifest. -/
def fileName : String := "exportpub.toml"

/-! ## Reading -/

/-- A text. -/
def text? : Toml → Option String
  | .string s => some s
  | _ => none

/-- A list of texts. -/
def texts? : Toml → Option (List String)
  | .array items => items.mapM text?
  | _ => none

/-- A text of one character. -/
def char? : Toml → Option Char
  | .string s =>
    match s.toList with
    | [c] => some c
    | _ => none
  | _ => none

/-- A truth value. -/
def truth? : Toml → Option Bool
  | .boolean b => some b
  | _ => none

/-- The values that a section gives to its keys. A section may be a table, or
the list of its values in the order of the keys; a date has none of the keys. -/
def section? (keys : List String) : Toml → Option (List (String × Toml))
  | .table _ es => some es
  | .array items => some (keys.zip items)
  | .tables elements => some (keys.zip (elements.map (.table .header)))
  | .date => some []
  | _ => none

/-- The settings with one of them changed, where a section has its key. -/
def setting (read : Toml → Option α) (put : α → Manifest → Manifest) (key : String)
    (es : List (String × Toml)) (m : Manifest) : Option Manifest :=
  match es.lookup key with
  | none => some m
  | some v => (read v).map (put · m)

/-- The settings with those of the section `export`. -/
def withExport (m : Manifest) (v : Toml) : Option Manifest := do
  let es ← section? ["patterns", "separator", "check-property-types"] v
  let m ← setting texts? (fun ps m => { m with patterns := ps }) "patterns" es m
  let m ← setting char? (fun c m => { m with separator := c }) "separator" es m
  setting truth? (fun b m => { m with checkPropertyTypes := b }) "check-property-types" es m

/-- The settings with those of the section `log`. -/
def withLog (m : Manifest) (v : Toml) : Option Manifest := do
  let es ← section? ["level"] v
  setting text? (fun l m => { m with level := some l }) "level" es m

/-- The manifest in a text. -/
def parse? (s : String) : Option Manifest := do
  let root ← Toml.parse? s
  let m ← match root.lookup "export" with
    | none => some {}
    | some v => withExport {} v
  match root.lookup "log" with
  | none => some m
  | some v => withLog m v

/-! ## Patterns in effect -/

/-- The patterns in a list joined by colons, trimmed, blank ones dropped. -/
def splitPatterns (joined : String) : List String :=
  ((Text.pieces ':' joined.toList).map fun p => String.ofList (Text.trim p)).filter (· ≠ "")

/-- The patterns in effect: those given one by one and those given joined, and
if there are none at all those of the manifest. -/
def effectivePatterns (given : List String) (joined : Option String)
    (manifest : Option Manifest) : List String :=
  let patterns := given ++ (joined.map splitPatterns).getD []
  if patterns.isEmpty then (manifest.map (·.patterns)).getD [] else patterns

end Manifest

end ExportSurface
