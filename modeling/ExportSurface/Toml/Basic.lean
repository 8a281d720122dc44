/-!
# TOML — values and tables

A TOML text fills a table step by step. No key is set twice, and how a table
came to be decides what may still be added to it:

* a table that a header only passed through may get a header of its own;
* a table with a header gets keys below that header and nowhere else;
* a table made by dotted keys takes further dotted keys, and no header;
* a table written inline takes nothing more.
-/

namespace ExportSurface

namespace Toml

/-- How a table came to be. -/
inductive Origin where
  /-- A header named it. -/
  | header
  /-- A header passed through it. -/
  | implied
  /-- A dotted key passed through it. -/
  | dotted
  /-- It was written inline. -/
  | inline
deriving DecidableEq, Repr, Inhabited

end Toml

/-- A TOML value. Numbers and dates are kept only so far as they differ from
other values. -/
inductive Toml where
  | string (value : String)
  | boolean (value : Bool)
  | number
  | date
  | array (items : List Toml)
  | table (origin : Toml.Origin) (entries : List (String × Toml))
  /-- An array of tables with headers, never empty. -/
  | tables (elements : List (List (String × Toml)))

namespace Toml

instance : Inhabited Toml := ⟨.number⟩

/-- The entries of a table. -/
abbrev Entries := List (String × Toml)

/-- The entries with a key set, in its place if it was there. -/
def setEntry (key : String) (v : Toml) : Entries → Entries
  | [] => [(key, v)]
  | (k, w) :: es => if k = key then (k, v) :: es else (k, w) :: setEntry key v es

/-- Changes the table that a path leads to. Tables on the way that are not
there are made, a header passes into the last element of an array of tables,
and a dotted key does not pass through a table with a header. -/
def adjust (viaDots : Bool) (change : Origin → Entries → Option Entries) :
    List String → Origin → Entries → Option Entries
  | [], origin, es => change origin es
  | key :: path, _, es =>
    match es.lookup key with
    | none => do
      let origin := if viaDots then Origin.dotted else .implied
      let inner ← adjust viaDots change path origin []
      return setEntry key (.table origin inner) es
    | some (.table .inline _) => none
    | some (.table origin inner) =>
      if viaDots && origin = .header then none
      else do
        let inner ← adjust viaDots change path origin inner
        return setEntry key (.table origin inner) es
    | some (.tables elements) => do
      let inner ← adjust viaDots change path .header (elements.getLastD [])
      return setEntry key (.tables (elements.dropLast ++ [inner])) es
    | some _ => none

/-- Sets a key for the first time, in the table that dotted keys before it
lead to. -/
def assign (path : List String) (key : String) (v : Toml) (es : Entries) : Option Entries :=
  adjust true
    (fun origin inner =>
      if !path.isEmpty && origin ≠ .dotted then none
      else if (inner.lookup key).isSome then none
      else some (inner ++ [(key, v)]))
    path .header es

/-- Sets a key below a header. -/
def assignBelow (header path : List String) (key : String) (v : Toml) (root : Entries) :
    Option Entries :=
  adjust false (fun _ es => assign path key v es) header .header root

/-- Opens a table by its header. -/
def openTable (path : List String) (key : String) (root : Entries) : Option Entries :=
  adjust false
    (fun _ es =>
      match es.lookup key with
      | none => some (setEntry key (.table .header []) es)
      | some (.table .implied inner) => some (setEntry key (.table .header inner) es)
      | some _ => none)
    path .header root

/-- Opens another table of an array of tables by its header. -/
def openElement (path : List String) (key : String) (root : Entries) : Option Entries :=
  adjust false
    (fun _ es =>
      match es.lookup key with
      | none => some (setEntry key (.tables [[]]) es)
      | some (.tables elements) => some (setEntry key (.tables (elements ++ [[]])) es)
      | some _ => none)
    path .header root

end Toml

end ExportSurface
