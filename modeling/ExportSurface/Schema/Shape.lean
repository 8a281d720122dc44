import ExportSurface.Json.Basic
/-!
# Shapes of JSON documents

The few shapes that documents about declarations are made of: lists, options,
words, records and tagged records. Decoding follows the text from left to
right and stops at the first thing wrong, be it a fault of the text or a value
of the wrong shape.

A tagged record is the one shape that cannot be decoded as it is met, since
its tag may be its last member. Its members are read in full first, and
decoded from there once the tag is known. So a value is decoded in one of two
settings, and in the second one no fault of the text is left to be met.
-/

namespace ExportSurface

/-- Where a decoded value comes from. -/
inductive Setting where
  /-- Straight from the text. -/
  | direct
  /-- Out of a tagged record, which has been read in full. -/
  | held
deriving DecidableEq, Repr

/-- A way to decode a value. -/
abbrev Decoder (α : Type) := Setting → Json → Except Fault α

namespace Decoder

/-! ## Plain values -/

/-- A text. -/
def string : Decoder String
  | _, .string s => .ok s
  | _, j => .error j.wrongShape

/-- A truth value. -/
def bool : Decoder Bool
  | _, .bool b => .ok b
  | _, j => .error j.wrongShape

/-- A list. -/
def list (item : Decoder α) : Decoder (List α)
  | s, .array items =>
    items.mapM fun
      | .gap flaw => .error flaw.met
      | v => item s v
  | _, j => .error j.wrongShape

/-- A value or `null`. -/
def option (value : Decoder α) : Decoder (Option α)
  | _, .null => .ok none
  | s, j => some <$> value s j

/-- A decoded value, converted. -/
def map (f : α → β) (value : Decoder α) : Decoder β :=
  fun s j => f <$> value s j

/-! ## Words -/

/-- The payload of a word that has none: `null`, or held also no members. -/
def nothing : Decoder Unit
  | _, .null => .ok ()
  | .held, .object [] => .ok ()
  | _, j => .error j.wrongShape

/-- What is wrong where a reader set on the closing bracket finds more. -/
def notClosed : Json → Fault
  | .gap flaw => flaw.set
  | _ => .malformed

/-- One of several words, standing alone or as the only member's name. Straight
from the text, anything else is taken for a fault at its first character. -/
def word (table : List (String × α)) : Decoder α
  | _, .string w => (table.lookup w).elim (.error .mismatched) .ok
  | .direct, .object ((_, .gap flaw) :: _) => .error flaw.set
  | s, .object ((w, payload) :: more) => do
    if s = .held && !more.isEmpty then .error .mismatched
    else
      match table.lookup w with
      | none => .error .mismatched
      | some a => do
        nothing s payload
        match more with
        | [] => .ok a
        | (_, v) :: _ => .error (notClosed v)
  | .direct, .fault flaw => .error flaw.set
  | .direct, _ => .error .malformed
  | .held, j => .error j.wrongShape

/-! ## Records -/

/-- A field of a record: its name, whether it must be there, and what its
value does to the record. -/
structure Field (α : Type) where
  name : String
  required : Bool
  fill : Decoder (α → α)

/-- A field that must be there. -/
def Field.needed (name : String) (value : Decoder β) (put : β → α → α) : Field α :=
  { name, required := true, fill := map put value }

/-- A field that may be left out. -/
def Field.free (name : String) (value : Decoder β) (put : β → α → α) : Field α :=
  { name, required := false, fill := map put value }

/-- Fills a record from members, in their order. The value of a member of no
field's name is passed over and no field is filled twice. -/
def fillByName (fields : List (Field α)) (s : Setting) (seen : List String) (a : α) :
    List (String × Json) → Except Fault α
  | [] =>
    if fields.all fun f => !f.required || seen.contains f.name then .ok a
    else .error .mismatched
  | (_, .gap flaw) :: _ => .error flaw.met
  | (name, v) :: ms =>
    match fields.find? (·.name = name) with
    | none =>
      match v.passFault with
      | some fault => .error fault
      | none => fillByName fields s seen a ms
    | some f =>
      if seen.contains name then .error .mismatched
      else do
        let put ← f.fill s v
        fillByName fields s (name :: seen) (put a) ms

/-- What is wrong with a list that is longer than its record. -/
def tooLong (s : Setting) (v : Json) : Fault :=
  match s with
  | .direct => notClosed v
  | .held => .mismatched

/-- Fills a record from a list that holds its fields in order; fields at the
end that need not be there may be missing. -/
def fillInOrder (s : Setting) (a : α) : List (Field α) → List Json → Except Fault α
  | [], [] => .ok a
  | [], v :: _ => .error (tooLong s v)
  | fields, [] => if fields.all (!·.required) then .ok a else .error .mismatched
  | _ :: _, .gap flaw :: _ => .error flaw.met
  | f :: fields, v :: vs => do
    let put ← f.fill s v
    fillInOrder s (put a) fields vs

/-- A record, written as an object or as the list of its fields. -/
def record (fields : List (Field α)) (blank : α) : Decoder α
  | s, .object members => fillByName fields s [] blank members
  | s, .array items => fillInOrder s blank fields items
  | _, j => .error j.wrongShape

/-! ## Tagged records -/

/-- The word of a tag. Held, a tag may also be the number of its word. -/
def tagWord (words : List String) : Decoder String
  | _, .string w => if words.contains w then .ok w else .error .mismatched
  | .held, .number n => (n.toNat?.bind (words[·]?)).elim (.error .mismatched) .ok
  | _, j => .error j.wrongShape

/-- The tag among members and the members without it, all of them read. -/
def splitMembers (tag : String) (words : List String) (s : Setting) :
    Option String → List (String × Json) → Except Fault (String × List (String × Json))
  | none, [] => .error .mismatched
  | some w, [] => .ok (w, [])
  | found, (name, v) :: ms =>
    if name = tag then
      if found.isSome then .error .mismatched
      else do
        let w ← tagWord words s v
        splitMembers tag words s (some w) ms
    else
      match v.readFault with
      | some fault => .error fault
      | none => do
        let (w, rest) ← splitMembers tag words s found ms
        return (w, (name, v) :: rest)

/-- The tag of a tagged record and the record without it. Written as a list,
the record has its tag first. -/
def tagged (tag : String) (words : List String) : Decoder (String × Json)
  | s, .object members => do
    let (w, rest) ← splitMembers tag words s none members
    return (w, .object rest)
  | _, .array [] => .error .mismatched
  | s, .array (v :: vs) => do
    let w ← tagWord words s v
    match Json.readFaultItems vs with
    | some fault => .error fault
    | none => return (w, .array vs)
  | _, j => .error j.wrongShape

end Decoder

end ExportSurface
