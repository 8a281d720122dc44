import ExportSurface.Glob.Token
/-!
# Globs — what a class lists

The items of a class are read by the rules of bracket classes. Hyphens at the
start list the hyphen. After that a hyphen between two characters makes a
range of them, two hyphens in a row take away all that follows, and any other
hyphen lists itself. A class that is nothing but a known name between colons
lists the ASCII characters of that name.

A class without items is an error, and so is a range whose start is above its
end. A class that matches no character is not: it may list the separator alone.
-/

namespace ExportSurface

namespace Glob

/-- The characters from one to another, both included. -/
structure CharRange where
  low : Char
  high : Char
deriving DecidableEq, Repr, Inhabited

/-- Whether a character is in a range. -/
def CharRange.contains (r : CharRange) (c : Char) : Bool :=
  r.low ≤ c && c ≤ r.high

/-- The range of one character. -/
def CharRange.single (c : Char) : CharRange := ⟨c, c⟩

/-- What a class lists: the characters of the first union that are in none of
the unions taken away from it. -/
structure CharClass where
  negated : Bool
  listed : List CharRange
  removed : List (List CharRange)
  /-- Whether the class is a name between colons. -/
  named : Bool := false
deriving DecidableEq, Repr, Inhabited

/-- Whether a character is in one of several ranges. -/
def inRanges (rs : List CharRange) (c : Char) : Bool := rs.any (·.contains c)

/-- Whether a class matches a character. -/
def CharClass.contains (k : CharClass) (c : Char) : Bool :=
  k.negated != (inRanges k.listed c && !k.removed.any (inRanges · c))

/-! ## Names between colons -/

/-- The ASCII characters that names between colons stand for. -/
def namedRanges : List (String × List CharRange) :=
  let digit : CharRange := ⟨'0', '9'⟩
  let upper : CharRange := ⟨'A', 'Z'⟩
  let lower : CharRange := ⟨'a', 'z'⟩
  let punct : List CharRange := [⟨'!', '/'⟩, ⟨':', '@'⟩, ⟨'[', Char.ofNat 0x60⟩, ⟨'\x7b', '~'⟩]
  [("alnum", [digit, upper, lower]), ("alpha", [upper, lower]), ("ascii", [⟨'\x00', '\x7f'⟩]),
   ("blank", [⟨'\t', '\t'⟩, ⟨' ', ' '⟩]), ("cntrl", [⟨'\x00', '\x1f'⟩, ⟨'\x7f', '\x7f'⟩]),
   ("digit", [digit]), ("graph", [⟨'!', '~'⟩]), ("lower", [lower]), ("print", [⟨' ', '~'⟩]),
   ("punct", punct), ("space", [⟨'\t', '\r'⟩, ⟨' ', ' '⟩]), ("upper", [upper]),
   ("word", [digit, upper, ⟨'_', '_'⟩, lower]),
   ("xdigit", [digit, ⟨'A', 'F'⟩, ⟨'a', 'f'⟩])]

/-- The items that spell a name between colons. -/
def spelled (name : String) : List ClassItem :=
  .char ':' :: name.toList.map .char ++ [.char ':']

/-- The ranges of a name between colons, where the items are one. -/
def namedRanges? (items : List ClassItem) : Option (List CharRange) :=
  (namedRanges.find? fun (name, _) => items = spelled name).map (·.2)

/-! ## Unions, ranges and differences -/

/-- The character that an item lists. -/
def ClassItem.listedChar : ClassItem → Char
  | .char c => c
  | .hyphen => '-'

/-- The unions of items that follow hyphens at the start of a class; the first
union goes on from `current`. None where a range ends below its start. -/
def unions (current : List CharRange) : List ClassItem → Option (List (List CharRange))
  | [] => some [current]
  | .hyphen :: .hyphen :: items => (unions [] items).map (current :: ·)
  | .char low :: .hyphen :: .char high :: items =>
    if low ≤ high then unions (current ++ [⟨low, high⟩]) items else none
  | item :: items => unions (current ++ [.single item.listedChar]) items

/-- Why a class cannot be read. -/
inductive ClassFault where
  | empty
  | invertedRange
deriving DecidableEq, Repr, Inhabited

/-- What the items of a class list. -/
def CharClass.ofItems (negated : Bool) (items : List ClassItem) : Except ClassFault CharClass :=
  match items with
  | [] => .error .empty
  | _ :: _ =>
    match if negated then none else namedRanges? items with
    | some listed => .ok { negated, listed, removed := [], named := true }
    | none =>
      let lead := (items.takeWhile (· = .hyphen)).map fun _ => CharRange.single '-'
      match unions lead (items.dropWhile (· = .hyphen)) with
      | some (listed :: removed) => .ok { negated, listed, removed }
      | _ => .error .invertedRange

/-- How deep a union nests: a list of one character or range is that one. -/
def unionDepth (rs : List CharRange) : Nat := if rs.length > 1 then 1 else 0

/-- How deep differences nest, the first of them innermost. -/
def differenceDepth (inner : Nat) : List (List CharRange) → Nat
  | [] => inner
  | rs :: more => differenceDepth (max inner (unionDepth rs) + 1) more

/-- How deep a class nests as a regular expression: in its own brackets, the
intersection of the listed characters and all but the separator. -/
def CharClass.depth (k : CharClass) : Nat :=
  let body := if k.named then 0 else differenceDepth (unionDepth k.listed) k.removed + 1
  2 + max body 1

end Glob

end ExportSurface
