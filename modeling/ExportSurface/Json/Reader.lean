import ExportSurface.Json.Basic
import ExportSurface.Json.Numeral
/-!
# JSON — reading

`Json.Document.ofText` reads a text into a tree with a leaf where it is
faulty. Reading stops for good at a fault that no reader can pass over; what
was read before it stays in the tree. A fault that can be passed over, such
as half of a surrogate pair, only spoils the value it is in.
-/

namespace ExportSurface

namespace Json

/-- Whether a character may stand between tokens. -/
def isGap (c : Char) : Bool :=
  c = ' ' || c = '\t' || c = '\n' || c = '\r'

/-- A text without its leading gap. -/
def skipGap (cs : List Char) : List Char :=
  cs.dropWhile isGap

/-! ## Quoted texts -/

/-- Four hexadecimal digits and what follows them. A text of less than four
bytes ends too early, whatever is in it. -/
def fourHex (cs : List Char) : Except Fault (Nat × List Char) :=
  match cs with
  | a :: b :: c :: d :: rest =>
    match Text.hexValue? a, Text.hexValue? b, Text.hexValue? c, Text.hexValue? d with
    | some a, some b, some c, some d => .ok (((a * 16 + b) * 16 + c) * 16 + d, rest)
    | _, _, _, _ => .error .malformed
  | _ => .error (if (String.ofList cs).utf8ByteSize < 4 then .truncated else .malformed)

/-- Whether a code unit is the first half of a surrogate pair. -/
def isHighHalf (n : Nat) : Bool := 0xD800 ≤ n && n ≤ 0xDBFF

/-- Whether a code unit is the second half of a surrogate pair. -/
def isLowHalf (n : Nat) : Bool := 0xDC00 ≤ n && n ≤ 0xDFFF

/-- The second half that has to follow the first, and what follows it. -/
def secondHalf (cs : List Char) : Except Fault (Nat × List Char) :=
  match cs with
  | '\\' :: 'u' :: rest => do
    let (n, rest) ← fourHex rest
    if isLowHalf n then .ok (n, rest) else .error .malformed
  | '\\' :: rest => .error (faultAt rest)
  | rest => .error (faultAt rest)

/-- The character of a one-letter escape. -/
def simpleEscape? : Char → Option Char
  | '"' => some '"'
  | '\\' => some '\\'
  | '/' => some '/'
  | 'b' => some '\x08'
  | 'f' => some '\x0c'
  | 'n' => some '\n'
  | 'r' => some '\r'
  | 't' => some '\t'
  | _ => none

/-- The outcome of reading up to the closing quote. -/
structure QuotedScan where
  /-- The characters read so far, the last one first. -/
  reversed : List Char
  /-- The first fault that a reader passing over does not mind. -/
  flaw : Option Fault
  /-- What follows the closing quote, or the fault that ends the text. -/
  rest : Except Fault (List Char)

/-- Reads up to the closing quote; `fuel` bounds the number of characters. -/
def scanQuoted (fuel : Nat) (acc : List Char) (flaw : Option Fault) (cs : List Char) :
    QuotedScan :=
  match fuel, cs with
  | 0, _ => ⟨acc, flaw, .error .malformed⟩
  | _, [] => ⟨acc, flaw, .error .truncated⟩
  | _, '"' :: rest => ⟨acc, flaw, .ok rest⟩
  | fuel + 1, '\\' :: 'u' :: rest =>
    match fourHex rest with
    | .error f => ⟨acc, flaw, .error f⟩
    | .ok (n, rest) =>
      if isHighHalf n then
        match secondHalf rest with
        | .ok (m, rest) =>
          let c := Char.ofNat (0x10000 + (n - 0xD800) * 0x400 + (m - 0xDC00))
          scanQuoted fuel (c :: acc) flaw rest
        | .error f => scanQuoted fuel acc (flaw.or (some f)) rest
      else if isLowHalf n then scanQuoted fuel acc (flaw.or (some .malformed)) rest
      else scanQuoted fuel (Char.ofNat n :: acc) flaw rest
  | fuel + 1, '\\' :: c :: rest =>
    match simpleEscape? c with
    | some c => scanQuoted fuel (c :: acc) flaw rest
    | none => ⟨acc, flaw, .error .malformed⟩
  | _, ['\\'] => ⟨acc, flaw, .error .truncated⟩
  | fuel + 1, c :: rest =>
    if c.toNat < 0x20 then ⟨acc, flaw, .error .malformed⟩
    else scanQuoted fuel (c :: acc) flaw rest

/-- Reads a quoted text whose opening quote has been read. -/
def scanString (cs : List Char) : QuotedScan :=
  scanQuoted (cs.length + 1) [] none cs

/-! ## Values -/

/-- A fault in a value that no reader gets past, whatever it wants. -/
def broken (f : Fault) : Json := .fault ⟨f, some f, f⟩

/-- A fault at the end of an array or object. A reader set on the closing
bracket has seen a comma before it, or has come to the same place. -/
def brokenOff (f : Fault) (afterComma : Bool) : Json :=
  .gap ⟨f, some f, if afterComma then .malformed else f⟩

/-- Reads a literal word after its first letter. -/
def scanWord (value : Json) : List Char → List Char → Json × Option (List Char)
  | [], cs => (value, some cs)
  | w :: ws, c :: cs =>
    if c = w then scanWord value ws cs
    else (.fault ⟨.malformed, some .malformed, .malformed⟩, none)
  | _ :: _, [] => (.fault ⟨.truncated, some .truncated, .malformed⟩, none)

/-- A container as it may be read within the room that is left: with none
left it is faulty, but it can be passed over if its parts can. -/
def within (room : Nat) (v : Json) : Json :=
  if room = 0 then .fault ⟨.malformed, v.passFault, .malformed⟩ else v

mutual

/-- Reads a value after a gap: the value and what follows it, if reading can
go on. `room` is the number of containers that may still be opened inside one
another. -/
def scanValue (fuel room : Nat) (cs : List Char) : Json × Option (List Char) :=
  match fuel with
  | 0 => (broken .malformed, none)
  | fuel + 1 =>
    match skipGap cs with
    | [] => (broken .truncated, none)
    | 'n' :: rest => scanWord .null ['u', 'l', 'l'] rest
    | 't' :: rest => scanWord (.bool true) ['r', 'u', 'e'] rest
    | 'f' :: rest => scanWord (.bool false) ['a', 'l', 's', 'e'] rest
    | '"' :: rest =>
      match scanString rest with
      | ⟨_, flaw, .error f⟩ => (.fault ⟨flaw.getD f, some f, flaw.getD f⟩, none)
      | ⟨_, some f, .ok rest⟩ => (.fault ⟨f, none, f⟩, some rest)
      | ⟨reversed, none, .ok rest⟩ => (.string (String.ofList reversed.reverse), some rest)
    | '[' :: rest =>
      let (items, rest) := scanItems fuel (room - 1) true rest
      (within room (.array items), rest)
    | '\x7b' :: rest =>
      let (members, rest) := scanMembers fuel (room - 1) true rest
      (within room (.object members), rest)
    | c :: rest =>
      if c = '-' || c.isDigit then scanNumber (c :: rest) else (broken .malformed, none)

/-- Reads the items up to the closing bracket. -/
def scanItems (fuel room : Nat) (first : Bool) (cs : List Char) :
    List Json × Option (List Char) :=
  match fuel with
  | 0 => ([brokenOff .malformed false], none)
  | fuel + 1 =>
    match skipGap cs with
    | [] => ([brokenOff .truncated false], none)
    | ']' :: rest => ([], some rest)
    | c :: rest =>
      if first then scanItem fuel room (c :: rest)
      else if c = ',' then
        match skipGap rest with
        | [] => ([brokenOff .truncated true], none)
        | ']' :: _ => ([brokenOff .malformed true], none)
        | rest => scanItem fuel room rest
      else ([brokenOff .malformed false], none)

/-- Reads an item and those after it. -/
def scanItem (fuel room : Nat) (cs : List Char) : List Json × Option (List Char) :=
  match fuel with
  | 0 => ([brokenOff .malformed false], none)
  | fuel + 1 =>
    match scanValue fuel room cs with
    | (v, none) => ([v], none)
    | (v, some rest) =>
      let (vs, rest) := scanItems fuel room false rest
      (v :: vs, rest)

/-- Reads the members up to the closing bracket. -/
def scanMembers (fuel room : Nat) (first : Bool) (cs : List Char) :
    List (String × Json) × Option (List Char) :=
  match fuel with
  | 0 => ([("", brokenOff .malformed false)], none)
  | fuel + 1 =>
    match skipGap cs with
    | [] => ([("", brokenOff .truncated false)], none)
    | '\x7d' :: rest => ([], some rest)
    | c :: rest =>
      if first then scanMember fuel room true (c :: rest)
      else if c = ',' then scanMember fuel room false (skipGap rest)
      else ([("", brokenOff .malformed false)], none)

/-- Reads a member and those after it. A reader set on a word as the first
member's name judges another value in its place by what it is. -/
def scanMember (fuel room : Nat) (first : Bool) (cs : List Char) :
    List (String × Json) × Option (List Char) :=
  match fuel, cs with
  | 0, _ => ([("", brokenOff .malformed false)], none)
  | fuel + 1, '"' :: rest =>
    match scanString rest with
    | ⟨_, flaw, .error f⟩ =>
      let met := flaw.getD f
      ([("", .gap ⟨met, some f, if first then met else .malformed⟩)], none)
    | ⟨reversed, flaw, .ok rest⟩ =>
      let (v, rest) := match skipGap rest with
        | ':' :: rest => scanValue fuel room rest
        | rest => (broken (faultAt rest), none)
      let (ms, rest) := match rest with
        | none => ([], none)
        | some rest => scanMembers fuel room false rest
      match flaw with
      | none => ((String.ofList reversed.reverse, v) :: ms, rest)
      | some f =>
        let passed := (passFault v).or (passFaultMembers ms)
        ([("", .gap ⟨f, passed, if first then f else .malformed⟩)], rest)
  | fuel + 1, rest =>
    if first then
      let (v, _) := scanValue fuel room rest
      ([("", .gap ⟨.malformed, some .malformed, v.wrongShape⟩)], none)
    else ([("", brokenOff (faultAt rest) true)], none)

end

/-- A document as it was read. -/
structure Document where
  root : Json
  /-- Whether something other than a gap follows the value. -/
  trailing : Bool := false
  /-- Whether there was a text to read. -/
  isText : Bool := true

namespace Document

/-- Reads a text. Each character costs at most three steps inside one another,
so the fuel does not run out. -/
def ofText (s : String) : Document :=
  let cs := s.toList
  match scanValue (3 * cs.length + 3) maxDepth cs with
  | (v, none) => { root := v }
  | (v, some rest) => { root := v, trailing := !(skipGap rest).isEmpty }

/-- A value at hand, taken as a document. -/
def ofJson (j : Json) : Document := { root := j, isText := false }

end Document

/-- The value of a text that is JSON throughout. -/
def parse? (s : String) : Option Json :=
  let d := Document.ofText s
  if d.trailing || d.root.readFault.isSome then none else some d.root

end Json

end ExportSurface
