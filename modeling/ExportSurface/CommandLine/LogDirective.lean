import ExportSurface.CommandLine.LogLevel
import ExportSurface.Text.Blank
import ExportSurface.Text.Split
/-!
# Log directives

A directive says from which level on messages are shown, of the whole program
or of a part of it. It is written `level`, `target` or `target=level`, and with
a span `target[name]=level` or `target[name{field=value}]=level`, where
the target, the name and the value may be left out and the level too. What is
no level's name is taken for a target, all of whose messages are shown.
-/

namespace ExportSurface

/-- A rule about which messages are shown. -/
structure LogDirective where
  /-- How the target begins, if not all targets are meant. -/
  target : Option String := none
  /-- The name of the span in which messages are meant. -/
  span : Option String := none
  /-- A field that has to be there, with the value it has to have, if any. -/
  field : Option (String × Option String) := none
  level : LogLevel := .trace
deriving DecidableEq, Repr, Inhabited

namespace LogDirective

/-! ## Reading

Blanks around a directive are skipped to find its parts. The parts are then
cut out of the text with its blanks, so that blanks in front shift them all
and blanks at the end belong to the level. -/

/-- The characters of a text from one place up to another. -/
def cut (text : List Char) (start stop : Nat) : String :=
  String.ofList ((text.take stop).drop start)

/-- The level at the end of a text, `trace` if nothing is left for it. -/
def levelFrom? (text : List Char) (start : Nat) : Option LogLevel :=
  match text.drop start with
  | [] => some .trace
  | name => LogLevel.ofName? (String.ofList name)

/-- The directive of a text without brackets and equals signs. -/
def ofWord (word : String) : LogDirective :=
  match LogLevel.ofName? word with
  | some level => { level }
  | none => { target := some word }

/-- The name of a field, and its value if it has one. -/
def fieldOf (text : List Char) : String × Option String :=
  match Text.pieces '=' text with
  | name :: value :: _ => (String.ofList name, some (String.ofList value))
  | _ => (String.ofList text, none)

/-- Reads what follows the span: nothing, or a level. -/
def readLevel (text : List Char) (d : LogDirective) (place : Nat) :
    List Char → Option LogDirective
  | [] => some d
  | '=' :: _ => (levelFrom? text (place + 1)).map fun level => { d with level }
  | _ => none

/-- Reads a span whose opening bracket has been read. -/
def readSpan (text : List Char) (target : Option String) (start : Nat) (rest : List Char) :
    Option LogDirective :=
  let isEnd (c : Char) : Bool := c = ']' || c = '\x7b'
  let stop := start + (rest.takeWhile (!isEnd ·)).length
  let name := cut text start stop
  match rest.dropWhile (!isEnd ·) with
  | ']' :: rest => readLevel text { target, span := some name } (stop + 1) rest
  | _ :: rest =>
    let fieldStop := stop + 1 + (rest.takeWhile (· ≠ '\x7d')).length
    let field := cut text (stop + 1) fieldStop
    let d : LogDirective :=
      { target, span := if name = "" then none else some name
        field := some (fieldOf field.toList) }
    match rest.dropWhile (· ≠ '\x7d') with
    | '\x7d' :: ']' :: rest =>
      if field = "" then none else readLevel text d (fieldStop + 2) rest
    | _ => none
  | [] => none

/-- Whether a directive may start with a character. Beyond ASCII all
characters but blanks are taken for letters. -/
def mayStart (c : Char) : Bool :=
  c.isAlphanum || c = '-' || c = ':' || c = '_' || c.toNat ≥ 0x80

/-- The directive that a text is. -/
def parse? (text : List Char) : Option LogDirective :=
  let isEnd (c : Char) : Bool := c = '=' || c = '['
  match Text.trim text with
  | [] => none
  | '[' :: rest => readSpan text none 1 rest
  | c :: rest =>
    if !mayStart c then none
    else
      let stop := ((c :: rest).takeWhile (!isEnd ·)).length
      match (c :: rest).dropWhile (!isEnd ·) with
      | [] => some (ofWord (String.ofList text))
      | '[' :: rest => readSpan text (some (cut text 0 stop)) (stop + 1) rest
      | _ :: _ =>
        (levelFrom? text (stop + 1)).map fun level => { target := some (cut text 0 stop), level }

end LogDirective

end ExportSurface
