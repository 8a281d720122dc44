import ExportSurface.Json.Basic
import ExportSurface.Text.Double
/-!
# JSON — reading numerals

A numeral is kept as it is spelled, and read for its range only: one that
comes out as infinite is a fault, but may be passed over.
-/

namespace ExportSurface

namespace Json

/-- A numeral that lacks a digit. At the end of the text a reader that passes
over takes the missing digit for a wrong one, and one that is set on a word
has gone no further than the numeral's first character. -/
def brokenNumeral (rest : List Char) : Json :=
  .fault ⟨faultAt rest, some .malformed, .malformed⟩

/-- The exponent part at the start of a text: its spelling, its value and
what follows, or the text after which a digit is missing. -/
def exponentPart (cs : List Char) : Except (List Char) (List Char × Int × List Char) :=
  match cs with
  | e :: rest =>
    if e = 'e' || e = 'E' then
      let (sign, rest) := match rest with
        | '+' :: r => (['+'], r)
        | '-' :: r => (['-'], r)
        | r => ([], r)
      let ds := rest.takeWhile Char.isDigit
      if ds = [] then .error rest
      else
        let n : Int := Text.decimal ds
        .ok (e :: sign ++ ds, if sign = ['-'] then -n else n, rest.dropWhile Char.isDigit)
    else .ok ([], 0, cs)
  | [] => .ok ([], 0, [])

/-- The digits after a point at the start of a text, with what follows them,
or the text after which a digit is missing. -/
def fractionPart (cs : List Char) : Except (List Char) (List Char × List Char) :=
  match cs with
  | '.' :: rest =>
    let ds := rest.takeWhile Char.isDigit
    if ds = [] then .error rest else .ok (ds, rest.dropWhile Char.isDigit)
  | _ => .ok ([], cs)

/-- Reads a numeral: a value and what follows it, if reading can go on. -/
def scanNumber (cs : List Char) : Json × Option (List Char) :=
  let (sign, body) := match cs with
    | '-' :: r => (['-'], r)
    | r => ([], r)
  let whole := body.takeWhile Char.isDigit
  let rest := body.dropWhile Char.isDigit
  if whole = [] then (brokenNumeral rest, none)
  else if whole.head? = some '0' && whole.length > 1 then
    (.fault ⟨.malformed, some .malformed, .malformed⟩, none)
  else
    match fractionPart rest with
    | .error r => (brokenNumeral r, none)
    | .ok (fraction, rest) =>
      match exponentPart rest with
      | .error r => (brokenNumeral r, none)
      | .ok (exponent, n, rest) =>
        if (Text.Scaled.ofNumeral whole fraction n).isBeyond then
          (.fault ⟨.malformed, none, .malformed⟩, some rest)
        else
          let point := if fraction = [] then [] else '.' :: fraction
          (.number (String.ofList (sign ++ whole ++ point ++ exponent)), some rest)

end Json

end ExportSurface
