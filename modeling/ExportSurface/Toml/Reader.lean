import ExportSurface.Text.Double
import ExportSurface.Toml.Basic
/-!
# TOML — reading

Each scanner takes the characters that are left and gives what it read with
what follows it, or nothing if the text is not TOML there. `Toml.parse?` reads
a whole text into the entries of its root table.
-/

namespace ExportSurface

namespace Toml

/-! ## Blanks, comments and line ends -/

/-- Whether a character is a blank inside a line. -/
def isBlank (c : Char) : Bool := c = ' ' || c = '\t'

/-- A text without its leading blanks. -/
def skipBlanks (cs : List Char) : List Char := cs.dropWhile isBlank

/-- Whether a character may stand in a comment. -/
def isPlain (c : Char) : Bool :=
  c = '\t' || (0x20 ≤ c.toNat && c.toNat ≠ 0x7F)

/-- What follows a line end. -/
def lineEnd? : List Char → Option (List Char)
  | '\n' :: rest => some rest
  | '\r' :: '\n' :: rest => some rest
  | _ => none

/-- A text without the comment at its start, if there is one. -/
def skipComment : List Char → List Char
  | '#' :: rest => rest.dropWhile isPlain
  | cs => cs

/-- What follows the rest of a line that holds nothing more. -/
def finishLine (cs : List Char) : Option (List Char) :=
  match skipComment (skipBlanks cs) with
  | [] => some []
  | rest => lineEnd? rest

/-- A text without leading blanks, comments and line ends. -/
def skipLines : Nat → List Char → List Char
  | 0, cs => cs
  | fuel + 1, cs =>
    let cs := skipBlanks cs
    match lineEnd? (skipComment cs) with
    | some rest => skipLines fuel rest
    | none => cs

/-! ## Strings -/

/-- The character with a code point, if it is one. -/
def charOfCode? (n : Nat) : Option Char :=
  if n.isValidChar then some (Char.ofNat n) else none

/-- The character spelled by hexadecimal digits. -/
def charOfHex? (ds : List Char) : Option Char := do
  let ns ← ds.mapM Text.hexValue?
  charOfCode? (ns.foldl (fun n d => n * 16 + d) 0)

/-- The character of a one-letter escape. -/
def simpleEscape? : Char → Option Char
  | 'b' => some '\x08'
  | 't' => some '\t'
  | 'n' => some '\n'
  | 'f' => some '\x0c'
  | 'r' => some '\r'
  | '"' => some '"'
  | '\\' => some '\\'
  | _ => none

/-- Reads an escape whose backslash has been read. -/
def escape? : List Char → Option (Char × List Char)
  | 'u' :: rest => do
    let ds := rest.take 4
    if ds.length = 4 then return (← charOfHex? ds, rest.drop 4) else none
  | 'U' :: rest => do
    let ds := rest.take 8
    if ds.length = 8 then return (← charOfHex? ds, rest.drop 8) else none
  | c :: rest => do return (← simpleEscape? c, rest)
  | [] => none

/-- Reads a string in double quotes up to its end. -/
def basicBody : Nat → List Char → List Char → Option (String × List Char)
  | 0, _, _ => none
  | _, _, [] => none
  | _, acc, '"' :: rest => some (String.ofList acc.reverse, rest)
  | fuel + 1, acc, '\\' :: rest => do
    let (c, rest) ← escape? rest
    basicBody fuel (c :: acc) rest
  | fuel + 1, acc, c :: rest => if isPlain c then basicBody fuel (c :: acc) rest else none

/-- Reads a string in single quotes up to its end. -/
def literalBody : List Char → List Char → Option (String × List Char)
  | _, [] => none
  | acc, '\'' :: rest => some (String.ofList acc.reverse, rest)
  | acc, c :: rest => if isPlain c then literalBody (c :: acc) rest else none

/-- What follows the line ends and blanks after a backslash that ends a line. -/
def continuation? (fuel : Nat) (cs : List Char) : Option (List Char) := do
  let rest ← lineEnd? (skipBlanks cs)
  return go fuel rest
where
  /-- Skips blanks and line ends. -/
  go : Nat → List Char → List Char
    | 0, cs => cs
    | fuel + 1, cs =>
      match lineEnd? (skipBlanks cs) with
      | some rest => go fuel rest
      | none => skipBlanks cs

/-- Reads a string over several lines up to its end. Up to two quotes may
stand right before the closing ones. -/
def longBody (quote : Char) (escapes : Bool) :
    Nat → List Char → List Char → Option (String × List Char)
  | 0, _, _ => none
  | _, _, [] => none
  | fuel + 1, acc, c :: rest =>
    if c = quote then
      let quotes := (c :: rest).takeWhile (· = quote)
      if quotes.length < 3 then longBody quote escapes fuel (c :: acc) rest
      else
        let extra := min (quotes.length - 3) 2
        let closed := (quotes.take extra ++ acc).reverse
        some (String.ofList closed, (c :: rest).drop (extra + 3))
    else if escapes && c = '\\' then
      match continuation? rest.length rest with
      | some rest => longBody quote escapes fuel acc rest
      | none => do
        let (c, rest) ← escape? rest
        longBody quote escapes fuel (c :: acc) rest
    else
      match lineEnd? (c :: rest) with
      | some rest => longBody quote escapes fuel ('\n' :: acc) rest
      | none => if isPlain c then longBody quote escapes fuel (c :: acc) rest else none

/-- Reads a string over several lines whose opening quotes have been read. A
line end right after them does not count. -/
def longString (quote : Char) (escapes : Bool) (cs : List Char) : Option (String × List Char) :=
  longBody quote escapes (cs.length + 1) [] ((lineEnd? cs).getD cs)

/-! ## Keys -/

/-- Whether a character may stand in a key without quotes. -/
def isKeyChar (c : Char) : Bool := c.isAlphanum || c = '-' || c = '_'

/-- Reads one segment of a key. -/
def simpleKey : List Char → Option (String × List Char)
  | '"' :: rest => basicBody (rest.length + 1) [] rest
  | '\'' :: rest => literalBody [] rest
  | cs =>
    let name := cs.takeWhile isKeyChar
    if name.isEmpty then none else some (String.ofList name, cs.dropWhile isKeyChar)

/-- Reads the segments of a dotted key, with the blanks after it. -/
def dottedKey : Nat → List Char → Option (List String × List Char)
  | 0, _ => none
  | fuel + 1, cs => do
    let (key, rest) ← simpleKey cs
    match skipBlanks rest with
    | '.' :: rest => do
      let (keys, rest) ← dottedKey fuel (skipBlanks rest)
      return (key :: keys, rest)
    | rest => return ([key], rest)

/-- Values and keys nest less deep than this. -/
def nestingLimit : Nat := 80

/-- Reads a key: the segments before the last one, and the last one. -/
def scanKey (cs : List Char) : Option ((List String × String) × List Char) := do
  let (keys, rest) ← dottedKey (cs.length + 1) (skipBlanks cs)
  if keys.length < nestingLimit then return ((keys.dropLast, keys.getLastD ""), rest) else none

/-! ## Numbers and dates -/

/-- Reads digits after a first one, single underscores between them left out. -/
def moreDigits (isDigit : Char → Bool) : List Char → Option (List Char × List Char)
  | '_' :: c :: rest =>
    if isDigit c then (moreDigits isDigit rest).map fun (ds, rest) => (c :: ds, rest) else none
  | ['_'] => none
  | c :: rest =>
    if isDigit c then (moreDigits isDigit rest).map fun (ds, rest) => (c :: ds, rest)
    else some ([], c :: rest)
  | [] => some ([], [])

/-- Reads digits, at least one. -/
def scanDigits (isDigit : Char → Bool) : List Char → Option (List Char × List Char)
  | c :: rest =>
    if isDigit c then (moreDigits isDigit rest).map fun (ds, rest) => (c :: ds, rest) else none
  | [] => none

/-- The least number above all signed words. -/
def wordLimit : Nat := Nat.pow 2 63

/-- Reads a number in another base than ten, which must fit a signed word, and
gives what follows it. -/
def scanBased (base : Nat) (isDigit : Char → Bool) (cs : List Char) : Option (List Char) := do
  let (ds, rest) ← scanDigits isDigit cs
  let n := ds.foldl (fun n d => n * base + (Text.hexValue? d).getD 0) 0
  if n < wordLimit then return rest else none

/-- Reads an optional sign: whether it is a minus. -/
def scanSign : List Char → Bool × List Char
  | '+' :: rest => (false, rest)
  | '-' :: rest => (true, rest)
  | cs => (false, cs)

/-- Reads an exponent, if there is one. -/
def scanExponent : List Char → Option (Option Int × List Char)
  | c :: rest =>
    if c = 'e' || c = 'E' then do
      let (negative, rest) := scanSign rest
      let (ds, rest) ← scanDigits Char.isDigit rest
      let n : Int := Text.decimal ds
      return (some (if negative then -n else n), rest)
    else some (none, c :: rest)
  | [] => some (none, [])

/-- Reads a number in base ten, which must fit a signed word or not exceed
the doubles, and gives what follows it. -/
def scanDecimal (cs : List Char) : Option (List Char) := do
  let (negative, body) := scanSign cs
  match body with
  | 'i' :: 'n' :: 'f' :: rest => return rest
  | 'n' :: 'a' :: 'n' :: rest => return rest
  | _ => do
    let (whole, rest) ← match body with
      | '0' :: rest => some (['0'], rest)
      | _ => scanDigits Char.isDigit body
    let (fraction, rest) ← match rest with
      | '.' :: rest => (scanDigits Char.isDigit rest).map fun (ds, rest) => (some ds, rest)
      | _ => some (none, rest)
    let (exponent, rest) ← scanExponent rest
    match fraction, exponent with
    | none, none =>
      let n := Text.decimal whole
      if n < wordLimit || (negative && n = wordLimit) then return rest else none
    | _, _ =>
      let ds := fraction.getD []
      let beyond := Text.beyondDouble (whole ++ ds) (exponent.getD 0 - ds.length)
      if beyond && !negative then none else return rest

/-- Reads a number of exactly so many digits within bounds. -/
def scanFixed (digits low high : Nat) (cs : List Char) : Option (Nat × List Char) :=
  let ds := cs.take digits
  let n := Text.decimal ds
  if ds.length = digits && ds.all Char.isDigit && low ≤ n && n ≤ high then
    some (n, cs.drop digits)
  else none

/-- Reads one given character. -/
def scanChar (c : Char) : List Char → Option (List Char)
  | d :: rest => if d = c then some rest else none
  | [] => none

/-- The days of a month. -/
def daysIn (year month : Nat) : Nat :=
  if month = 2 then
    if year % 4 = 0 && (year % 100 ≠ 0 || year % 400 = 0) then 29 else 28
  else if month = 4 || month = 6 || month = 9 || month = 11 then 30 else 31

/-- Reads a date, and gives what follows it. -/
def scanDate (cs : List Char) : Option (List Char) := do
  let (year, rest) ← scanFixed 4 0 9999 cs
  let rest ← scanChar '-' rest
  let (month, rest) ← scanFixed 2 1 12 rest
  let rest ← scanChar '-' rest
  let (_, rest) ← scanFixed 2 1 (daysIn year month) rest
  return rest

/-- Reads a time of day, and gives what follows it. -/
def scanTime (cs : List Char) : Option (List Char) := do
  let (_, rest) ← scanFixed 2 0 23 cs
  let rest ← scanChar ':' rest
  let (_, rest) ← scanFixed 2 0 59 rest
  let rest ← scanChar ':' rest
  let (_, rest) ← scanFixed 2 0 60 rest
  match rest with
  | '.' :: more =>
    if (more.takeWhile Char.isDigit).isEmpty then some rest
    else some (more.dropWhile Char.isDigit)
  | _ => some rest

/-- What follows an offset from universal time, if there is one. -/
def skipOffset (cs : List Char) : List Char :=
  match cs with
  | c :: rest =>
    if c = 'Z' || c = 'z' then rest
    else if c = '+' || c = '-' then
      let after : Option (List Char) := do
        let (_, rest) ← scanFixed 2 0 23 rest
        let rest ← scanChar ':' rest
        let (_, rest) ← scanFixed 2 0 59 rest
        return rest
      after.getD cs
    else cs
  | [] => []

/-- Reads a date, a time or both, and gives what follows. -/
def scanDateTime (cs : List Char) : Option (List Char) :=
  match scanDate cs with
  | none => scanTime cs
  | some rest =>
    match rest with
    | c :: after =>
      if c = 'T' || c = 't' || c = ' ' then
        match scanTime after with
        | some rest => some (skipOffset rest)
        | none => some rest
      else some rest
    | [] => some []

/-- Reads a number or a date. -/
def scanNumeral (cs : List Char) : Option (Toml × List Char) :=
  match scanDateTime cs with
  | some rest => some (.date, rest)
  | none =>
    let number := match cs with
      | '0' :: 'x' :: rest => scanBased 16 (fun c => (Text.hexValue? c).isSome) rest
      | '0' :: 'o' :: rest => scanBased 8 (fun c => '0' ≤ c && c ≤ '7') rest
      | '0' :: 'b' :: rest => scanBased 2 (fun c => c = '0' || c = '1') rest
      | _ => scanDecimal cs
    number.map fun rest => (.number, rest)

/-! ## Values -/

mutual

/-- Reads a value, inside so many others. -/
def scanValue (fuel depth : Nat) (cs : List Char) : Option (Toml × List Char) :=
  match fuel with
  | 0 => none
  | fuel + 1 =>
    match cs with
    | '"' :: '"' :: '"' :: rest => (longString '"' true rest).map fun (s, rest) => (.string s, rest)
    | '"' :: rest =>
      (basicBody (rest.length + 1) [] rest).map fun (s, rest) => (.string s, rest)
    | '\'' :: '\'' :: '\'' :: rest =>
      (longString '\'' false rest).map fun (s, rest) => (.string s, rest)
    | '\'' :: rest => (literalBody [] rest).map fun (s, rest) => (.string s, rest)
    | '[' :: rest =>
      if depth + 1 < nestingLimit then
        (scanItems fuel (depth + 1) rest).map fun (vs, rest) => (.array vs, rest)
      else none
    | '\x7b' :: rest =>
      if depth + 1 < nestingLimit then
        match skipBlanks rest with
        | '\x7d' :: rest => some (.table .inline [], rest)
        | rest => (scanPairs fuel (depth + 1) [] rest).map fun (es, rest) =>
            (.table .inline es, rest)
      else none
    | 't' :: 'r' :: 'u' :: 'e' :: rest => some (.boolean true, rest)
    | 'f' :: 'a' :: 'l' :: 's' :: 'e' :: rest => some (.boolean false, rest)
    | cs => scanNumeral cs

/-- Reads the items of an array up to the closing bracket. -/
def scanItems (fuel depth : Nat) (cs : List Char) : Option (List Toml × List Char) :=
  match fuel with
  | 0 => none
  | fuel + 1 =>
    match skipLines cs.length cs with
    | ']' :: rest => some ([], rest)
    | cs => do
      let (v, rest) ← scanValue fuel depth cs
      match skipLines rest.length rest with
      | ']' :: rest => return ([v], rest)
      | ',' :: rest => do
        let (vs, rest) ← scanItems fuel depth rest
        return (v :: vs, rest)
      | _ => none

/-- Reads the keys and values of an inline table up to the closing brace. -/
def scanPairs (fuel depth : Nat) (es : Entries) (cs : List Char) : Option (Entries × List Char) :=
  match fuel with
  | 0 => none
  | fuel + 1 => do
    let ((path, key), rest) ← scanKey cs
    let rest ← scanChar '=' rest
    let (v, rest) ← scanValue fuel depth (skipBlanks rest)
    let es ← assign path key v es
    match skipBlanks rest with
    | '\x7d' :: rest => return (es, rest)
    | ',' :: rest => scanPairs fuel depth es rest
    | _ => none

end

/-! ## Texts -/

/-- Reads the lines of a text, below the header read last. -/
def scanLines (fuel : Nat) (header : List String) (root : Entries) (cs : List Char) :
    Option Entries :=
  match fuel with
  | 0 => none
  | fuel + 1 =>
    match skipLines cs.length cs with
    | [] => some root
    | '#' :: rest => if (skipComment ('#' :: rest)).isEmpty then some root else none
    | '[' :: '[' :: rest => do
      let ((path, key), rest) ← scanKey rest
      let rest ← scanChar ']' rest
      let rest ← scanChar ']' rest
      let rest ← finishLine rest
      let root ← openElement path key root
      scanLines fuel (path ++ [key]) root rest
    | '[' :: rest => do
      let ((path, key), rest) ← scanKey rest
      let rest ← scanChar ']' rest
      let rest ← finishLine rest
      let root ← openTable path key root
      scanLines fuel (path ++ [key]) root rest
    | rest => do
      let ((path, key), rest) ← scanKey rest
      let rest ← scanChar '=' rest
      let (v, rest) ← scanValue (2 * rest.length + 2) 0 (skipBlanks rest)
      let rest ← finishLine rest
      let root ← assignBelow header path key v root
      scanLines fuel header root rest

/-- The root table of a text, if the text is TOML. A byte order mark at the
start does not count. -/
def parse? (s : String) : Option Entries :=
  let cs := match s.toList with
    | '\uFEFF' :: rest => rest
    | cs => cs
  scanLines (cs.length + 1) [] [] cs

end Toml

end ExportSurface
