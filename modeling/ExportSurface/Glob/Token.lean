/-!
# Globs — tokens

A glob is read into tokens from left to right. Outside classes `*`, `**` and
`?` are wildcards, `[` opens a class and braces enclose alternatives; a
closing brace or a comma stands for itself unless a group is open. Inside a
class only the hyphen and the closing bracket keep a meaning, and a `!` or `^`
right at its start negates it. A backslash makes the next character stand
for itself, in a class and outside, and stands for itself at the very end.

`Glob.regexText` spells the tokens as a regular expression over whole names.
A class or group that was left open stays open in it.
-/

namespace ExportSurface

namespace Glob

/-- What stands in a class. -/
inductive ClassItem where
  /-- A character that stands for itself. -/
  | char (c : Char)
  /-- A hyphen that was not escaped. -/
  | hyphen
deriving DecidableEq, Repr, Inhabited

/-- A token of a glob. -/
inductive Token where
  | literal (c : Char)
  /-- `*`, any run of characters but the separator. -/
  | run
  /-- `**`, any run of characters. -/
  | anyRun
  /-- `?`, one character but the separator. -/
  | one
  | openGroup
  | nextAlternative
  | closeGroup
  /-- A class, which may have been left open. -/
  | set (negated : Bool) (items : List ClassItem) (closed : Bool)
deriving DecidableEq, Repr, Inhabited

/-- Where the reader of a glob is. -/
inductive Place where
  /-- Outside classes, inside so many groups. -/
  | outside (groups : Nat)
  /-- Inside a class that holds the items so far. -/
  | inside (groups : Nat) (negated : Bool) (items : List ClassItem)

/-- The tokens of the rest of a glob. -/
def scan : Place → List Char → List Token
  | .outside _, [] => []
  | .outside _, ['\\'] => [.literal '\\']
  | .outside n, '\\' :: c :: cs => .literal c :: scan (.outside n) cs
  | .outside n, '*' :: '*' :: cs => .anyRun :: scan (.outside n) cs
  | .outside n, '*' :: cs => .run :: scan (.outside n) cs
  | .outside n, '?' :: cs => .one :: scan (.outside n) cs
  | .outside n, '[' :: '!' :: cs => scan (.inside n true []) cs
  | .outside n, '[' :: '^' :: cs => scan (.inside n true []) cs
  | .outside n, '[' :: cs => scan (.inside n false []) cs
  | .outside n, '\x7b' :: cs => .openGroup :: scan (.outside (n + 1)) cs
  | .outside (n + 1), '\x7d' :: cs => .closeGroup :: scan (.outside n) cs
  | .outside (n + 1), ',' :: cs => .nextAlternative :: scan (.outside (n + 1)) cs
  | .outside n, c :: cs => .literal c :: scan (.outside n) cs
  | .inside _ negated items, [] => [.set negated items false]
  | .inside _ negated items, ['\\'] => [.set negated (items ++ [.char '\\']) false]
  | .inside n negated items, '\\' :: c :: cs =>
    scan (.inside n negated (items ++ [.char c])) cs
  | .inside n negated items, ']' :: cs => .set negated items true :: scan (.outside n) cs
  | .inside n negated items, '-' :: cs => scan (.inside n negated (items ++ [.hyphen])) cs
  | .inside n negated items, c :: cs => scan (.inside n negated (items ++ [.char c])) cs

/-- Inside a class every character but three is an item that stands for itself. -/
theorem scan_inside_plain {n : Nat} {negated : Bool} {items : List ClassItem} {c : Char}
    {cs : List Char} (hc : c ∉ ['\\', ']', '-']) :
    scan (.inside n negated items) (c :: cs)
      = scan (.inside n negated (items ++ [.char c])) cs := by
  simp only [List.mem_cons, List.not_mem_nil, or_false, not_or] at hc
  rw [scan] <;> simp [hc]

/-- The tokens of a glob. -/
def tokens (pattern : String) : List Token :=
  scan (.outside 0) pattern.toList

/-! ## The regular expression -/

/-- The characters that a regular expression gives a meaning. -/
def metacharacters : List Char :=
  ['\\', '.', '+', '*', '?', '(', ')', '|', '[', ']', '\x7b', '\x7d', '^', '$', '#', '&', '-', '~']

/-- A character as a regular expression that matches it alone. -/
def escaped (c : Char) : String :=
  if metacharacters.contains c then String.ofList ['\\', c] else c.toString

/-- Any character but the separator, as a regular expression. -/
def notSeparator (separator : Char) : String := "[^" ++ escaped separator ++ "]"

/-- A class item inside a regular expression. -/
def ClassItem.regexText : ClassItem → String
  | .char c => escaped c
  | .hyphen => "-"

/-- A token as a part of a regular expression. The items of a class have
brackets of their own, so that a negation applies to them only and not to
the intersection with all but the separator. -/
def Token.regexText (separator : Char) : Token → String
  | .literal c => escaped c
  | .run => notSeparator separator ++ "*"
  | .anyRun => ".*"
  | .one => notSeparator separator
  | .openGroup => "(?:"
  | .nextAlternative => "|"
  | .closeGroup => ")"
  | .set negated items closed =>
    "[[" ++ (if negated then "^" else "") ++ String.join (items.map ClassItem.regexText)
      ++ (if closed then "]&&" ++ notSeparator separator ++ "]" else "")

/-- A glob as a regular expression over whole names. -/
def regexText (pattern : String) (separator : Char) : String :=
  "^(?:" ++ String.join ((tokens pattern).map (Token.regexText separator)) ++ ")$"

end Glob

end ExportSurface
