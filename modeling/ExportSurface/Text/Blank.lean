/-!
# Text — blank characters

Export patterns are trimmed of the characters that have the Unicode property
White_Space, which is wider than the ASCII blanks: the no-break and the
ideographic space are in it, the zero-width space and the byte order mark
are not.
-/

namespace ExportSurface

namespace Text

/-- The ranges of code points with the property White_Space. -/
def whiteSpace : List (Nat × Nat) :=
  [(0x0009, 0x000D), (0x0020, 0x0020), (0x0085, 0x0085), (0x00A0, 0x00A0), (0x1680, 0x1680),
   (0x2000, 0x200A), (0x2028, 0x2029), (0x202F, 0x202F), (0x205F, 0x205F), (0x3000, 0x3000)]

/-- Whether a character is white space. -/
def isBlank (c : Char) : Bool :=
  whiteSpace.any fun (lo, hi) => lo ≤ c.toNat && c.toNat ≤ hi

/-- A text without the blanks at its two ends. -/
def trim (cs : List Char) : List Char :=
  ((cs.dropWhile isBlank).reverse.dropWhile isBlank).reverse

/-- A text trimmed at both ends. -/
def trimmed (s : String) : String :=
  String.ofList (trim s.toList)

end Text

end ExportSurface
