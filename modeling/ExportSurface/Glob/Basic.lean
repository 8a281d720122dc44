import ExportSurface.Glob.CharClass
/-!
# Globs — compiling and matching

A glob is compiled from its tokens into alternatives, sequences of pieces
that may be groups of alternatives again. It fails to compile if a class or a
group was left open, if a class cannot be read, if it nests too deep as a
regular expression, or if the engine finds that too large.

A name is matched as a whole. The matcher keeps one mark for each position
of the name, at first on the start only, and every piece moves the marks to
where it can end; the name matches if its end is marked.
-/

namespace ExportSurface

namespace Glob

/-- A piece of a glob. -/
inductive Piece where
  | literal (c : Char)
  | run
  | anyRun
  | one
  | set (k : CharClass)
  | group (alternatives : List (List Piece))

instance : Inhabited Piece := ⟨.run⟩

/-- Why a glob fails to compile. -/
inductive Fault where
  | openClass
  | openGroup
  | invertedRange
  | tooDeep
  | tooLarge
deriving DecidableEq, Repr, Inhabited

/-! ## Compiling -/

/-- The alternatives of a group being read: those finished, the last one
first, and the pieces of the one at hand, the last one first. -/
structure Frame where
  finished : List (List Piece) := []
  current : List Piece := []

namespace Frame

/-- The group with one more piece. -/
def push (f : Frame) (p : Piece) : Frame := { f with current := p :: f.current }

/-- The group with another alternative begun. -/
def next (f : Frame) : Frame := { finished := f.current.reverse :: f.finished }

/-- All alternatives in order. -/
def alternatives (f : Frame) : List (List Piece) := (f.current.reverse :: f.finished).reverse

end Frame

/-- The piece of a class that was closed. -/
def classPiece (negated : Bool) (items : List ClassItem) : Except Fault Piece :=
  match CharClass.ofItems negated items with
  | .ok k => .ok (.set k)
  | .error .empty => .error .openClass
  | .error .invertedRange => .error .invertedRange

/-- The alternatives that tokens spell, inside groups that are still open. -/
def assemble (outer : List Frame) (frame : Frame) : List Token → Except Fault (List (List Piece))
  | [] =>
    match outer with
    | [] => .ok frame.alternatives
    | _ :: _ => .error .openGroup
  | .literal c :: ts => assemble outer (frame.push (.literal c)) ts
  | .run :: ts => assemble outer (frame.push .run) ts
  | .anyRun :: ts => assemble outer (frame.push .anyRun) ts
  | .one :: ts => assemble outer (frame.push .one) ts
  | .openGroup :: ts => assemble (frame :: outer) {} ts
  | .nextAlternative :: ts => assemble outer frame.next ts
  | .closeGroup :: ts =>
    match outer with
    | [] => .error .openGroup
    | f :: outer => assemble outer (f.push (.group frame.alternatives)) ts
  | .set _ _ false :: _ => .error .openClass
  | .set negated items true :: ts =>
    match classPiece negated items with
    | .error fault => .error fault
    | .ok p => assemble outer (frame.push p) ts

mutual

/-- How deep a piece nests as a regular expression. -/
def Piece.depth : Piece → Nat
  | .literal _ => 0
  | .run => 2
  | .anyRun => 1
  | .one => 1
  | .set k => k.depth
  | .group alternatives => alternativesDepth alternatives + 1

/-- The greatest depth in a sequence. -/
def piecesDepth : List Piece → Nat
  | [] => 0
  | p :: ps => max p.depth (piecesDepth ps)

/-- The greatest depth in several sequences, a sequence of two or more pieces
nesting one deeper than its pieces. -/
def sequencesDepth : List (List Piece) → Nat
  | [] => 0
  | ps :: more => max (piecesDepth ps + (if ps.length > 1 then 1 else 0)) (sequencesDepth more)

/-- How deep alternatives nest, two or more of them one deeper than each. -/
def alternativesDepth : List (List Piece) → Nat
  | [] => 0
  | [ps] => piecesDepth ps + (if ps.length > 1 then 1 else 0)
  | ps :: qs :: more =>
    max (piecesDepth ps + (if ps.length > 1 then 1 else 0))
      (max (piecesDepth qs + (if qs.length > 1 then 1 else 0)) (sequencesDepth more)) + 1

end

/-- The greatest depth of a regular expression. -/
def depthLimit : Nat := 250

/-! ### The engine

What compiles and runs regular expressions is not part of this library. All that
is asked of it is which of them it refuses for their size, and nothing is assumed
of how it reckons that. -/

/-- An engine for regular expressions. -/
structure Engine where
  /-- Whether a regular expression is refused for the size it has once compiled. -/
  tooLarge : String → Bool

namespace Engine

/-- Whether an engine takes a pattern, spelled as a regular expression, as far as
its size goes. -/
def Takes (engine : Engine) (pattern : String) (separator : Char) : Prop :=
  engine.tooLarge (regexText pattern separator) = false

instance (engine : Engine) (pattern : String) (separator : Char) :
    Decidable (engine.Takes pattern separator) :=
  inferInstanceAs (Decidable (_ = _))

/-- A stand-in for an engine, which judges regular expressions by how long they
are. -/
def byLength : Engine where
  tooLarge text := 500000 < text.length

end Engine

end Glob

/-- A compiled glob. -/
structure Glob where
  pattern : String
  separator : Char
  alternatives : List (List Glob.Piece)
deriving Inhabited

/-- A glob that does not compile, and why. -/
structure GlobError where
  pattern : String
  fault : Glob.Fault
deriving DecidableEq, Repr, Inhabited

namespace GlobError

/-- What is said of every glob that does not compile. -/
def heading (e : GlobError) : String :=
  "invalid glob pattern '" ++ e.pattern ++ "': "

/-- What is said about why. -/
def cause (e : GlobError) : String :=
  match e.fault with
  | .openClass => "regex parse error: unclosed character class"
  | .openGroup => "regex parse error: unclosed group"
  | .invertedRange => "regex parse error: invalid character class range"
  | .tooDeep => "regex parse error: exceeded the maximum nesting depth"
  | .tooLarge => "Compiled regex exceeds size limit of 10485760 bytes."

/-- The wording of the error. -/
def message (e : GlobError) : String := e.heading ++ e.cause

end GlobError

namespace Glob

/-- The glob of a pattern over names whose segments the separator joins. The
alternatives stand in a group between two anchors, two levels deep. -/
def compile (engine : Engine) (pattern : String) (separator : Char) : Except GlobError Glob :=
  match assemble [] {} (tokens pattern) with
  | .error fault => .error { pattern, fault }
  | .ok alternatives =>
    if alternativesDepth alternatives + 2 > depthLimit then .error { pattern, fault := .tooDeep }
    else if engine.tooLarge (regexText pattern separator) then
      .error { pattern, fault := .tooLarge }
    else .ok { pattern, separator, alternatives }

/-! ## Matching -/

/-- The marks after one more character that passes the test. There is one
more mark than there are characters, and the first moves to no position. -/
def shift (test : Char → Bool) : List Char → List Bool → List Bool
  | c :: cs, m :: ms => (m && test c) :: shift test cs ms
  | _, _ => []

/-- The marks after exactly one character that passes the test. -/
def afterOne (test : Char → Bool) (name : List Char) (marks : List Bool) : List Bool :=
  false :: shift test name marks

/-- The marks after any number of characters that pass the test; `carried`
tells whether one of them has been brought along to the first position. -/
def afterRun (test : Char → Bool) (carried : Bool) : List Char → List Bool → List Bool
  | c :: cs, m :: ms => (carried || m) :: afterRun test ((carried || m) && test c) cs ms
  | [], m :: _ => [carried || m]
  | _, [] => []

/-- The marks of either of two lists. -/
def eitherMarks (ms ns : List Bool) : List Bool := List.zipWith (· || ·) ms ns

mutual

/-- The marks after a piece. -/
def Piece.after (separator : Char) (name : List Char) : Piece → List Bool → List Bool
  | .literal c, ms => afterOne (· == c) name ms
  | .run, ms => afterRun (· != separator) false name ms
  | .anyRun, ms => afterRun (· != '\n') false name ms
  | .one, ms => afterOne (· != separator) name ms
  | .set k, ms => afterOne (fun c => k.contains c && c != separator) name ms
  | .group alternatives, ms => afterEither separator name alternatives ms

/-- The marks after a sequence of pieces. -/
def afterAll (separator : Char) (name : List Char) : List Piece → List Bool → List Bool
  | [], ms => ms
  | p :: ps, ms => afterAll separator name ps (p.after separator name ms)

/-- The marks after one of several sequences. -/
def afterEither (separator : Char) (name : List Char) :
    List (List Piece) → List Bool → List Bool
  | [], ms => ms.map fun _ => false
  | ps :: more, ms =>
    eitherMarks (afterAll separator name ps ms) (afterEither separator name more ms)

end

/-- The marks before the first piece. -/
def startMarks (name : List Char) : List Bool := true :: name.map fun _ => false

/-- Whether the whole of a name matches. -/
def isMatch (g : Glob) (name : String) : Bool :=
  let cs := name.toList
  (afterEither g.separator cs g.alternatives (startMarks cs)).getLastD false

/-- The names that match, in order. -/
def select (g : Glob) (names : List String) : List String := names.filter g.isMatch

end Glob

end ExportSurface
