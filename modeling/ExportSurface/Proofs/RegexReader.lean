import ExportSurface.Glob.Basic
/-!
# Regular expressions — reading and finding

Globs are written as regular expressions for an engine that reads these again.
Its syntax is given here as far as it has no flags, counted repetitions and
escapes with a meaning of their own: characters, the dot, stars, groups of
alternatives, anchors, and bracket classes with ranges, class names, nested
brackets and set operators.

An expression is read from left to right, one step after the other
(`Reading.step`), with the groups and brackets that are still open on two
stacks. What has been read is found in a text wherever it spans a part of it
(`Regex.Finds`).
-/

namespace ExportSurface

namespace Glob

/-! ## Symbols -/

/-- A character of an expression, escaped or not. -/
inductive Symbol where
  | plain (c : Char)
  | escaped (c : Char)
deriving DecidableEq, Repr, Inhabited

namespace Symbol

/-- The character itself. -/
def char : Symbol → Char
  | .plain c => c
  | .escaped c => c

/-- Whether a symbol stands for its character if nothing else gives it a meaning.
An escaped letter is a class, and a lone backslash escapes nothing. -/
def Known : Symbol → Prop
  | .plain c => c ≠ '\\'
  | .escaped c => c ∈ metacharacters

instance : DecidablePred Known
  | .plain c => inferInstanceAs (Decidable (c ≠ '\\'))
  | .escaped c => inferInstanceAs (Decidable (c ∈ metacharacters))

end Symbol

/-- The symbols of a text. -/
def symbols : List Char → List Symbol
  | [] => []
  | '\\' :: c :: cs => .escaped c :: symbols cs
  | c :: cs => .plain c :: symbols cs

/-! ## Expressions -/

/-- A regular expression. -/
inductive Regex where
  /-- One character that passes a test. -/
  | one (test : Char → Bool)
  | star (e : Regex)
  /-- One of several sequences. -/
  | group (choices : List (List Regex))
  /-- The start of the text. -/
  | start
  /-- The end of the text. -/
  | finish

/-- Why an expression cannot be read. -/
inductive RegexFault where
  | openClass
  | openGroup
  | closedGroup
  | invertedRange
  | nothingToRepeat
  /-- Syntax that is left out here. -/
  | unknown
deriving DecidableEq, Repr, Inhabited

/-! ## Brackets -/

/-- What combines the characters listed before and after it. -/
inductive SetOperator where
  | intersection
  | difference
  | symmetricDifference
deriving DecidableEq, Repr, Inhabited

/-- Whether a combination lists a character. -/
def SetOperator.apply : SetOperator → (Char → Bool) → (Char → Bool) → Char → Bool
  | .intersection, before, after, c => before c && after c
  | .difference, before, after, c => before c && !after c
  | .symmetricDifference, before, after, c => before c != after c

/-- A bracket that is still open. -/
structure Bracket where
  negated : Bool := false
  /-- What stands before the last operator, and the operator. -/
  operand : Option ((Char → Bool) × SetOperator) := none
  /-- What has been listed since. -/
  listed : Char → Bool := fun _ => false

namespace Bracket

/-- The bracket with more characters listed. -/
def list (b : Bracket) (test : Char → Bool) : Bracket :=
  { b with listed := fun c => b.listed c || test c }

/-- All characters listed, the operators applied from left to right. -/
def joined (b : Bracket) : Char → Bool :=
  match b.operand with
  | none => b.listed
  | some (before, operator) => operator.apply before b.listed

/-- The bracket with an operator after what it lists. -/
def operate (b : Bracket) (operator : SetOperator) : Bracket :=
  { b with operand := some (b.joined, operator), listed := fun _ => false }

/-- Whether the bracket, once closed, matches a character. -/
def test (b : Bracket) (c : Char) : Bool := b.negated != b.joined c

end Bracket

/-- A bracket and what follows its beginning: hyphens that list themselves, or a
closing bracket that does, for a bracket lists something. -/
def beginBracket (negated : Bool) : List Symbol → Bracket × List Symbol
  | .plain '-' :: ss => ({ negated, listed := (· == '-') }, ss.dropWhile (· = .plain '-'))
  | .plain ']' :: ss => ({ negated, listed := (· == ']') }, ss)
  | ss => ({ negated }, ss)

/-- The same with a caret before it, if there is one, that negates the bracket. -/
def openBracket : List Symbol → Bracket × List Symbol
  | .plain '^' :: ss => beginBracket true ss
  | ss => beginBracket false ss

/-- The class name, its colon and the bracket that closes it, and what follows. -/
def className? (ss : List Symbol) : Option (List CharRange × List Symbol) :=
  namedRanges.findSome? fun (name, ranges) =>
    let text := (name.toList ++ [':']).map .plain ++ [.plain ']']
    if text <+: ss then some (ranges, ss.drop text.length) else none

/-- The characters of a bracket that is a class name between colons, with a caret
all others, and what follows it. -/
def namedBracket? : List Symbol → Option ((Char → Bool) × List Symbol)
  | .plain ':' :: .plain '^' :: ss =>
    (className? ss).map fun (ranges, rest) => (fun c => !inRanges ranges c, rest)
  | .plain ':' :: ss => (className? ss).map fun (ranges, rest) => (inRanges ranges, rest)
  | _ => none

/-! ## Reading -/

/-- The choices of a group being read: those finished, the last one first, and
the one at hand, its last part first. -/
structure Choices where
  finished : List (List Regex) := []
  current : List Regex := []

namespace Choices

/-- The choices with one more part. -/
def push (cs : Choices) (e : Regex) : Choices := { cs with current := e :: cs.current }

/-- The choices with another one begun. -/
def next (cs : Choices) : Choices := { finished := cs.current.reverse :: cs.finished }

/-- All choices in order. -/
def all (cs : Choices) : List (List Regex) := (cs.current.reverse :: cs.finished).reverse

end Choices

/-- What has been read of an expression: the choices of the groups around, those
of the innermost group, and the brackets that are open in it, innermost first. -/
structure Reading where
  outer : List Choices := []
  choices : Choices := {}
  brackets : List Bracket := []

namespace Reading

/-- A character that passes a test: the innermost bracket lists it, or it is the
next to match. -/
def accept (r : Reading) (test : Char → Bool) : Reading :=
  match r.brackets with
  | [] => { r with choices := r.choices.push (.one test) }
  | b :: bs => { r with brackets := b.list test :: bs }

/-- One more bracket is open. -/
def within (r : Reading) (b : Bracket) : Reading := { r with brackets := b :: r.brackets }

/-- A bracket opens. -/
def enter (r : Reading) (ss : List Symbol) : Reading × List Symbol :=
  (r.within (openBracket ss).1, (openBracket ss).2)

/-- **A step outside brackets**: what has been read after a symbol, and what is
left of those that follow. -/
def outside (r : Reading) : Symbol → List Symbol → Except RegexFault (Reading × List Symbol)
  | .plain '.', ss => .ok (r.accept (· != '\n'), ss)
  | .plain '*', ss =>
    match r.choices.current with
    | [] => .error .nothingToRepeat
    | e :: es => .ok ({ r with choices := { r.choices with current := .star e :: es } }, ss)
  | .plain '|', ss => .ok ({ r with choices := r.choices.next }, ss)
  | .plain '(', .plain '?' :: .plain ':' :: ss =>
    .ok ({ r with outer := r.choices :: r.outer, choices := {} }, ss)
  | .plain ')', ss =>
    match r.outer with
    | [] => .error .closedGroup
    | f :: outer => .ok ({ r with outer, choices := f.push (.group r.choices.all) }, ss)
  | .plain '^', ss => .ok ({ r with choices := r.choices.push .start }, ss)
  | .plain '$', ss => .ok ({ r with choices := r.choices.push .finish }, ss)
  | .plain '[', ss => .ok (r.enter ss)
  | .plain c, ss =>
    if c ∈ ['(', '+', '?', '\x7b'] then .error .unknown else .ok (r.accept (· == c), ss)
  | .escaped c, ss => .ok (r.accept (· == c), ss)

/-- **A step inside a bracket**, with those around it. A hyphen makes a range if
neither a closing bracket nor another hyphen follows it. -/
def inside (r : Reading) (b : Bracket) (bs : List Bracket) :
    Symbol → List Symbol → Except RegexFault (Reading × List Symbol)
  | .plain '[', ss =>
    match namedBracket? ss with
    | some (test, rest) => .ok (r.accept test, rest)
    | none => .ok (r.enter ss)
  | .plain ']', ss => .ok ({ r with brackets := bs }.accept b.test, ss)
  | .plain '&', .plain '&' :: ss => .ok ({ r with brackets := b.operate .intersection :: bs }, ss)
  | .plain '-', .plain '-' :: ss => .ok ({ r with brackets := b.operate .difference :: bs }, ss)
  | .plain '~', .plain '~' :: ss =>
    .ok ({ r with brackets := b.operate .symmetricDifference :: bs }, ss)
  | low, .plain '-' :: high :: ss =>
    if high = .plain ']' ∨ high = .plain '-' then
      .ok (r.accept (· == low.char), .plain '-' :: high :: ss)
    else if low.char ≤ high.char then
      .ok (r.accept (CharRange.contains ⟨low.char, high.char⟩), ss)
    else .error .invertedRange
  | s, ss => .ok (r.accept (· == s.char), ss)

/-- A step. -/
def step (r : Reading) (s : Symbol) (ss : List Symbol) :
    Except RegexFault (Reading × List Symbol) :=
  match r.brackets with
  | [] => r.outside s ss
  | b :: bs => r.inside b bs s ss

/-- What has been read when nothing is left. -/
def result (r : Reading) : Except RegexFault (List (List Regex)) :=
  match r.brackets, r.outer with
  | [], [] => .ok r.choices.all
  | [], _ :: _ => .error .openGroup
  | _ :: _, _ => .error .openClass

end Reading

/-! ### What a step leaves -/

variable {ss rest : List Symbol}

theorem beginBracket_suffix (negated : Bool) (ss : List Symbol) :
    (beginBracket negated ss).2 <:+ ss := by
  unfold beginBracket
  split
  · exact (List.dropWhile_suffix _).trans (List.suffix_cons _ _)
  · exact List.suffix_cons _ _
  · exact List.suffix_refl _

theorem openBracket_suffix (ss : List Symbol) : (openBracket ss).2 <:+ ss := by
  unfold openBracket
  split
  · exact (beginBracket_suffix true _).trans (List.suffix_cons _ _)
  · exact beginBracket_suffix false _

theorem className?_suffix {ranges : List CharRange} (h : className? ss = some (ranges, rest)) :
    rest <:+ ss := by
  obtain ⟨⟨name, listed⟩, -, hnamed⟩ := List.exists_of_findSome?_eq_some h
  obtain ⟨-, hrest⟩ := Option.ite_none_right_eq_some.mp hnamed
  cases hrest
  exact List.drop_suffix _ _

theorem namedBracket?_suffix {test : Char → Bool} (h : namedBracket? ss = some (test, rest)) :
    rest <:+ ss := by
  unfold namedBracket? at h
  split at h
  · obtain ⟨⟨ranges, rest⟩, hname, heq⟩ := Option.map_eq_some_iff.mp h
    cases heq
    exact (className?_suffix hname).trans
      ((List.suffix_cons _ _).trans (List.suffix_cons _ _))
  · obtain ⟨⟨ranges, rest⟩, hname, heq⟩ := Option.map_eq_some_iff.mp h
    cases heq
    exact (className?_suffix hname).trans (List.suffix_cons _ _)
  · cases h

namespace Reading

variable {r r' : Reading} {s : Symbol} {b : Bracket} {bs : List Bracket}

theorem outside_suffix (h : r.outside s ss = .ok (r', rest)) : rest <:+ ss := by
  have henter (ts : List Symbol) : (r.enter ts).2 <:+ ts := openBracket_suffix ts
  unfold outside at h
  split at h
  all_goals grind [List.suffix_cons_iff]

theorem inside_suffix (h : r.inside b bs s ss = .ok (r', rest)) : rest <:+ ss := by
  have henter (ts : List Symbol) : (r.enter ts).2 <:+ ts := openBracket_suffix ts
  unfold inside at h
  split at h
  all_goals grind [List.suffix_cons_iff, → namedBracket?_suffix]

/-- **A step leaves an end of the symbols** behind the one it is made at. -/
theorem step_suffix (h : r.step s ss = .ok (r', rest)) : rest <:+ ss := by
  unfold step at h
  split at h
  · exact outside_suffix h
  · exact inside_suffix h

/-- The choices that symbols spell after what has been read. -/
def read (r : Reading) (ss : List Symbol) : Except RegexFault (List (List Regex)) :=
  match ss with
  | [] => r.result
  | s :: ss =>
    match _ : r.step s ss with
    | .error fault => .error fault
    | .ok (r', rest) => r'.read rest
termination_by ss.length
decreasing_by
  -- A step may take several symbols and takes one at least.
  have hle := (step_suffix ‹_›).length_le
  simp only [List.length_cons]
  omega

end Reading

/-- **The expression of a text.** -/
def readRegex (text : String) : Except RegexFault (List (List Regex)) :=
  let ss := symbols text.toList
  if ∀ s ∈ ss, s.Known then Reading.read {} ss else .error .unknown

/-! ## Finding -/

/-- What spans a text in pieces, one after the other, each in its place between
what comes before and after. -/
inductive Repeats (spans : List Char → List Char → List Char → Prop) :
    List Char → List Char → List Char → Prop where
  | nil {before after : List Char} : Repeats spans before [] after
  | cons {before u v after : List Char} (head : spans before u (v ++ after))
      (tail : Repeats spans (before ++ u) v after) : Repeats spans before (u ++ v) after

mutual

/-- Whether an expression spans a part of a text, between what comes before it and
after it. -/
def Regex.Spans : Regex → List Char → List Char → List Char → Prop
  | .one test, _, part, _ => ∃ c, part = [c] ∧ test c = true
  | .star e, before, part, after => Repeats e.Spans before part after
  | .group choices, before, part, after => ChoicesSpan choices before part after
  | .start, before, part, _ => before = [] ∧ part = []
  | .finish, _, part, after => part = [] ∧ after = []

/-- Whether the parts of a sequence span a part of a text one after the other. -/
def SequenceSpans : List Regex → List Char → List Char → List Char → Prop
  | [], _, part, _ => part = []
  | e :: es, before, part, after =>
    ∃ u v, part = u ++ v ∧ e.Spans before u (v ++ after) ∧ SequenceSpans es (before ++ u) v after

/-- Whether one of several sequences spans a part of a text. -/
def ChoicesSpan : List (List Regex) → List Char → List Char → List Char → Prop
  | [], _, _, _ => False
  | es :: more, before, part, after =>
    SequenceSpans es before part after ∨ ChoicesSpan more before part after

end

/-- **Whether an expression is found** somewhere in a text. -/
def Finds (choices : List (List Regex)) (text : List Char) : Prop :=
  ∃ before part after, text = before ++ part ++ after ∧ ChoicesSpan choices before part after

end Glob

end ExportSurface
