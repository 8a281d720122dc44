import ExportSurface.Proofs.GlobSyntax
/-!
# Globs — the regular expression of a pattern

`Glob.regexText` spells a pattern for a reader of regular expressions. That
reader's syntax is given here as far as patterns without classes need it:
characters, plain or escaped, the dot, all characters but one, stars,
concatenation, alternation and groups. By that syntax the expression of a
pattern stands for the language of its pieces (`regexText_reads`), whatever
the separator is and whichever characters of either have a meaning of their
own there.
-/

namespace ExportSurface

namespace Glob

/-! ## Regular expressions -/

/-- A character, escaped if and only if it has a meaning of its own. -/
inductive RegexChar : List Char → Char → Prop where
  | plain {c : Char} (hc : c ∉ metacharacters) : RegexChar [c] c
  | escaped {c : Char} (hc : c ∈ metacharacters) : RegexChar ['\\', c] c

mutual

/-- **The syntax of regular expressions and what they stand for**: what can be
repeated. -/
inductive RegexAtom : List Char → Language Char → Prop where
  | char {t : List Char} {c : Char} (h : RegexChar t c) : RegexAtom t (oneOf (· == c))
  /-- The dot is any character but a line feed. -/
  | dot : RegexAtom ['.'] (oneOf (· != '\n'))
  /-- All characters but one. -/
  | except {t : List Char} {c : Char} (h : RegexChar t c) :
      RegexAtom ('[' :: '^' :: t ++ [']']) (oneOf (· != c))
  | group {t : List Char} {L : Language Char} (h : RegexChoice t L) :
      RegexAtom ('(' :: '?' :: ':' :: t ++ [')']) L

/-- One after the other. A star binds to what stands right before it. -/
inductive RegexSequence : List Char → Language Char → Prop where
  | nil : RegexSequence [] 1
  | cons {t u : List Char} {L M : Language Char} (head : RegexAtom t L)
      (tail : RegexSequence u M) : RegexSequence (t ++ u) (L * M)
  | star {t u : List Char} {L M : Language Char} (head : RegexAtom t L)
      (tail : RegexSequence u M) : RegexSequence (t ++ '*' :: u) (KStar.kstar L * M)

/-- One of several, which binds weakest. -/
inductive RegexChoice : List Char → Language Char → Prop where
  | last {t : List Char} {L : Language Char} (only : RegexSequence t L) : RegexChoice t L
  | cons {t u : List Char} {L M : Language Char} (head : RegexSequence t L)
      (tail : RegexChoice u M) : RegexChoice (t ++ '|' :: u) (L + M)

end

/-- Whether a text is an expression over whole names that stands for the
language. -/
def RegexWhole (text : List Char) (L : Language Char) : Prop :=
  ∃ t, text = '^' :: t ++ ['$'] ∧ RegexSequence t L

/-! ## Spelling -/

variable {separator : Char}

theorem regexChar_escaped (c : Char) : RegexChar (escaped c).toList c := by
  unfold escaped
  by_cases hc : c ∈ metacharacters
  · simpa [hc] using RegexChar.escaped hc
  · simpa [hc] using RegexChar.plain hc

theorem regexAtom_notSeparator (separator : Char) :
    RegexAtom (notSeparator separator).toList (oneOf (· != separator)) := by
  simpa [notSeparator] using RegexAtom.except (regexChar_escaped separator)

/-- A run is a star over one character. -/
theorem runOf_eq_kstar (test : Char → Bool) : runOf test = KStar.kstar (oneOf test) := by
  ext w
  rw [Language.mem_kstar, mem_runOf]
  constructor
  · intro h
    refine ⟨w.map fun c => [c], ?_, fun y hy => ?_⟩
    · rw [← List.flatMap_def, List.flatMap_singleton']
    · obtain ⟨c, hc, rfl⟩ := List.mem_map.mp hy
      exact ⟨c, rfl, h c hc⟩
  · rintro ⟨ws, rfl, h⟩ c hc
    obtain ⟨y, hy, hcy⟩ := List.mem_flatten.mp hc
    obtain ⟨d, rfl, hd⟩ := h y hy
    obtain rfl : c = d := by simpa using hcy
    exact hd

/-- The tokens spelled one after the other. -/
def tokensText (separator : Char) (ts : List Token) : List Char :=
  ts.flatMap fun t => (t.regexText separator).toList

mutual

/-- What an element is spelled as stands for its piece's language. -/
theorem Element.regexSequence : ∀ (e : Element) {u : List Char} {M : Language Char},
    RegexSequence u M →
    RegexSequence (tokensText separator e.tokens ++ u) (e.piece.language separator * M)
  | .literal c, u, M, h => by
    simpa [Element.tokens, tokensText, Token.regexText, Element.piece, Piece.language] using
      RegexSequence.cons (.char (regexChar_escaped c)) h
  | .run, u, M, h => by
    simpa [Element.tokens, tokensText, Token.regexText, Element.piece, Piece.language,
      runOf_eq_kstar] using RegexSequence.star (regexAtom_notSeparator separator) h
  | .anyRun, u, M, h => by
    simpa [Element.tokens, tokensText, Token.regexText, Element.piece, Piece.language,
      runOf_eq_kstar] using RegexSequence.star .dot h
  | .one, u, M, h => by
    simpa [Element.tokens, tokensText, Token.regexText, Element.piece, Piece.language] using
      RegexSequence.cons (regexAtom_notSeparator separator) h
  | .group first more, u, M, h => by
    have hchoice := regexChoice_choicesTokens more (regexSequence_elementsTokens first)
    have hgroup := RegexSequence.cons (.group hchoice) h
    simpa [Element.tokens, tokensText, Token.regexText, Element.piece, Piece.language,
      alternativesLanguage] using hgroup

/-- What a sequence is spelled as stands for its pieces' language. -/
theorem regexSequence_elementsTokens : ∀ es : List Element,
    RegexSequence (tokensText separator (elementsTokens es))
      (piecesLanguage separator (elementsPieces es))
  | [] => .nil
  | e :: es => by
    have h := e.regexSequence (regexSequence_elementsTokens es)
    simpa [elementsTokens, tokensText, elementsPieces, piecesLanguage] using h

/-- What further alternatives are spelled as joins them to the first. -/
theorem regexChoice_choicesTokens : ∀ (more : List (List Element)) {t : List Char}
    {L : Language Char}, RegexSequence t L →
    RegexChoice (t ++ tokensText separator (choicesTokens more))
      (L + alternativesLanguage separator (choicesPieces more))
  | [], t, L, h => by
    simpa [choicesTokens, tokensText, choicesPieces, alternativesLanguage] using RegexChoice.last h
  | es :: more, t, L, h => by
    have htail := regexChoice_choicesTokens more (regexSequence_elementsTokens es)
    simpa [choicesTokens, tokensText, Token.regexText, choicesPieces, alternativesLanguage] using
      RegexChoice.cons h htail

end

/-- **The regular expression of a pattern stands for the language of its
pieces.** -/
theorem regexText_reads {pattern : String} {es : List Element}
    (h : Spells false pattern.toList es) (separator : Char) :
    RegexWhole (regexText pattern separator).toList
      (piecesLanguage separator (elementsPieces es)) := by
  have hsequence : RegexSequence (tokensText separator (elementsTokens es)) _ :=
    regexSequence_elementsTokens es
  have hgroup := RegexAtom.group (.last hsequence)
  have hwhole := RegexSequence.cons hgroup .nil
  rw [mul_one] at hwhole
  refine ⟨_, ?_, hwhole⟩
  simp [regexText, tokens_of_spells h, tokensText, List.flatMap_map]

end Glob

end ExportSurface
