import ExportSurface.Proofs.GlobAssembly
import ExportSurface.Proofs.GlobRegex
/-!
# Globs — what a pattern without classes means

The grammar, the pieces, the marks and the regular expression together: a
pattern without classes compiles just if it nests no deeper than a regular
expression may and the engine takes it, and then it matches what its elements
stand for.
-/

namespace ExportSurface

namespace Glob

/-- Whether the elements nest no deeper than a regular expression may. -/
def NestsWithinLimit (es : List Element) : Prop := WithinDepth [elementsPieces es]

instance (es : List Element) : Decidable (NestsWithinLimit es) :=
  inferInstanceAs (Decidable (WithinDepth _))

variable {pattern : String} {es : List Element}

/-- **A pattern without classes can fail in two ways only.** -/
theorem compile_of_spells (h : Spells false pattern.toList es) (engine : Engine)
    (separator : Char) :
    compile engine pattern separator =
      if NestsWithinLimit es then
        if engine.Takes pattern separator then
          .ok { pattern, separator, alternatives := [elementsPieces es] }
        else .error { pattern, fault := .tooLarge }
      else .error { pattern, fault := .tooDeep } :=
  compile_of_assemble (assemble_of_spells h)

/-- **A name matches just if it is one the elements stand for.** -/
theorem isMatch_elementsPieces (separator : Char) (name : String) (h : '\n' ∉ name.toList) :
    Glob.isMatch { pattern, separator, alternatives := [elementsPieces es] } name = true ↔
      name.toList ∈ elementsLanguage separator es := by
  rw [isMatch_iff, ← mem_elementsLanguage h]
  simp only [alternativesLanguage, add_zero]

/-- **The meaning of a pattern without classes.** If it nests within the limit
and the engine takes it, it compiles and matches the names its elements stand
for; beyond the limit it is refused as too deep, and as too large if only the
engine refuses it. Its regular expression stands for the same names. -/
theorem meaning_of_spells (h : Spells false pattern.toList es) (engine : Engine)
    (separator : Char) :
    (NestsWithinLimit es → engine.Takes pattern separator →
      ∃ g, compile engine pattern separator = .ok g ∧ ∀ name : String, '\n' ∉ name.toList →
        (g.isMatch name = true ↔ name.toList ∈ elementsLanguage separator es)) ∧
    (¬ NestsWithinLimit es →
      compile engine pattern separator = .error { pattern, fault := .tooDeep }) ∧
    (NestsWithinLimit es → ¬ engine.Takes pattern separator →
      compile engine pattern separator = .error { pattern, fault := .tooLarge }) ∧
    ∃ L, RegexWhole (regexText pattern separator).toList L ∧ ∀ name : List Char, '\n' ∉ name →
      (name ∈ L ↔ name ∈ elementsLanguage separator es) := by
  have hcompile := compile_of_spells h engine separator
  refine ⟨fun hnests htakes => ?_, fun hnests => ?_, fun hnests htakes => ?_, ?_⟩
  · rw [if_pos hnests, if_pos htakes] at hcompile
    exact ⟨_, hcompile, fun name hname => isMatch_elementsPieces separator name hname⟩
  · rw [hcompile, if_neg hnests]
  · rw [hcompile, if_pos hnests, if_neg htakes]
  · exact ⟨_, regexText_reads h separator, fun name hname => mem_elementsLanguage hname⟩

/-- A group of two alternatives, one with an escaped brace, and a star. -/
def sampleElements : List Element :=
  [.group [.literal 'a'] [[.one, .literal '\x7d']], .run]

theorem meaning_of_sample :
    Spells false "\x7ba,?\\\x7d\x7d*".toList sampleElements ∧
      ∃ g, compile .byLength "\x7ba,?\\\x7d\x7d*" '.' = .ok g ∧
        (g.isMatch "b\x7dcd" = true ↔ "b\x7dcd".toList ∈ elementsLanguage '.' sampleElements) := by
  have hbody : SpellsGroup (['a'] ++ ',' :: ['?', '\\', '\x7d']) [.literal 'a']
      [[.one, .literal '\x7d']] :=
    .cons (.literal (by decide) .nil) (.last (.one (.escaped .nil)))
  have hspells : Spells false "\x7ba,?\\\x7d\x7d*".toList sampleElements :=
    Spells.group hbody (.run (by decide) .nil)
  obtain ⟨g, hg, hmatch⟩ :=
    (meaning_of_spells hspells .byLength '.').1 (by decide) (by decide +kernel)
  exact ⟨hspells, g, hg, hmatch _ (by decide)⟩

/-! ## Patterns that are too large -/

/-- A pattern of question marks. -/
def questionMarks (n : Nat) : String := String.ofList (List.replicate n '?')

theorem spells_questionMarks (n : Nat) :
    Spells false (questionMarks n).toList (List.replicate n .one) := by
  rw [questionMarks, String.toList_ofList]
  induction n with
  | zero => exact .nil
  | succ n ih => exact .one ih

theorem elementsPieces_replicate_one (n : Nat) :
    elementsPieces (List.replicate n .one) = List.replicate n .one := by
  induction n with
  | zero => rfl
  | succ n ih => simp only [List.replicate_succ, elementsPieces, Element.piece, ih]

theorem nestsWithinLimit_replicate_one (n : Nat) :
    NestsWithinLimit (List.replicate n .one) := by
  have hdepth : piecesDepth (List.replicate n .one) ≤ 1 := by
    induction n with
    | zero => exact Nat.zero_le 1
    | succ n ih => exact Nat.max_le.mpr ⟨Nat.le_refl 1, ih⟩
  simp only [NestsWithinLimit, WithinDepth, elementsPieces_replicate_one, alternativesDepth,
    depthLimit]
  split <;> omega

theorem elementsTokens_replicate_one (n : Nat) :
    elementsTokens (List.replicate n .one) = List.replicate n .one := by
  induction n with
  | zero => rfl
  | succ n ih =>
    rw [List.replicate_succ, elementsTokens, ih]
    rfl

/-- How long a pattern of question marks is as a regular expression. -/
theorem length_regexText_questionMarks (n : Nat) (separator : Char) :
    (regexText (questionMarks n) separator).length
      = n * (notSeparator separator).length + 6 := by
  have htokens : tokens (questionMarks n) = List.replicate n .one := by
    rw [tokens_of_spells (spells_questionMarks n), elementsTokens_replicate_one]
  have hjoin : (String.join (List.replicate n (notSeparator separator))).length
      = n * (notSeparator separator).length := by
    simp [← String.length_toList]
  have hstart : "^(?:".length = 4 := by decide
  have hfinish : ")$".length = 2 := by decide
  simp only [regexText, htokens, List.map_replicate, Token.regexText, String.length_append, hjoin,
    hstart, hfinish]
  omega

/-- **A pattern can be too large without nesting at all.** -/
theorem compile_tooLarge :
    Spells false (questionMarks 100000).toList (List.replicate 100000 .one) ∧
      NestsWithinLimit (List.replicate 100000 .one) ∧
      compile .byLength (questionMarks 100000) '.'
        = .error { pattern := questionMarks 100000, fault := .tooLarge } := by
  have hspells := spells_questionMarks 100000
  have hnests := nestsWithinLimit_replicate_one 100000
  have hrefused : ¬ Engine.byLength.Takes (questionMarks 100000) '.' := by
    have hone : (notSeparator '.').length = 5 := by decide
    simp [Engine.Takes, Engine.byLength, length_regexText_questionMarks, hone]
  refine ⟨hspells, hnests, ?_⟩
  rw [compile_of_spells hspells, if_pos hnests, if_neg hrefused]

end Glob

end ExportSurface
