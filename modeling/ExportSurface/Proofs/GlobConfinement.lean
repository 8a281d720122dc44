import ExportSurface.Proofs.GlobAssembly
/-!
# Globs — patterns that stay within a segment

Only `**` and the separator itself can match the separator. A pattern without
either, whatever its classes list and however its groups nest, matches names of
one segment only (`isMatch_confined`).
-/

namespace ExportSurface

namespace Glob

variable {separator : Char} {L M : Language Char}

/-- Whether the separator is in no text of a language. -/
def Confined (separator : Char) (L : Language Char) : Prop := ∀ w ∈ L, separator ∉ w

namespace Confined

theorem one : Confined separator 1 := by
  intro w hw
  rw [Language.mem_one] at hw
  simp [hw]

theorem zero : Confined separator 0 := fun w hw => absurd hw (Language.notMem_zero w)

theorem mul (hL : Confined separator L) (hM : Confined separator M) :
    Confined separator (L * M) := by
  intro w hw
  obtain ⟨a, ha, b, hb, rfl⟩ := Language.mem_mul.mp hw
  rw [List.mem_append, not_or]
  exact ⟨hL a ha, hM b hb⟩

theorem add (hL : Confined separator L) (hM : Confined separator M) :
    Confined separator (L + M) := by
  intro w hw
  obtain hw | hw := (Language.mem_add L M w).mp hw
  · exact hL w hw
  · exact hM w hw

variable {test : Char → Bool}

theorem oneOf (h : test separator = false) : Confined separator (oneOf test) := by
  rintro w ⟨c, rfl, hc⟩ hmem
  obtain rfl : separator = c := by simpa using hmem
  simp [h] at hc

theorem runOf (h : test separator = false) : Confined separator (runOf test) := by
  intro w hw hmem
  have htest := mem_runOf.mp hw separator hmem
  simp [h] at htest

theorem pieces {ps : List Piece} (h : ∀ p ∈ ps, Confined separator (p.language separator)) :
    Confined separator (piecesLanguage separator ps) := by
  induction ps with
  | nil => exact one
  | cons p ps ih =>
    obtain ⟨hp, hps⟩ := List.forall_mem_cons.mp h
    exact hp.mul (ih hps)

theorem alternatives {as : List (List Piece)}
    (h : ∀ ps ∈ as, ∀ p ∈ ps, Confined separator (p.language separator)) :
    Confined separator (alternativesLanguage separator as) := by
  induction as with
  | nil => exact zero
  | cons ps as ih =>
    obtain ⟨hps, has⟩ := List.forall_mem_cons.mp h
    exact (pieces hps).add (ih has)

end Confined

/-- **Every token but `**` and the separator itself** adds a piece that does not
match the separator. A class does not, for it never matches the separator. -/
theorem Token.confined {t : Token} {p : Piece} (hrun : t ≠ .anyRun)
    (hliteral : t ≠ .literal separator) (hp : t.piece? = some p) :
    Confined separator (p.language separator) := by
  cases t with
  | literal c =>
    cases hp
    have hne : separator ≠ c := fun h => hliteral (h ▸ rfl)
    exact .oneOf (by simpa using hne)
  | run =>
    cases hp
    exact .runOf (by simp)
  | anyRun => exact absurd rfl hrun
  | one =>
    cases hp
    exact .oneOf (by simp)
  | openGroup | nextAlternative | closeGroup => cases hp
  | set negated items closed =>
    obtain ⟨k, rfl⟩ : ∃ k, p = .set k := by
      cases closed with
      | false => cases hp
      | true =>
        simp only [Token.piece?, classPiece] at hp
        cases hk : CharClass.ofItems negated items with
        | ok k => exact ⟨k, by simpa [hk, Except.toOption] using hp.symm⟩
        | error fault => cases fault <;> simp [hk, Except.toOption] at hp
    exact .oneOf (by simp)

/-- **What is assembled of such tokens** has no text that the separator divides. -/
theorem confined_of_assemble {ts : List Token} {as : List (List Piece)}
    (hassemble : assemble [] {} ts = .ok as) (hrun : .anyRun ∉ ts)
    (hliteral : .literal separator ∉ ts) :
    Confined separator (alternativesLanguage separator as) := by
  have hpieces : ∀ ps ∈ as, ∀ p ∈ ps, Confined separator (p.language separator) := by
    refine assemble_forall (fun _ has => .alternatives has) (fun t ht p hp => ?_) (by simp) .empty
      hassemble
    exact Token.confined (fun heq => hrun (heq ▸ ht)) (fun heq => hliteral (heq ▸ ht)) hp
  exact .alternatives hpieces

/-- **A pattern without `**` and without the separator outside its classes**
matches no name that the separator divides. -/
theorem isMatch_confined {engine : Engine} {pattern : String} {g : Glob}
    (h : compile engine pattern separator = .ok g)
    (hrun : .anyRun ∉ tokens pattern) (hliteral : .literal separator ∉ tokens pattern)
    {name : String} (hmatch : g.isMatch name = true) : separator ∉ name.toList := by
  obtain ⟨hassemble, -, -, -, rfl⟩ := compile_eq_ok_iff.mp h
  exact confined_of_assemble hassemble hrun hliteral _ ((isMatch_iff g name).mp hmatch)

/-- The alternatives of a pattern with two classes. One would match the separator
as a character it does not list, the other one lists it. -/
def classesSample : List (List Piece) :=
  [[.group [[.run], [.set { negated := true, listed := [.single 'b'], removed := [] }]],
    .set { negated := false, listed := [⟨'.', '9'⟩], removed := [] }]]

theorem isMatch_confined_classes :
    ∃ g, compile .byLength "\x7b*,[!b]\x7d[.-9]" '.' = .ok g ∧
      .anyRun ∉ tokens "\x7b*,[!b]\x7d[.-9]" ∧ .literal '.' ∉ tokens "\x7b*,[!b]\x7d[.-9]" ∧
      g.isMatch "x5" = true ∧ '.' ∉ "x5".toList := by
  have hcompile : compile .byLength "\x7b*,[!b]\x7d[.-9]" '.' = .ok ⟨_, '.', classesSample⟩ :=
    compile_eq_ok_iff.mpr ⟨rfl, by decide +kernel, by decide +kernel, rfl, rfl⟩
  have hrun : .anyRun ∉ tokens "\x7b*,[!b]\x7d[.-9]" := by decide +kernel
  have hliteral : .literal '.' ∉ tokens "\x7b*,[!b]\x7d[.-9]" := by decide +kernel
  have hmatch : Glob.isMatch ⟨"\x7b*,[!b]\x7d[.-9]", '.', classesSample⟩ "x5" = true := by
    decide +kernel
  exact ⟨_, hcompile, hrun, hliteral, hmatch, isMatch_confined hcompile hrun hliteral hmatch⟩

end Glob

end ExportSurface
