/-!
# Text — pieces between separators

Qualified names are cut at dots and pattern lists at colons. A text always
has at least one piece, and gluing the pieces with the separator gives the
text back (`glue_pieces`), so no piece holds the separator.
-/

namespace ExportSurface

namespace Text

/-- The pieces of a text between occurrences of `sep`, empty pieces kept. -/
def pieces (sep : Char) : List Char → List (List Char)
  | [] => [[]]
  | c :: cs =>
    if c = sep then [] :: pieces sep cs
    else
      match pieces sep cs with
      | [] => [[c]]
      | p :: ps => (c :: p) :: ps

/-- The pieces joined by `sep`. -/
def glue (sep : Char) : List (List Char) → List Char
  | [] => []
  | [p] => p
  | p :: q :: ps => p ++ sep :: glue sep (q :: ps)

theorem pieces_ne_nil (sep : Char) (cs : List Char) : pieces sep cs ≠ [] := by
  cases cs with
  | nil => simp [pieces]
  | cons c cs =>
    simp only [pieces]
    split
    · simp
    · split <;> simp

/-- Cutting loses nothing. -/
theorem glue_pieces (sep : Char) (cs : List Char) : glue sep (pieces sep cs) = cs := by
  induction cs with
  | nil => rfl
  | cons c cs ih =>
    have hne := pieces_ne_nil sep cs
    cases hp : pieces sep cs with
    | nil => exact absurd hp hne
    | cons p ps =>
      rw [hp] at ih
      by_cases hc : c = sep
      · simp [pieces, hc, hp, glue, ih]
      · cases ps with
        | nil => simpa [pieces, hc, hp, glue] using ih
        | cons q qs => simpa [pieces, hc, hp, glue] using ih

/-- No piece holds the separator. -/
theorem notMem_of_mem_pieces {sep : Char} {cs p : List Char} (hp : p ∈ pieces sep cs) :
    sep ∉ p := by
  induction cs generalizing p with
  | nil => simp_all [pieces]
  | cons c cs ih =>
    simp only [pieces] at hp
    split at hp
    · rcases List.mem_cons.1 hp with rfl | h
      · simp
      · exact ih h
    · rename_i hc
      split at hp
      · rename_i h0
        exact absurd h0 (pieces_ne_nil sep cs)
      · rename_i q qs hq
        rcases List.mem_cons.1 hp with rfl | h
        · have := ih (hq ▸ List.mem_cons_self)
          simp only [List.mem_cons, not_or]
          exact ⟨fun e => hc e.symm, this⟩
        · exact ih (hq ▸ List.mem_cons_of_mem _ h)

end Text

end ExportSurface
