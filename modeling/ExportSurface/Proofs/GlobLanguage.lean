import ExportSurface.Glob.Basic
import Mathlib.Computability.Language
/-!
# Globs — the language of a glob

Every piece of a glob stands for a language, a sequence of pieces for the
product of their languages and alternatives for the sum. `Glob.isMatch_iff`:
a glob matches the names in its language and no others.

The matcher moves marks along the positions of one name. A list of marks is
itself a language, the marked beginnings of the name, and a piece multiplies
it by its own, as far as the name goes (`Moves`).
-/

namespace ExportSurface

namespace Glob

/-! ## Languages -/

/-- The texts of one character that passes the test. -/
def oneOf (test : Char → Bool) : Language Char := {w | ∃ c, w = [c] ∧ test c = true}

/-- The texts of any number of characters that pass the test. -/
def runOf (test : Char → Bool) : Language Char := {w | ∀ c ∈ w, test c = true}

theorem mem_oneOf {test : Char → Bool} {w : List Char} :
    w ∈ oneOf test ↔ ∃ c, w = [c] ∧ test c = true := Iff.rfl

theorem mem_runOf {test : Char → Bool} {w : List Char} :
    w ∈ runOf test ↔ ∀ c ∈ w, test c = true := Iff.rfl

mutual

/-- What a piece matches. -/
def Piece.language (separator : Char) : Piece → Language Char
  | .literal c => oneOf (· == c)
  | .run => runOf (· != separator)
  | .anyRun => runOf (· != '\n')
  | .one => oneOf (· != separator)
  | .set k => oneOf fun c => k.contains c && c != separator
  | .group alternatives => alternativesLanguage separator alternatives

/-- What a sequence of pieces matches. -/
def piecesLanguage (separator : Char) : List Piece → Language Char
  | [] => 1
  | p :: ps => p.language separator * piecesLanguage separator ps

/-- What one of several sequences matches. -/
def alternativesLanguage (separator : Char) : List (List Piece) → Language Char
  | [] => 0
  | ps :: more => piecesLanguage separator ps + alternativesLanguage separator more

end

/-! ## Marks -/

variable {separator : Char} {name : List Char} {ms ns : List Bool} {L M : Language Char}

/-- The beginnings of a name that are marked. -/
def marked (name : List Char) (ms : List Bool) : Language Char :=
  {u | u <+: name ∧ ms[u.length]? = some true}

/-- No position is marked where every mark has been taken away. -/
theorem getElem?_map_false {α : Type} (as : List α) (i : Nat) :
    (as.map fun _ => false)[i]? ≠ some true := by
  rw [List.getElem?_map]
  cases as[i]? <;> simp

/-- **One mark for each position**, and what a language makes of them: a
beginning of the name is marked afterwards if it is one marked before and then
a text of the language. -/
structure Moves (name : List Char) (ms : List Bool) (L : Language Char) (ns : List Bool) :
    Prop where
  length_eq : ns.length = name.length + 1
  mem_iff : ∀ u, u <+: name → (ns[u.length]? = some true ↔ u ∈ marked name ms * L)

namespace Moves

theorem marked_eq (h : Moves name ms L ns) (u : List Char) :
    u ∈ marked name ns ↔ u <+: name ∧ u ∈ marked name ms * L := by
  constructor
  · rintro ⟨hu, hmark⟩
    exact ⟨hu, (h.mem_iff u hu).mp hmark⟩
  · rintro ⟨hu, hmem⟩
    exact ⟨hu, (h.mem_iff u hu).mpr hmem⟩

/-- Nothing moves the marks as the empty text does. -/
theorem refl (h : ms.length = name.length + 1) : Moves name ms 1 ms where
  length_eq := h
  mem_iff u hu := by
    rw [mul_one]
    exact ⟨fun hmark => ⟨hu, hmark⟩, fun hmem => hmem.2⟩

/-- **One move after the other** is the move of the product. -/
theorem trans {ns' : List Bool} (h : Moves name ms L ns) (h' : Moves name ns M ns') :
    Moves name ms (L * M) ns' where
  length_eq := h'.length_eq
  mem_iff u hu := by
    rw [h'.mem_iff u hu, ← mul_assoc, Language.mem_mul, Language.mem_mul]
    constructor
    · rintro ⟨a, ha, b, hb, rfl⟩
      exact ⟨a, ((h.marked_eq a).mp ha).2, b, hb, rfl⟩
    · rintro ⟨a, ha, b, hb, rfl⟩
      have hbegins : a <+: name := (List.prefix_append a b).trans hu
      exact ⟨a, (h.marked_eq a).mpr ⟨hbegins, ha⟩, b, hb, rfl⟩

/-- **Either of two moves** is the move of the sum. -/
theorem either {ns' : List Bool} (h : Moves name ms L ns) (h' : Moves name ms M ns') :
    Moves name ms (L + M) (eitherMarks ns ns') where
  length_eq := by simp [eitherMarks, h.length_eq, h'.length_eq]
  mem_iff u hu := by
    have hlt : u.length < name.length + 1 := Nat.lt_succ_of_le hu.length_le
    rw [mul_add, Language.mem_add, ← h.mem_iff u hu, ← h'.mem_iff u hu, eitherMarks,
      List.getElem?_zipWith]
    have hns : u.length < ns.length := by rw [h.length_eq]; exact hlt
    have hns' : u.length < ns'.length := by rw [h'.length_eq]; exact hlt
    simp [List.getElem?_eq_getElem hns, List.getElem?_eq_getElem hns']

/-- No move at all. -/
theorem nowhere (h : ms.length = name.length + 1) : Moves name ms 0 (ms.map fun _ => false) where
  length_eq := by simpa using h
  mem_iff u _ := by
    rw [mul_zero]
    exact ⟨fun hmark => absurd hmark (getElem?_map_false ms _),
      fun hmem => absurd hmem (Language.notMem_zero u)⟩

end Moves

/-! ### One character -/

theorem getElem?_shift (test : Char → Bool) (cs : List Char) (ms : List Bool) (i : Nat) :
    (shift test cs ms)[i]? = some true ↔
      ms[i]? = some true ∧ ∃ c, cs[i]? = some c ∧ test c = true := by
  induction cs generalizing ms i with
  | nil => simp [shift]
  | cons c cs ih =>
    cases ms with
    | nil => simp [shift]
    | cons m ms =>
      cases i with
      | zero => simp [shift]
      | succ i => simpa [shift] using ih ms i

theorem length_shift (test : Char → Bool) (cs : List Char) (ms : List Bool) :
    (shift test cs ms).length = min cs.length ms.length := by
  induction cs generalizing ms with
  | nil => simp [shift]
  | cons c cs ih =>
    cases ms with
    | nil => simp [shift]
    | cons m ms => simp [shift, ih, Nat.succ_min_succ]

theorem moves_afterOne (test : Char → Bool) (h : ms.length = name.length + 1) :
    Moves name ms (oneOf test) (afterOne test name ms) where
  length_eq := by simp [afterOne, length_shift, h]
  mem_iff u hu := by
    rw [Language.mem_mul]
    obtain rfl | ⟨a, c, rfl⟩ := List.eq_nil_or_concat' u
    · constructor
      · intro hmark
        cases hmark
      · rintro ⟨a, -, b, ⟨c, rfl, -⟩, hnil⟩
        simp at hnil
    · obtain ⟨rest, rfl⟩ := hu
      have hshift := getElem?_shift test (a ++ [c] ++ rest) ms a.length
      simp only [afterOne, List.length_append, List.length_singleton, List.getElem?_cons_succ,
        hshift]
      constructor
      · rintro ⟨hmark, c', hc', htest⟩
        obtain rfl : c = c' := by simpa using hc'
        exact ⟨a, ⟨by simp, hmark⟩, [c], ⟨c, rfl, htest⟩, rfl⟩
      · rintro ⟨a', ⟨-, hmark⟩, b, ⟨c', rfl, htest⟩, heq⟩
        obtain ⟨rfl, hc⟩ := List.append_inj' heq rfl
        obtain rfl : c' = c := by simpa using hc
        exact ⟨hmark, c', by simp, htest⟩

/-! ### Runs -/

theorem length_afterRun (test : Char → Bool) (carried : Bool) (h : ms.length = name.length + 1) :
    (afterRun test carried name ms).length = name.length + 1 := by
  induction name generalizing carried ms with
  | nil =>
    obtain ⟨m, rfl⟩ := List.length_eq_one_iff.mp h
    rfl
  | cons c name ih =>
    cases ms with
    | nil => cases h
    | cons m ms => simp [afterRun, ih _ (Nat.succ.inj h)]

/-- A position is marked after a run if a mark has been carried there, from
before the name or from a position that was marked. -/
theorem getElem?_afterRun (test : Char → Bool) (carried : Bool)
    (h : ms.length = name.length + 1) {i : Nat} (hi : i ≤ name.length) :
    (afterRun test carried name ms)[i]? = some true ↔
      (carried = true ∧ ∀ c ∈ name.take i, test c = true) ∨
        ∃ j ≤ i, ms[j]? = some true ∧ ∀ c ∈ (name.take i).drop j, test c = true := by
  induction name generalizing carried ms i with
  | nil =>
    obtain ⟨m, rfl⟩ := List.length_eq_one_iff.mp h
    obtain rfl : i = 0 := by simpa using hi
    simp [afterRun]
  | cons c name ih =>
    cases ms with
    | nil => cases h
    | cons m ms =>
      cases i with
      | zero => simp [afterRun]
      | succ i =>
        have hrest := ih ((carried || m) && test c) (Nat.succ.inj h) (Nat.le_of_succ_le_succ hi)
        simp only [afterRun, List.getElem?_cons_succ, hrest, List.take_succ_cons,
          List.forall_mem_cons, Bool.and_eq_true, Bool.or_eq_true]
        constructor
        · rintro (⟨⟨hcarried | hm, hc⟩, hall⟩ | ⟨j, hj, hmark, hall⟩)
          · exact .inl ⟨hcarried, hc, hall⟩
          · exact .inr ⟨0, Nat.zero_le _, by simp [hm], by simpa using ⟨hc, hall⟩⟩
          · exact .inr ⟨j + 1, Nat.succ_le_succ hj, by simpa using hmark, by simpa using hall⟩
        · rintro (⟨hcarried, hc, hall⟩ | ⟨j, hj, hmark, hall⟩)
          · exact .inl ⟨⟨.inl hcarried, hc⟩, hall⟩
          · cases j with
            | zero =>
              have hm : m = true := by simpa using hmark
              simp only [List.drop_zero, List.forall_mem_cons] at hall
              exact .inl ⟨⟨.inr hm, hall.1⟩, hall.2⟩
            | succ j =>
              exact .inr ⟨j, Nat.le_of_succ_le_succ hj, by simpa using hmark, by simpa using hall⟩

theorem moves_afterRun (test : Char → Bool) (h : ms.length = name.length + 1) :
    Moves name ms (runOf test) (afterRun test false name ms) where
  length_eq := length_afterRun test false h
  mem_iff u hu := by
    obtain ⟨rest, rfl⟩ := hu
    rw [getElem?_afterRun test false h (by simp), Language.mem_mul]
    simp only [Bool.false_eq_true, false_and, false_or, List.take_left]
    constructor
    · rintro ⟨j, hj, hmark, htest⟩
      refine ⟨u.take j, ⟨?_, ?_⟩, u.drop j, htest, List.take_append_drop j u⟩
      · exact (List.take_prefix j u).trans (List.prefix_append u rest)
      · simpa [Nat.min_eq_left hj] using hmark
    · rintro ⟨a, ⟨-, hmark⟩, b, htest, rfl⟩
      exact ⟨a.length, by simp, hmark, by simpa using mem_runOf.mp htest⟩

/-! ## Pieces -/

mutual

theorem Piece.moves_after : ∀ (p : Piece) {ms : List Bool}, ms.length = name.length + 1 →
    Moves name ms (p.language separator) (p.after separator name ms)
  | .literal _, _, h => moves_afterOne _ h
  | .run, _, h => moves_afterRun _ h
  | .anyRun, _, h => moves_afterRun _ h
  | .one, _, h => moves_afterOne _ h
  | .set _, _, h => moves_afterOne _ h
  | .group alternatives, _, h => moves_afterEither alternatives h

theorem moves_afterAll : ∀ (ps : List Piece) {ms : List Bool}, ms.length = name.length + 1 →
    Moves name ms (piecesLanguage separator ps) (afterAll separator name ps ms)
  | [], _, h => .refl h
  | p :: ps, _, h => by
    have hp := Piece.moves_after p h
    exact hp.trans (moves_afterAll ps hp.length_eq)

theorem moves_afterEither : ∀ (alternatives : List (List Piece)) {ms : List Bool},
    ms.length = name.length + 1 →
    Moves name ms (alternativesLanguage separator alternatives)
      (afterEither separator name alternatives ms)
  | [], _, h => .nowhere h
  | ps :: more, _, h => (moves_afterAll ps h).either (moves_afterEither more h)

end

/-- **A glob matches the names in its language**, and no others. -/
theorem isMatch_iff (g : Glob) (name : String) :
    g.isMatch name = true ↔ name.toList ∈ alternativesLanguage g.separator g.alternatives := by
  have hlength : (startMarks name.toList).length = name.toList.length + 1 := by simp [startMarks]
  have hmoves : Moves name.toList (startMarks name.toList)
      (alternativesLanguage g.separator g.alternatives)
      (afterEither g.separator name.toList g.alternatives (startMarks name.toList)) :=
    moves_afterEither g.alternatives hlength
  -- Only the empty beginning of the name is marked at first.
  have hstart : marked name.toList (startMarks name.toList) = 1 := by
    ext u
    rw [Language.mem_one]
    constructor
    · rintro ⟨-, hmark⟩
      cases u with
      | nil => rfl
      | cons _ u => exact absurd hmark (getElem?_map_false name.toList u.length)
    · rintro rfl
      exact ⟨List.nil_prefix, rfl⟩
  have hend := hmoves.mem_iff name.toList (List.prefix_refl _)
  rw [hstart, one_mul] at hend
  rw [← hend, isMatch, List.getLastD_eq_getLast?, List.getLast?_eq_getElem?, hmoves.length_eq,
    Nat.add_sub_cancel]
  cases (afterEither g.separator name.toList g.alternatives
    (startMarks name.toList))[name.toList.length]? <;> simp

end Glob

end ExportSurface
