import ExportSurface.Proofs.GlobLanguage
/-!
# Globs — tokens and the pieces assembled from them

A token adds a piece to the sequence at hand, opens or closes a group, begins
another alternative or makes the glob fail (`token_cases`). From this the two
facts about `assemble` that are used elsewhere: what holds of the pieces of
all tokens holds of every piece of the result (`assemble_forall`), and whether
there is a result depends on the number of open groups alone
(`assemble_isOk_iff`).
-/

namespace ExportSurface

namespace Glob

variable {t : Token} {ts : List Token} {outer : List Frame} {frame : Frame}
variable {result : List (List Piece)} {p : Piece}

/-! ## One token -/

/-- The piece that a token adds, if it adds one. -/
def Token.piece? : Token → Option Piece
  | .literal c => some (.literal c)
  | .run => some .run
  | .anyRun => some .anyRun
  | .one => some .one
  | .set negated items true => (classPiece negated items).toOption
  | .set _ _ false | .openGroup | .nextAlternative | .closeGroup => none

theorem assemble_piece (h : t.piece? = some p) (outer : List Frame) (frame : Frame)
    (ts : List Token) : assemble outer frame (t :: ts) = assemble outer (frame.push p) ts := by
  cases t with
  | literal _ | run | anyRun | one =>
    cases h
    rfl
  | openGroup | nextAlternative | closeGroup => cases h
  | set negated items closed =>
    cases closed with
    | false => cases h
    | true =>
      simp only [Token.piece?] at h
      cases hclass : classPiece negated items with
      | error fault => simp [hclass, Except.toOption] at h
      | ok q =>
        obtain rfl : q = p := by simpa [hclass, Except.toOption] using h
        simp only [assemble, hclass]

/-- **What a token does**, besides closing a group: it adds a piece, opens a
group, begins another alternative, or it is a class that makes the glob fail. -/
theorem token_cases (t : Token) :
    (∃ p, t.piece? = some p) ∨ t = .openGroup ∨ t = .nextAlternative ∨ t = .closeGroup ∨
      t.piece? = none ∧ (∃ negated items closed, t = .set negated items closed) ∧
        ∃ fault, fault ∈ [.openClass, .invertedRange] ∧
          ∀ outer frame ts, assemble outer frame (t :: ts) = .error fault := by
  cases t with
  | literal _ | run | anyRun | one => exact .inl ⟨_, rfl⟩
  | openGroup | nextAlternative | closeGroup => simp
  | set negated items closed =>
    cases closed with
    | false =>
      exact .inr <| .inr <| .inr <| .inr ⟨rfl, ⟨_, _, _, rfl⟩, _, by simp, fun _ _ _ => rfl⟩
    | true =>
      cases hclass : classPiece negated items with
      | error fault =>
        refine .inr <| .inr <| .inr <| .inr ⟨?_, ⟨_, _, _, rfl⟩, fault, ?_, fun _ _ _ => ?_⟩
        · simp [Token.piece?, hclass, Except.toOption]
        · unfold classPiece at hclass
          split at hclass <;> cases hclass <;> simp
        · simp only [assemble, hclass]
      | ok q => exact .inl ⟨q, by simp [Token.piece?, hclass, Except.toOption]⟩

/-! ## All pieces -/

variable {P : Piece → Prop}

/-- A frame whose pieces all have a property. -/
structure Frame.All (P : Piece → Prop) (f : Frame) : Prop where
  finished : ∀ ps ∈ f.finished, ∀ p ∈ ps, P p
  current : ∀ p ∈ f.current, P p

namespace Frame.All

theorem empty : Frame.All P {} := ⟨by simp, by simp⟩

theorem push (h : Frame.All P frame) (hp : P p) : Frame.All P (frame.push p) where
  finished := h.finished
  current := List.forall_mem_cons.mpr ⟨hp, h.current⟩

theorem next (h : Frame.All P frame) : Frame.All P frame.next where
  finished := List.forall_mem_cons.mpr ⟨by simpa using h.current, h.finished⟩
  current := by simp [Frame.next]

theorem of_mem_alternatives (h : Frame.All P frame) : ∀ ps ∈ frame.alternatives, ∀ p ∈ ps, P p := by
  intro ps hps
  simp only [Frame.alternatives, List.mem_reverse, List.mem_cons] at hps
  obtain rfl | hps := hps
  · simpa using h.current
  · exact h.finished ps hps

end Frame.All

/-- **What holds of every piece that a token adds**, and of a group if it holds
of what is in it, holds of everything that is assembled. -/
theorem assemble_forall (hgroup : ∀ as, (∀ ps ∈ as, ∀ p ∈ ps, P p) → P (.group as))
    (htokens : ∀ t ∈ ts, ∀ p, t.piece? = some p → P p) (houter : ∀ f ∈ outer, Frame.All P f)
    (hframe : Frame.All P frame) (h : assemble outer frame ts = .ok result) :
    ∀ ps ∈ result, ∀ p ∈ ps, P p := by
  induction ts generalizing outer frame with
  | nil =>
    cases outer with
    | nil =>
      obtain rfl : frame.alternatives = result := by simpa [assemble] using h
      exact hframe.of_mem_alternatives
    | cons f outer => simp [assemble] at h
  | cons t ts ih =>
    obtain ⟨ht, hts⟩ := List.forall_mem_cons.mp htokens
    obtain ⟨p, hp⟩ | rfl | rfl | rfl | ⟨-, -, fault, -, hfault⟩ := token_cases t
    · rw [assemble_piece hp] at h
      exact ih hts houter (hframe.push (ht p hp)) h
    · exact ih hts (List.forall_mem_cons.mpr ⟨hframe, houter⟩) .empty h
    · exact ih hts houter hframe.next h
    · cases outer with
      | nil => simp [assemble] at h
      | cons f outer =>
        obtain ⟨hf, houter⟩ := List.forall_mem_cons.mp houter
        exact ih hts houter (hf.push (hgroup _ hframe.of_mem_alternatives)) h
    · rw [hfault] at h
      cases h

/-! ## Whether there is a result -/

/-- Whether tokens complete so many open groups: each class among them adds a
piece, and every group that is open or opened is closed. -/
def Completes : Nat → List Token → Prop
  | n, [] => n = 0
  | n, .openGroup :: ts => Completes (n + 1) ts
  | 0, .closeGroup :: _ => False
  | n + 1, .closeGroup :: ts => Completes n ts
  | n, .nextAlternative :: ts => Completes n ts
  | n, t :: ts => t.piece?.isSome = true ∧ Completes n ts

theorem completes_piece (h : t.piece? = some p) (n : Nat) :
    Completes n (t :: ts) ↔ Completes n ts := by
  cases t with
  | openGroup | nextAlternative | closeGroup => cases h
  | literal _ | run | anyRun | one | set _ _ _ => simp [Completes, h]

/-- **Tokens are assembled just if they complete the open groups.** -/
theorem assemble_isOk_iff :
    (∃ result, assemble outer frame ts = .ok result) ↔ Completes outer.length ts := by
  induction ts generalizing outer frame with
  | nil => cases outer <;> simp [assemble, Completes]
  | cons t ts ih =>
    obtain ⟨p, hp⟩ | rfl | rfl | rfl | ⟨hnone, ⟨negated, items, closed, rfl⟩, fault, -, hfault⟩ :=
      token_cases t
    · rw [assemble_piece hp, completes_piece hp]
      exact ih
    · exact @ih (frame :: outer) {}
    · exact ih
    · cases outer with
      | nil => simp [assemble, Completes]
      | cons f outer => exact ih
    · simp [hfault, Completes, hnone]

/-- What can be at fault is a class, or a group that is not closed. -/
theorem assemble_fault {fault : Fault} (h : assemble outer frame ts = .error fault) :
    fault ∈ [.openClass, .openGroup, .invertedRange] := by
  induction ts generalizing outer frame with
  | nil =>
    cases outer with
    | nil => cases h
    | cons f outer =>
      cases h
      simp
  | cons t ts ih =>
    obtain ⟨p, hp⟩ | rfl | rfl | rfl | ⟨-, -, other, hother, hfault⟩ := token_cases t
    · rw [assemble_piece hp] at h
      exact ih h
    · exact ih h
    · exact ih h
    · cases outer with
      | nil => cases h; simp
      | cons f outer => exact ih h
    · rw [hfault] at h
      cases h
      simp only [List.mem_cons, List.not_mem_nil, or_false] at hother ⊢
      obtain rfl | rfl := hother <;> simp

/-! ## Compiling -/

/-- Whether alternatives nest no deeper than a regular expression may. -/
def WithinDepth (alternatives : List (List Piece)) : Prop :=
  alternativesDepth alternatives + 2 ≤ depthLimit

instance (alternatives : List (List Piece)) : Decidable (WithinDepth alternatives) :=
  inferInstanceAs (Decidable (_ ≤ _))

variable {engine : Engine} {pattern : String} {separator : Char}

/-- What a pattern that can be assembled compiles to, as far as it nests and the
engine takes it. -/
theorem compile_of_assemble {alternatives : List (List Piece)}
    (h : assemble [] {} (tokens pattern) = .ok alternatives) :
    compile engine pattern separator =
      if WithinDepth alternatives then
        if engine.Takes pattern separator then .ok { pattern, separator, alternatives }
        else .error { pattern, fault := .tooLarge }
      else .error { pattern, fault := .tooDeep } := by
  simp only [compile, h, WithinDepth, Engine.Takes, ← Nat.not_lt, ite_not, gt_iff_lt,
    Bool.eq_false_iff]

/-- **A glob compiles to the alternatives its tokens are assembled into**, if
these nest within the limit and the engine takes the pattern. -/
theorem compile_eq_ok_iff {g : Glob} :
    compile engine pattern separator = .ok g ↔
      assemble [] {} (tokens pattern) = .ok g.alternatives ∧ WithinDepth g.alternatives ∧
        engine.Takes pattern separator ∧ g.pattern = pattern ∧ g.separator = separator := by
  cases hassemble : assemble [] {} (tokens pattern) with
  | error fault => simp [compile, hassemble]
  | ok alternatives =>
    rw [compile_of_assemble hassemble]
    constructor
    · intro h
      split_ifs at h with hdepth htakes
      cases h
      exact ⟨rfl, hdepth, htakes, rfl, rfl⟩
    · rintro ⟨halternatives, hdepth, htakes, rfl, rfl⟩
      obtain rfl : alternatives = g.alternatives := Except.ok.inj halternatives
      rw [if_pos hdepth, if_pos htakes]

end Glob

end ExportSurface
