import ExportSurface.Evaluator
/-!
# The memo as a stack of evaluations

What the operations of the memo do to the states of its entries and to its
frames. The entries in flight are told apart by their depths (`Memo.Stacked`),
and while an evaluation is open, all that happens inside it leaves the entries
in flight and the answers kept where they were, and can only lower the frame
on top (`Memo.Grows`). The main statement is `Memo.grows_resolve`: an evaluation
opened, gone through and closed again has grown the memo it began with.
-/

namespace ExportSurface

namespace Memo

variable {m m₁ m₂ m₃ : Memo} {key k : MemoKey} {answer : Bool}

/-- The least depth in flight that the innermost open evaluation was told
about. -/
def low (m : Memo) : Nat := m.frames.head?.getD 0

/-! ## States after each operation -/

@[simp] theorem state?_lean (m : Memo) (d : Nat) : (m.lean d).state? k = m.state? k := by
  unfold lean
  split
  · rfl
  · rfl

@[simp] theorem state?_lookup (m : Memo) (key : MemoKey) :
    (m.lookup key).2.state? k = m.state? k := by
  unfold lookup
  split
  · rfl
  · exact state?_lean m _
  · rfl

theorem state?_of_lookup_fst_eq_none (h : (m.lookup key).1 = none) : m.state? key = none := by
  unfold lookup at h
  split at h
  · cases h
  · cases h
  · assumption

/-- What is found is an answer kept, or a `true` read off an entry in flight. -/
theorem state?_of_lookup_fst_eq_some (h : (m.lookup key).1 = some answer) :
    m.state? key = some (.resolved answer) ∨
      answer = true ∧ ∃ d, m.state? key = some (.inFlight d) := by
  unfold lookup at h
  split at h
  · rename_i kept hstate
    rw [← Option.some.inj h]
    exact Or.inl hstate
  · rename_i d hstate
    exact Or.inr ⟨(Option.some.inj h).symm, d, hstate⟩
  · cases h

theorem state?_begin_self (m : Memo) (key : MemoKey) :
    (m.begin key).state? key = some (.inFlight m.openCount) :=
  state?_set_self m key _

theorem state?_begin_of_ne (h : k ≠ key) : (m.begin key).state? k = m.state? k :=
  state?_set_of_ne m h _

theorem openCount_begin (m : Memo) (key : MemoKey) :
    (m.begin key).openCount = m.openCount + 1 := rfl

theorem state?_resolve_of_ne (h : k ≠ key) : (m.resolve key answer).2.state? k = m.state? k := by
  unfold resolve
  dsimp only
  split
  · cases answer with
    | true => exact (state?_remove_of_ne _ h).trans (state?_lean _ _)
    | false => exact (state?_set_of_ne _ h _).trans (state?_lean _ _)
  · exact state?_set_of_ne _ h _

/-- An answer that is kept is found under its key, one that is not leaves no
entry. -/
theorem state?_resolve_self (m : Memo) (key : MemoKey) (answer : Bool) :
    (m.resolve key answer).2.state? key
      = if (m.resolve key answer).1 then some (.resolved answer) else none := by
  unfold resolve
  dsimp only
  split
  · cases answer with
    | true => exact state?_remove_self _ key
    | false => exact state?_set_self _ key _
  · exact state?_set_self _ key _

/-! ## Entries in flight -/

/-- Entries in flight stand at depths of open evaluations, no two at one. -/
structure Stacked (m : Memo) : Prop where
  depth_lt : ∀ {k d}, m.state? k = some (.inFlight d) → d < m.openCount
  eq_of_depth_eq : ∀ {k k' d}, m.state? k = some (.inFlight d) →
    m.state? k' = some (.inFlight d) → k = k'

theorem stacked_begin (hm : m.Stacked) (key : MemoKey) : (m.begin key).Stacked where
  depth_lt {k d} hk := by
    by_cases hkey : k = key
    · subst hkey
      rw [state?_begin_self] at hk
      cases hk
      exact Nat.lt_succ_self _
    · rw [state?_begin_of_ne hkey] at hk
      exact Nat.lt_succ_of_lt (hm.depth_lt hk)
  eq_of_depth_eq {k k' d} hk hk' := by
    by_cases hkey : k = key
    · subst hkey
      rw [state?_begin_self] at hk
      cases hk
      by_cases hkey' : k' = k
      · exact hkey'.symm
      · -- the depth of the new entry is taken by no old one
        rw [state?_begin_of_ne hkey'] at hk'
        exact absurd (hm.depth_lt hk') (Nat.lt_irrefl _)
    · rw [state?_begin_of_ne hkey] at hk
      have hne : k' ≠ key := by
        rintro rfl
        rw [state?_begin_self] at hk'
        cases hk'
        exact absurd (hm.depth_lt hk) (Nat.lt_irrefl _)
      rw [state?_begin_of_ne hne] at hk'
      exact hm.eq_of_depth_eq hk hk'

/-! ## Growth -/

/-- The memo after something was asked: the same entries in flight, all the
answers kept, and no frame touched but the one on top, which may be lower. -/
structure Grows (m m' : Memo) : Prop where
  inFlight : ∀ {k d}, m'.state? k = some (.inFlight d) ↔ m.state? k = some (.inFlight d)
  resolved : ∀ {k answer}, m.state? k = some (.resolved answer) →
    m'.state? k = some (.resolved answer)
  openCount : m'.openCount = m.openCount
  tail : m'.frames.tail = m.frames.tail
  low_le : m'.low ≤ m.low

namespace Grows

theorem refl (m : Memo) : Grows m m :=
  ⟨Iff.rfl, id, rfl, rfl, Nat.le_refl _⟩

theorem trans (h₁ : Grows m₁ m₂) (h₂ : Grows m₂ m₃) : Grows m₁ m₃ where
  inFlight := h₂.inFlight.trans h₁.inFlight
  resolved hk := h₂.resolved (h₁.resolved hk)
  openCount := h₂.openCount.trans h₁.openCount
  tail := h₂.tail.trans h₁.tail
  low_le := Nat.le_trans h₂.low_le h₁.low_le

theorem stacked (h : Grows m m₁) (hm : m.Stacked) : m₁.Stacked where
  depth_lt hk := h.openCount ▸ hm.depth_lt (h.inFlight.mp hk)
  eq_of_depth_eq hk hk' := hm.eq_of_depth_eq (h.inFlight.mp hk) (h.inFlight.mp hk')

end Grows

theorem openCount_lean (m : Memo) (d : Nat) : (m.lean d).openCount = m.openCount := by
  unfold lean
  split
  · rfl
  · rename_i low outer hframes
    simp [openCount, hframes]

theorem tail_lean (m : Memo) (d : Nat) : (m.lean d).frames.tail = m.frames.tail := by
  unfold lean
  split
  · rfl
  · rename_i low outer hframes
    rw [hframes]
    rfl

theorem low_lean (m : Memo) (d : Nat) (h : 0 < m.openCount) :
    (m.lean d).low = min m.low d := by
  unfold lean
  split
  · rename_i hframes
    rw [openCount, hframes] at h
    exact absurd h (Nat.lt_irrefl 0)
  · rename_i low outer hframes
    rw [Memo.low, Memo.low, hframes]
    rfl

theorem low_lean_le (m : Memo) (d : Nat) : (m.lean d).low ≤ m.low := by
  rcases Nat.eq_zero_or_pos m.openCount with h | h
  · have hlean : m.lean d = m := by rw [lean, List.length_eq_zero_iff.mp h]
    exact Nat.le_of_eq (congrArg low hlean)
  · rw [low_lean m d h]
    exact Nat.min_le_left _ _

theorem grows_lean (m : Memo) (d : Nat) : Grows m (m.lean d) where
  inFlight {k d} := by rw [state?_lean]
  resolved {k answer} hk := by rwa [state?_lean]
  openCount := openCount_lean m d
  tail := tail_lean m d
  low_le := low_lean_le m d

/-- Being told an answer grows the memo. -/
theorem grows_lookup (m : Memo) (key : MemoKey) : Grows m (m.lookup key).2 := by
  unfold lookup
  split
  · exact ⟨Iff.rfl, id, rfl, rfl, Nat.le_refl _⟩
  · rename_i d _
    have h := grows_lean m d
    exact ⟨h.inFlight, h.resolved, h.openCount, h.tail, h.low_le⟩
  · exact ⟨Iff.rfl, id, rfl, rfl, Nat.le_refl _⟩

/-- Being told about an entry in flight lowers the frame on top to it. -/
theorem low_lookup_le {d : Nat} (hm : m.Stacked) (h : m.state? key = some (.inFlight d)) :
    (m.lookup key).2.low ≤ d := by
  have hpos : 0 < m.openCount := Nat.zero_lt_of_lt (hm.depth_lt h)
  have hlow : (m.lookup key).2.low = (m.lean d).low := by
    unfold lookup
    rw [h]
    rfl
  rw [hlow, low_lean m d hpos]
  exact Nat.min_le_right _ _

/-! ## Opening and closing -/

section Close

variable (hgrow : Grows (m.begin key) m₁)
include hgrow

/-- The frames of an evaluation that is about to be closed. -/
theorem frames_of_grows_begin : m₁.frames = m₁.low :: m.frames := by
  have hlen : m₁.frames.length = m.openCount + 1 := hgrow.openCount
  have htail : m₁.frames.tail = m.frames := hgrow.tail
  unfold low
  cases hf : m₁.frames with
  | nil =>
    rw [hf] at hlen
    cases hlen
  | cons low outer =>
    rw [hf] at htail
    rw [← htail]
    rfl

theorem state?_of_grows_begin : m₁.state? key = some (.inFlight m.openCount) :=
  hgrow.inFlight.mpr (state?_begin_self m key)

/-- Closing, by whether the evaluation leaned on one opened before it. -/
theorem resolve_of_grows_begin :
    m₁.resolve key answer =
      if m₁.low < m.openCount then
        if answer then
          (false, { (({ m₁ with frames := m.frames } : Memo).lean m₁.low).remove key with
            deferred := (({ m₁ with frames := m.frames } : Memo).lean m₁.low).deferred + 1 })
        else (true, (({ m₁ with frames := m.frames } : Memo).lean m₁.low).set key (.resolved false))
      else (true, ({ m₁ with frames := m.frames } : Memo).set key (.resolved answer)) := by
  have hf := frames_of_grows_begin hgrow
  have hcount : m₁.openCount - 1 = m.openCount := by
    rw [hgrow.openCount, openCount_begin]
    rfl
  have hhead : m₁.frames.head?.getD m.openCount = m₁.low := by
    rw [hf]
    rfl
  have htail : m₁.frames.tail = m.frames := hgrow.tail
  simp only [resolve, hcount, hhead, htail]

/-- **An answer is dropped where it is `true` and leaned on an evaluation
opened before.** -/
theorem resolve_fst_eq_false_iff :
    (m₁.resolve key answer).1 = false ↔ answer = true ∧ m₁.low < m.openCount := by
  rw [resolve_of_grows_begin hgrow]
  by_cases hlow : m₁.low < m.openCount
  · cases answer with
    | true => simp [hlow]
    | false => simp [hlow]
  · simp [hlow]

/-- **What is kept**: every `false`, and a `true` that leaned on nothing opened
before. -/
theorem state?_resolve_eq_some_iff {state : MemoState} :
    (m₁.resolve key answer).2.state? key = some state ↔
      state = .resolved answer ∧ (answer = true → m.openCount ≤ m₁.low) := by
  have hiff := @resolve_fst_eq_false_iff _ _ _ answer hgrow
  rw [state?_resolve_self]
  cases hkept : (m₁.resolve key answer).1 with
  | false =>
    obtain ⟨htrue, hlow⟩ := hiff.mp hkept
    simp [htrue, Nat.not_le_of_lt hlow]
  | true =>
    have hlow : answer = true → m.openCount ≤ m₁.low := by
      intro htrue
      refine Nat.le_of_not_lt fun hlt => ?_
      rw [hiff.mpr ⟨htrue, hlt⟩] at hkept
      cases hkept
    rw [if_pos rfl, Option.some.injEq, eq_comm]
    exact (and_iff_left hlow).symm

theorem frames_resolve_of_lt (h : m₁.low < m.openCount) :
    (m₁.resolve key answer).2.frames
      = (({ m₁ with frames := m.frames } : Memo).lean m₁.low).frames := by
  rw [resolve_of_grows_begin hgrow, if_pos h]
  cases answer with
  | true => rfl
  | false => rfl

theorem frames_resolve_of_not_lt (h : ¬ m₁.low < m.openCount) :
    (m₁.resolve key answer).2.frames = m.frames := by
  rw [resolve_of_grows_begin hgrow, if_neg h]
  rfl

/-- What an evaluation leaned on, the one around it leans on after it. -/
theorem low_resolve_le (h : m₁.low < m.openCount) :
    (m₁.resolve key answer).2.low ≤ m₁.low := by
  have hlow : (m₁.resolve key answer).2.low
      = (({ m₁ with frames := m.frames } : Memo).lean m₁.low).low :=
    congrArg (·.head?.getD 0) (frames_resolve_of_lt hgrow h)
  have hpos : 0 < ({ m₁ with frames := m.frames } : Memo).openCount := Nat.zero_lt_of_lt h
  rw [hlow, low_lean _ _ hpos]
  exact Nat.min_le_right _ _

/-- **An evaluation opened, gone through and closed** has grown the memo it
began with. -/
theorem grows_resolve (hkey : m.state? key = none) :
    Grows m (m₁.resolve key answer).2 where
  inFlight {k d} := by
    by_cases hk : k = key
    · subst hk
      rw [state?_resolve_self, hkey]
      split
      · simp
      · simp
    · rw [state?_resolve_of_ne hk, hgrow.inFlight, state?_begin_of_ne hk]
  resolved {k b} hb := by
    have hk : k ≠ key := by
      rintro rfl
      rw [hkey] at hb
      cases hb
    rw [state?_resolve_of_ne hk]
    exact hgrow.resolved (by rwa [state?_begin_of_ne hk])
  openCount := by
    by_cases h : m₁.low < m.openCount
    · rw [openCount, frames_resolve_of_lt hgrow h]
      exact openCount_lean _ _
    · rw [openCount, frames_resolve_of_not_lt hgrow h]
      rfl
  tail := by
    by_cases h : m₁.low < m.openCount
    · rw [frames_resolve_of_lt hgrow h]
      exact tail_lean _ _
    · rw [frames_resolve_of_not_lt hgrow h]
  low_le := by
    by_cases h : m₁.low < m.openCount
    · rw [low, frames_resolve_of_lt hgrow h]
      exact low_lean_le ({ m₁ with frames := m.frames } : Memo) m₁.low
    · rw [low, frames_resolve_of_not_lt hgrow h]
      exact Nat.le_refl _

end Close

end Memo

end ExportSurface
