import ExportSurface.QualifiedName
/-!
# The memo of an evaluation

Answers about classes and types are remembered under stable names. An entry
is *in flight* from the moment its evaluation is opened until it is resolved,
and while it is, whoever asks for it is told `true`: that is what ends the
evaluation of a cyclic module.

Such a `true` is provisional, since the entry may yet turn out `false`. Each
open evaluation therefore keeps the depth of the shallowest entry in flight
that it, or an evaluation closed inside it, was told about. An evaluation
that leaned on one opened before it keeps a `false`, which no later answer
can overturn, and drops a `true`.
-/

namespace ExportSurface

/-- What an answer is about. -/
inductive MemoKey where
  /-- A class, by its qualified name. -/
  | ofClass (name : String)
  /-- A type, by its key. -/
  | ofType (key : String)
deriving DecidableEq, Repr, Inhabited

/-- The state of an entry. -/
inductive MemoState where
  /-- Evaluation is open at a depth, counted from the outermost. -/
  | inFlight (depth : Nat)
  | resolved (answer : Bool)
deriving DecidableEq, Repr, Inhabited

/-- How the memo was used. -/
structure MemoStats where
  hits : Nat := 0
  misses : Nat := 0
  /-- Hits on entries in flight. -/
  provisional : Nat := 0
  /-- Answers dropped because they were provisional. -/
  deferred : Nat := 0
  entries : Nat := 0
deriving DecidableEq, Repr, Inhabited

/-- The answers known so far and the evaluations still open. -/
structure Memo where
  /-- At most one entry for a key. -/
  entries : List (MemoKey × MemoState) := []
  /-- For each open evaluation, the innermost first, the least depth in
  flight that it was told about, its own depth if none. -/
  frames : List Nat := []
  hits : Nat := 0
  misses : Nat := 0
  provisional : Nat := 0
  deferred : Nat := 0
deriving DecidableEq, Repr, Inhabited

namespace Memo

/-- The state of an entry, if there is one. -/
def state? (m : Memo) (key : MemoKey) : Option MemoState :=
  m.entries.lookup key

/-- The memo without the entry. -/
def remove (m : Memo) (key : MemoKey) : Memo :=
  { m with entries := m.entries.filter (·.1 ≠ key) }

/-- The memo with the entry set. -/
def set (m : Memo) (key : MemoKey) (state : MemoState) : Memo :=
  { m with entries := (key, state) :: m.entries.filter (·.1 ≠ key) }

/-- The number of open evaluations. -/
def openCount (m : Memo) : Nat := m.frames.length

/-- The memo after the innermost evaluation was told about an entry in flight
at a depth. -/
def lean (m : Memo) (depth : Nat) : Memo :=
  match m.frames with
  | [] => m
  | low :: outer => { m with frames := min low depth :: outer }

/-- The answer known for a key, if any. -/
def lookup (m : Memo) (key : MemoKey) : Option Bool × Memo :=
  match m.state? key with
  | some (.resolved answer) => (some answer, { m with hits := m.hits + 1 })
  | some (.inFlight depth) =>
    (some true, { m.lean depth with hits := m.hits + 1, provisional := m.provisional + 1 })
  | none => (none, { m with misses := m.misses + 1 })

/-- Opens an evaluation for a key. -/
def begin (m : Memo) (key : MemoKey) : Memo :=
  let depth := m.openCount
  { m.set key (.inFlight depth) with frames := depth :: m.frames }

/-- Closes the innermost evaluation with an answer for its key, and tells
whether the answer was kept. -/
def resolve (m : Memo) (key : MemoKey) (answer : Bool) : Bool × Memo :=
  let depth := m.openCount - 1
  let low := m.frames.head?.getD depth
  let closed := { m with frames := m.frames.tail }
  if low < depth then
    let closed := closed.lean low
    if answer then (false, { closed.remove key with deferred := closed.deferred + 1 })
    else (true, closed.set key (.resolved false))
  else (true, closed.set key (.resolved answer))

/-- How the memo was used. -/
def stats (m : Memo) : MemoStats where
  hits := m.hits
  misses := m.misses
  provisional := m.provisional
  deferred := m.deferred
  entries := m.entries.length

/-! ## Entries -/

theorem state?_set_self (m : Memo) (key : MemoKey) (s : MemoState) :
    (m.set key s).state? key = some s := by
  simp [state?, set]

theorem lookup_filter_ne {key other : MemoKey} (h : other ≠ key)
    (es : List (MemoKey × MemoState)) :
    (es.filter (·.1 ≠ key)).lookup other = es.lookup other := by
  induction es with
  | nil => rfl
  | cons e es ih =>
    obtain ⟨k, s⟩ := e
    by_cases hk : k = key
    · subst hk
      have hne : (other == k) = false := by simpa using h
      simpa [List.lookup_cons, hne] using ih
    · by_cases ho : other = k
      · subst ho
        simp [hk]
      · have hne : (other == k) = false := by simpa using ho
        simpa [List.lookup_cons, hk, hne] using ih

theorem state?_set_of_ne (m : Memo) {key other : MemoKey} (h : other ≠ key) (s : MemoState) :
    (m.set key s).state? other = m.state? other := by
  have hne : (other == key) = false := by simpa using h
  simp only [state?, set, List.lookup_cons, hne]
  exact lookup_filter_ne h m.entries

theorem state?_remove_of_ne (m : Memo) {key other : MemoKey} (h : other ≠ key) :
    (m.remove key).state? other = m.state? other :=
  lookup_filter_ne h m.entries

theorem state?_remove_self (m : Memo) (key : MemoKey) : (m.remove key).state? key = none := by
  simp only [state?, remove]
  induction m.entries with
  | nil => rfl
  | cons e es ih =>
    obtain ⟨k, s⟩ := e
    by_cases hk : k = key
    · subst hk
      simpa using ih
    · have hne : (key == k) = false := by simpa using fun h : key = k => hk h.symm
      simpa [List.lookup_cons, hk, hne] using ih

end Memo

end ExportSurface
