import ExportSurface.Proofs.OpenEvaluations
/-!
# What the memo counts

A key that was looked up in vain has an evaluation opened for it, which ends
with an entry or with an answer that is dropped. So between the steps of an
evaluation the misses are the entries and the dropped answers together
(`Memo.Booked`), and no step of a course changes that (`Evaluator.Course.booked`).
As a question closes what it opens, also when it fails, the memo of an evaluator
is at rest after each (`Evaluator.at_rest_after`).
-/

namespace ExportSurface

namespace Memo

variable {m : Memo} {key : MemoKey} {answer b : Bool} {state : MemoState}
  {es : List (MemoKey × MemoState)}

/-! ## The number of entries -/

theorem filter_eq_self_of_forall (h : ∀ entry ∈ es, entry.1 ≠ key) :
    es.filter (·.1 ≠ key) = es :=
  List.filter_eq_self.mpr fun entry hentry => decide_eq_true (h entry hentry)

theorem ne_of_lookup_eq_none (h : es.lookup key = none) : ∀ entry ∈ es, entry.1 ≠ key := by
  rintro entry hentry rfl
  have hne := List.lookup_eq_none_iff.mp h entry hentry
  simp at hne

/-- Of entries of different keys, those of one key are one. -/
theorem length_filter_ne (hnodup : (es.map (·.1)).Nodup) (h : es.lookup key = some state) :
    (es.filter (·.1 ≠ key)).length + 1 = es.length := by
  induction es with
  | nil => cases h
  | cons entry es ih =>
    obtain ⟨hnew, hnodup⟩ := List.nodup_cons.mp hnodup
    by_cases hkey : entry.1 = key
    · subst hkey
      have hrest : ∀ other ∈ es, other.1 ≠ entry.1 := fun other hother heq =>
        hnew (List.mem_map.mpr ⟨other, hother, heq⟩)
      rw [List.filter_cons_of_neg (by simp), filter_eq_self_of_forall hrest, List.length_cons]
    · have hfalse : (key == entry.1) = false := beq_eq_false_iff_ne.mpr (Ne.symm hkey)
      rw [List.lookup_cons, hfalse] at h
      rw [List.filter_cons_of_pos (by simpa using hkey), List.length_cons, List.length_cons,
        ih hnodup h]

theorem nodup_filter_ne (hnodup : (es.map (·.1)).Nodup) :
    ((es.filter (·.1 ≠ key)).map (·.1)).Nodup :=
  hnodup.sublist (List.filter_sublist.map _)

/-- The entry that is set has a key of its own. -/
theorem nodup_set (hnodup : (m.entries.map (·.1)).Nodup) :
    ((m.set key state).entries.map (·.1)).Nodup := by
  refine List.nodup_cons.mpr ⟨fun hmem => ?_, nodup_filter_ne hnodup⟩
  obtain ⟨entry, hentry, heq⟩ := List.mem_map.mp hmem
  have hne := (List.mem_filter.mp hentry).2
  simp [heq] at hne

theorem length_set_of_none (h : m.state? key = none) (state : MemoState) :
    (m.set key state).entries.length = m.entries.length + 1 :=
  congrArg (·.length + 1) (filter_eq_self_of_forall (ne_of_lookup_eq_none h))

theorem length_set_of_some {old : MemoState} (hnodup : (m.entries.map (·.1)).Nodup)
    (h : m.state? key = some old) : (m.set key state).entries.length = m.entries.length :=
  length_filter_ne hnodup h

theorem lean_eq (m : Memo) (d : Nat) : m.lean d = { m with frames := (m.lean d).frames } := by
  unfold lean
  split
  · rfl
  · rfl

/-! ## The books -/

/-- The books of a memo are in order: no key has two entries, every miss is
accounted for by an entry or by an answer that was dropped, and hits on entries in
flight are hits. -/
structure Booked (m : Memo) : Prop where
  nodup : (m.entries.map (·.1)).Nodup
  misses_eq : m.misses = m.entries.length + m.deferred
  provisional_le : m.provisional ≤ m.hits

namespace Booked

theorem empty : ({} : Memo).Booked := ⟨List.nodup_nil, rfl, Nat.le_refl 0⟩

/-- A lookup that finds an answer. -/
theorem lookup (h : m.Booked) (hfound : (m.lookup key).1 = some b) : (m.lookup key).2.Booked := by
  unfold Memo.lookup at hfound ⊢
  split at hfound
  · exact ⟨h.nodup, h.misses_eq, Nat.le_succ_of_le h.provisional_le⟩
  · rename_i depth _
    rw [lean_eq]
    exact ⟨h.nodup, h.misses_eq, Nat.succ_le_succ h.provisional_le⟩
  · cases hfound

/-- **A lookup that finds nothing, and the evaluation opened for the key.** -/
theorem begin (h : m.Booked) (hkey : m.state? key = none) :
    ((m.lookup key).2.begin key).Booked := by
  unfold Memo.lookup
  rw [hkey]
  refine ⟨nodup_set h.nodup, ?_, h.provisional_le⟩
  have hlength := length_set_of_none hkey (.inFlight m.openCount)
  have hmisses := h.misses_eq
  change m.misses + 1 = (m.set key (.inFlight m.openCount)).entries.length + m.deferred
  omega

/-- **An evaluation closed**, whether the answer is kept or dropped. -/
theorem resolve (h : m.Booked) (hkey : m.state? key = some state) :
    (m.resolve key answer).2.Booked := by
  have hmisses := h.misses_eq
  have hset : ∀ kept, (m.set key kept).entries.length = m.entries.length := fun _ =>
    length_set_of_some h.nodup hkey
  unfold Memo.resolve
  dsimp only
  split
  · rw [lean_eq]
    cases answer with
    | true =>
      refine ⟨nodup_filter_ne h.nodup, ?_, h.provisional_le⟩
      have hlength := length_filter_ne h.nodup hkey
      change m.misses = (m.entries.filter (·.1 ≠ key)).length + (m.deferred + 1)
      omega
    | false =>
      exact ⟨nodup_set h.nodup, hmisses.trans (congrArg (· + _) (hset _).symm), h.provisional_le⟩
  · exact ⟨nodup_set h.nodup, hmisses.trans (congrArg (· + _) (hset _).symm), h.provisional_le⟩

end Booked

/-- A memo at rest: no evaluation is open, no entry is in flight, and the books are
in order. -/
structure AtRest (m : Memo) : Prop extends Booked m where
  openCount_eq : m.openCount = 0
  not_inFlight : ∀ key depth, m.state? key ≠ some (.inFlight depth)

theorem atRest_empty : ({} : Memo).AtRest := ⟨.empty, rfl, nofun⟩

end Memo

namespace Evaluator

variable {e : Evaluator} {α : Type} {stack : List MemoKey} {task : Task α} {s s' s₂ : Session}
  {moments : List Moment} {r : Ending α} {key : MemoKey} {b : Bool}

/-! ## Questions keep the books -/

/-- An evaluation gone through and closed. -/
theorem booked_closed (hs₂ : s₂.memo.Booked) (hgrows : (opened s key).memo.Grows s₂.memo) :
    (closed s₂ key b).memo.Booked :=
  hs₂.resolve (Memo.state?_of_grows_begin hgrows)

/-- **A course keeps the books**, whichever way it ends. -/
theorem Course.booked (h : Course e stack task s moments r s') (hs : s.memo.Booked) :
    s'.memo.Booked := by
  induction h with
  | done => exact hs
  | fail => exact hs
  | ask _ _ first rest => exact rest (first hs)
  | askBroken _ ih => exact ih hs
  | transient _ _ ih => exact ih hs
  | typeKnown _ hfound => exact hs.lookup hfound
  | typeExamined _ hfound hin ih =>
    exact booked_closed (ih (hs.begin (Memo.state?_of_lookup_fst_eq_none hfound))) hin.grows
  | classKnown hfound => exact hs.lookup hfound
  | @classExamined stack s s₂ c moments r hfound hin ih =>
    have hs₂ := ih (hs.begin (Memo.state?_of_lookup_fst_eq_none hfound))
    cases r with
    | value v =>
      rw [Ending.result, concluded, memo_closedBy]
      exact hs₂.resolve (Memo.state?_of_grows_begin hin.grows)
    | broken failure keys => exact booked_closed hs₂ hin.grows

theorem booked_put (q : Question) (hs : s.memo.Booked) : ((q.put e).ask s).2.memo.Booked := by
  obtain ⟨moments, r, s', hcourse⟩ := terminates_task e q s []
  rw [hcourse.ask_put_eq]
  exact hcourse.booked hs

/-- **A question keeps the memo at rest.** -/
theorem at_rest_put (q : Question) (hs : s.memo.AtRest) : ((q.put e).ask s).2.memo.AtRest where
  toBooked := booked_put q hs.toBooked
  openCount_eq := (grows_put q s).openCount.trans hs.openCount_eq
  not_inFlight key depth hopen := hs.not_inFlight key depth ((grows_put q s).inFlight.mp hopen)

theorem at_rest_questions (qs : List Question) (hs : s.memo.AtRest) :
    (after e s qs).memo.AtRest := by
  induction qs generalizing s with
  | nil => exact hs
  | cons q qs ih => exact ih (at_rest_put q hs)

/-- **After every question the memo is at rest, and answers stay.** Whatever the
module is, whichever questions were put to an evaluator of it and however they
ended, the next one leaves no evaluation open and no entry in flight. No key has two
entries then, every miss so far is accounted for by an entry or by a dropped answer,
hits on entries in flight are no more than all hits, and every answer that was kept
before is kept still. -/
theorem at_rest_after (m : SourceModule) (options : RuleOptions) (before : List Question)
    (q : Question) :
    let e := ofModule m options
    let s := after e {} before
    let s' := ((q.put e).ask s).2
    s'.memo.AtRest ∧ ∀ key answer, s.memo.state? key = some (.resolved answer) →
      s'.memo.state? key = some (.resolved answer) :=
  ⟨at_rest_put q (at_rest_questions before Memo.atRest_empty),
    fun _ _ hkept => (grows_put q _).resolved hkept⟩

end Evaluator

end ExportSurface
