import ExportSurface.Proofs.MemoStack
/-!
# Calls on a memo

A memo is called in three ways: a key is looked up, an evaluation of a key is
opened, and the innermost one is closed with an answer. Evaluations are opened
for keys without an entry only (`Memo.Disciplined`). Each evaluation keeps one
number, which it passes on to the one around it when it is closed. That number
tells just what it has to: it lies below the depth of the evaluation where one
of the lookups since it was opened, its own or those inside evaluations that
were closed since, has hit an entry in flight below that depth
(`Memo.Balanced.low_lt_iff`). So an answer is dropped where it is `true` and
leaned on an evaluation opened before, and in no other case
(`Memo.resolve_drops_iff`).
-/

namespace ExportSurface

namespace Memo

/-- A call on a memo. -/
inductive Call where
  | lookup (key : MemoKey)
  /-- An evaluation is opened. -/
  | begin (key : MemoKey)
  /-- The innermost evaluation is closed. -/
  | resolve (key : MemoKey) (answer : Bool)
deriving DecidableEq, Repr

/-- The memo after a call. -/
def afterCall (m : Memo) : Call → Memo
  | .lookup key => (m.lookup key).2
  | .begin key => m.begin key
  | .resolve key answer => (m.resolve key answer).2

/-- The memo after calls one after another. -/
def afterCalls (m : Memo) (calls : List Call) : Memo := calls.foldl afterCall m

@[simp] theorem afterCalls_nil (m : Memo) : m.afterCalls [] = m := rfl

@[simp] theorem afterCalls_cons (m : Memo) (c : Call) (cs : List Call) :
    m.afterCalls (c :: cs) = (m.afterCall c).afterCalls cs := rfl

@[simp] theorem afterCalls_append (m : Memo) (cs cs' : List Call) :
    m.afterCalls (cs ++ cs') = (m.afterCalls cs).afterCalls cs' :=
  List.foldl_append

/-! ## Disciplined calls -/

/-- Calls on a fresh memo that leave evaluations of the keys open, the innermost
first: evaluations are opened for keys without an entry, and it is the innermost
one that is closed. -/
inductive Disciplined : List Call → List MemoKey → Prop
  | nil : Disciplined [] []
  | lookup {calls : List Call} {opened : List MemoKey} (key : MemoKey) :
    Disciplined calls opened → Disciplined (calls ++ [.lookup key]) opened
  | begin {calls : List Call} {opened : List MemoKey} {key : MemoKey} :
    Disciplined calls opened → (afterCalls {} calls).state? key = none →
    Disciplined (calls ++ [.begin key]) (key :: opened)
  | resolve {calls : List Call} {opened : List MemoKey} {key : MemoKey} (answer : Bool) :
    Disciplined calls (key :: opened) → Disciplined (calls ++ [.resolve key answer]) opened

/-- Calls on a memo that close every evaluation they open, and none besides. -/
inductive Balanced : Memo → List Call → Prop
  | nil {m : Memo} : Balanced m []
  | lookup {m : Memo} {key : MemoKey} {cs : List Call} :
    Balanced (m.lookup key).2 cs → Balanced m (.lookup key :: cs)
  | nested {m : Memo} {key : MemoKey} {cs cs' : List Call} {answer : Bool} :
    m.state? key = none → Balanced (m.begin key) cs →
    Balanced (((m.begin key).afterCalls cs).resolve key answer).2 cs' →
    Balanced m (.begin key :: (cs ++ .resolve key answer :: cs'))

/-- Whether one of the lookups among the calls hits an entry that is in flight
below a depth. -/
inductive HitsBelow (bound : Nat) : Memo → List Call → Prop
  | here {m : Memo} {key : MemoKey} {depth : Nat} {cs : List Call} :
    m.state? key = some (.inFlight depth) → depth < bound →
    HitsBelow bound m (.lookup key :: cs)
  | later {m : Memo} {c : Call} {cs : List Call} :
    HitsBelow bound (m.afterCall c) cs → HitsBelow bound m (c :: cs)

variable {m : Memo} {calls cs cs' before during : List Call} {opened rest : List MemoKey}
  {key k : MemoKey} {answer : Bool} {bound depth : Nat}

/-! ### Hits -/

theorem hitsBelow_lookup_iff : HitsBelow bound m (.lookup key :: cs) ↔
    (∃ depth < bound, m.state? key = some (.inFlight depth)) ∨
      HitsBelow bound (m.lookup key).2 cs := by
  constructor
  · intro h
    cases h with
    | here hstate hlt => exact Or.inl ⟨_, hlt, hstate⟩
    | later h => exact Or.inr h
  · rintro (⟨depth, hlt, hstate⟩ | h)
    · exact .here hstate hlt
    · exact .later h

theorem hitsBelow_begin_iff :
    HitsBelow bound m (.begin key :: cs) ↔ HitsBelow bound (m.begin key) cs :=
  ⟨fun h => by cases h with | later h => exact h, .later (c := .begin key)⟩

theorem hitsBelow_resolve_iff : HitsBelow bound m (.resolve key answer :: cs) ↔
    HitsBelow bound (m.resolve key answer).2 cs :=
  ⟨fun h => by cases h with | later h => exact h, .later (c := .resolve key answer)⟩

theorem hitsBelow_append_iff : HitsBelow bound m (cs ++ cs') ↔
    HitsBelow bound m cs ∨ HitsBelow bound (m.afterCalls cs) cs' := by
  induction cs generalizing m with
  | nil => exact ⟨Or.inr, fun h => h.resolve_left nofun⟩
  | cons c cs ih =>
    constructor
    · intro h
      cases h with
      | here hstate hlt => exact Or.inl (.here hstate hlt)
      | later h => exact (ih.mp h).imp_left .later
    · rintro (h | h)
      · cases h with
        | here hstate hlt => exact .here hstate hlt
        | later h => exact .later (ih.mpr (Or.inl h))
      · exact .later (ih.mpr (Or.inr h))

/-! ## Balanced calls -/

namespace Balanced

theorem append (h : Balanced m cs) (h' : Balanced (m.afterCalls cs) cs') :
    Balanced m (cs ++ cs') := by
  induction h with
  | nil => exact h'
  | lookup _ ih => exact .lookup (ih h')
  | nested hkey hin _ _ ih =>
    rw [List.cons_append, List.append_assoc, List.cons_append]
    refine .nested hkey hin (ih ?_)
    rw [afterCalls_cons, afterCalls_append, afterCalls_cons] at h'
    exact h'

/-- **Balanced calls grow the memo.** -/
theorem grows (h : Balanced m cs) : m.Grows (m.afterCalls cs) := by
  induction h with
  | nil => exact .refl _
  | lookup _ ih => exact (grows_lookup _ _).trans ih
  | nested hkey _ _ inner ih =>
    rw [afterCalls_cons, afterCalls_append, afterCalls_cons]
    exact (grows_resolve inner hkey).trans ih

/-- No evaluation is opened for a key that is in flight. -/
theorem begin_not_mem (h : Balanced m cs) (hk : m.state? k = some (.inFlight depth)) :
    .begin k ∉ cs := by
  induction h with
  | nil => exact List.not_mem_nil
  | lookup _ ih =>
    rw [List.mem_cons, not_or]
    exact ⟨nofun, ih ((state?_lookup _ _).trans hk)⟩
  | @nested m key cs cs' answer hkey hin _ inner ih =>
    have hne : k ≠ key := by
      rintro rfl
      cases hkey.symm.trans hk
    have hgrow : m.Grows (((m.begin key).afterCalls cs).resolve key answer).2 :=
      grows_resolve hin.grows hkey
    simp only [List.mem_cons, List.mem_append, Call.begin.injEq, reduceCtorEq, false_or, not_or]
    exact ⟨hne, inner ((state?_begin_of_ne hne).trans hk), ih (hgrow.inFlight.mpr hk)⟩

end Balanced

/-! ## The number of an evaluation -/

/-- One lookup: the number of the innermost evaluation sinks below a depth where
the entry that is hit is in flight below it. -/
theorem low_lookup_lt_iff (hopen : 0 < m.openCount) :
    (m.lookup key).2.low < bound ↔
      m.low < bound ∨ ∃ depth < bound, m.state? key = some (.inFlight depth) := by
  unfold lookup
  split
  · rename_i kept hstate
    simp [hstate, low]
  · rename_i depth hstate
    have hlow := low_lean m depth hopen
    simp only [low] at hlow ⊢
    rw [hlow]
    simp only [hstate, Option.some.injEq, MemoState.inFlight.injEq, exists_eq_right']
    omega
  · rename_i hstate
    simp [hstate, low]

theorem low_begin (m : Memo) (key : MemoKey) : (m.begin key).low = m.openCount := rfl

/-- An evaluation opened, gone through and closed: what sank its number below a
depth of those around it sinks theirs. -/
theorem low_resolve_lt_iff {m₁ : Memo} (hgrow : (m.begin key).Grows m₁)
    (hbound : bound ≤ m.openCount) (answer : Bool) :
    (m₁.resolve key answer).2.low < bound ↔ m.low < bound ∨ m₁.low < bound := by
  by_cases hlow : m₁.low < m.openCount
  · have hpos : 0 < ({ m₁ with frames := m.frames } : Memo).openCount := Nat.zero_lt_of_lt hlow
    have hclosed : (m₁.resolve key answer).2.low = min m.low m₁.low :=
      (congrArg (·.head?.getD 0) (frames_resolve_of_lt hgrow hlow)).trans (low_lean _ _ hpos)
    rw [hclosed]
    omega
  · have hclosed : (m₁.resolve key answer).2.low = m.low :=
      congrArg (·.head?.getD 0) (frames_resolve_of_not_lt hgrow hlow)
    rw [hclosed]
    omega

/-- **The number tells what was hit**: over balanced calls it sinks below a depth
just where one of their lookups hits an entry in flight below it. -/
theorem Balanced.low_lt_iff (h : Balanced m cs) (hopen : 0 < m.openCount)
    (hbound : bound ≤ m.openCount) :
    (m.afterCalls cs).low < bound ↔ m.low < bound ∨ HitsBelow bound m cs := by
  induction h with
  | nil => exact ⟨Or.inl, fun h => h.resolve_right nofun⟩
  | @lookup m key cs _ ih =>
    have hcount := (grows_lookup m key).openCount
    rw [afterCalls_cons, hitsBelow_lookup_iff, ← or_assoc, ← low_lookup_lt_iff hopen]
    exact ih (hcount ▸ hopen) (hcount ▸ hbound)
  | @nested m key cs cs' answer hkey hin _ inner ih =>
    have hgrow : m.Grows (((m.begin key).afterCalls cs).resolve key answer).2 :=
      grows_resolve hin.grows hkey
    have hcount := hgrow.openCount
    -- the evaluation begins with its own depth for a number, which is no lower than the bound
    have hbegin : ¬ (m.begin key).low < bound := Nat.not_lt.mpr (low_begin m key ▸ hbound)
    have hinner := inner (Nat.succ_pos _) (Nat.le_succ_of_le hbound)
    rw [or_iff_right hbegin] at hinner
    rw [afterCalls_cons, afterCalls_append, afterCalls_cons, hitsBelow_begin_iff,
      hitsBelow_append_iff, hitsBelow_resolve_iff, ← hinner, ← or_assoc,
      ← low_resolve_lt_iff hin.grows hbound answer]
    exact ih (hcount ▸ hopen) (hcount ▸ hbound)

/-! ## Layers -/

/-- The calls layer by layer: those since each open evaluation was opened, without
those since the next one was. -/
inductive Layered : List Call → List MemoKey → Prop
  | base {cs : List Call} : Balanced {} cs → Layered cs []
  | layer {before during : List Call} {key : MemoKey} {rest : List MemoKey} :
    Disciplined before rest → Layered before rest →
    (afterCalls {} before).state? key = none →
    Balanced ((afterCalls {} before).begin key) during →
    Layered (before ++ .begin key :: during) (key :: rest)

theorem Layered.append (h : Layered calls opened) (hcs : Balanced (afterCalls {} calls) cs) :
    Layered (calls ++ cs) opened := by
  cases h with
  | base hcalls => exact .base (hcalls.append hcs)
  | layer hbefore hlayers hkey hduring =>
    rw [List.append_assoc, List.cons_append]
    rw [afterCalls_append, afterCalls_cons] at hcs
    exact .layer hbefore hlayers hkey (hduring.append hcs)

/-- **Disciplined calls come in layers.** -/
theorem Disciplined.layered (h : Disciplined calls opened) : Layered calls opened := by
  induction h with
  | nil => exact .base .nil
  | lookup key _ ih => exact ih.append (.lookup .nil)
  | begin hcalls hkey ih => exact .layer hcalls ih hkey .nil
  | resolve answer _ ih =>
    cases ih with
    | layer _ hlayers hkey hduring =>
      rw [List.append_assoc, List.cons_append]
      exact hlayers.append (.nested hkey hduring .nil)

/-! ## Entries in flight -/

/-- Evaluations of the keys are open, the innermost first, and no others. -/
structure Opens (m : Memo) (opened : List MemoKey) : Prop where
  openCount : m.openCount = opened.length
  inFlight_iff : ∀ key depth,
    m.state? key = some (.inFlight depth) ↔ opened.reverse[depth]? = some key

theorem Opens.of_grows {m' : Memo} (h : m.Opens opened) (hgrows : m.Grows m') :
    m'.Opens opened where
  openCount := hgrows.openCount.trans h.openCount
  inFlight_iff key depth := hgrows.inFlight.trans (h.inFlight_iff key depth)

theorem opens_empty : ({} : Memo).Opens [] := ⟨rfl, fun _ _ => ⟨nofun, nofun⟩⟩

/-- An evaluation opened for a key without an entry is the innermost one. -/
theorem Opens.begin (h : m.Opens opened) (hkey : m.state? key = none) :
    (m.begin key).Opens (key :: opened) where
  openCount := congrArg Nat.succ h.openCount
  inFlight_iff k depth := by
    have hlen : opened.reverse.length = m.openCount := by rw [List.length_reverse, h.openCount]
    have hnew : ∀ d : Nat, opened.reverse[d]? ≠ some key := by
      intro d hd
      cases hkey.symm.trans ((h.inFlight_iff key d).mpr hd)
    rw [List.reverse_cons]
    rcases Nat.lt_trichotomy depth opened.reverse.length with hlt | heq | hgt
    · rw [List.getElem?_append_left hlt]
      by_cases hk : k = key
      · subst hk
        rw [state?_begin_self]
        refine iff_of_false (fun heq => ?_) (hnew depth)
        cases heq
        exact absurd hlt (Nat.not_lt.mpr (Nat.le_of_eq hlen))
      · rw [state?_begin_of_ne hk]
        exact h.inFlight_iff k depth
    · subst heq
      rw [List.getElem?_append_right (Nat.le_refl _), Nat.sub_self, hlen]
      by_cases hk : k = key
      · subst hk
        exact iff_of_true (state?_begin_self m k) rfl
      · rw [state?_begin_of_ne hk, h.inFlight_iff, ← hlen, List.getElem?_eq_none (Nat.le_refl _)]
        exact iff_of_false nofun fun heq => hk (Option.some.inj heq).symm
    · rw [List.getElem?_eq_none (by simpa [Nat.add_one_le_iff] using hgt)]
      refine iff_of_false (fun hstate => ?_) nofun
      by_cases hk : k = key
      · subst hk
        rw [state?_begin_self] at hstate
        cases hstate
        omega
      · rw [state?_begin_of_ne hk, h.inFlight_iff,
          List.getElem?_eq_none (Nat.le_of_lt hgt)] at hstate
        cases hstate

theorem Layered.opens (h : Layered calls opened) : (afterCalls {} calls).Opens opened := by
  induction h with
  | base hcalls => exact opens_empty.of_grows hcalls.grows
  | layer _ _ hkey hduring ih =>
    rw [afterCalls_append, afterCalls_cons]
    exact (ih.begin hkey).of_grows hduring.grows

/-! ## Answers that are dropped -/

/-- **An answer is dropped just where it has to be.** After any disciplined calls on
a fresh memo, the entries in flight are the open evaluations, each with its place on
the stack for a depth. The calls since the innermost one was opened, the last time
that its key was, close whatever they open. If it is closed now, a `true` is dropped
with the entry where one of the lookups among those calls has hit an entry in flight
that was opened before. Every other answer is kept, and no other entry is touched. -/
theorem resolve_drops_iff (h : Disciplined calls opened) :
    (afterCalls {} calls).Opens opened ∧
      ∀ key rest, opened = key :: rest →
        ∃ before during, calls = before ++ .begin key :: during ∧ .begin key ∉ during ∧
          Disciplined before rest ∧ Balanced ((afterCalls {} before).begin key) during ∧
          ∀ answer kept m', (afterCalls {} calls).resolve key answer = (kept, m') →
            (kept = false ↔ answer = true ∧
              HitsBelow rest.length ((afterCalls {} before).begin key) during) ∧
            m'.state? key = (if kept then some (.resolved answer) else none) ∧
            ∀ other, other ≠ key → m'.state? other = (afterCalls {} calls).state? other := by
  refine ⟨h.layered.opens, ?_⟩
  rintro key rest rfl
  cases h.layered with
  | @layer before during _ _ hbefore hlayers hkey hduring =>
    refine ⟨before, during, rfl, hduring.begin_not_mem (state?_begin_self _ key), hbefore, hduring,
      fun answer kept m' hresolve => ?_⟩
    obtain rfl : _ = kept := congrArg Prod.fst hresolve
    obtain rfl : _ = m' := congrArg Prod.snd hresolve
    refine ⟨?_, state?_resolve_self _ key answer, fun other => state?_resolve_of_ne⟩
    have hcount : (afterCalls {} before).openCount = rest.length := hlayers.opens.openCount
    have hlow := hduring.low_lt_iff (Nat.succ_pos _) (Nat.le_succ (afterCalls {} before).openCount)
    rw [afterCalls_append, afterCalls_cons, afterCall, resolve_fst_eq_false_iff hduring.grows, hlow,
      low_begin, or_iff_right (Nat.lt_irrefl _), hcount]

/-- Calls that open three evaluations inside one another. The innermost one hits the
outermost and is closed. -/
def innerHit : List Call :=
  [] ++ [.begin (.ofClass "A")] ++ [.begin (.ofType "B")] ++ [.begin (.ofClass "B")]
    ++ [.lookup (.ofClass "A")] ++ [.resolve (.ofClass "B") true]

/-- The evaluation in the middle drops a `true`, so it leaned on the one opened
before, though the hit was not its own. -/
theorem resolve_drops_iff_innerHit :
    Disciplined innerHit [.ofType "B", .ofClass "A"] ∧
      ∃ before during, innerHit = before ++ .begin (.ofType "B") :: during ∧
        HitsBelow 1 ((afterCalls {} before).begin (.ofType "B")) during := by
  have h : Disciplined innerHit [.ofType "B", .ofClass "A"] := by
    have hopened : Disciplined ([] ++ [.begin (.ofClass "A")] ++ [.begin (.ofType "B")]
        ++ [.begin (.ofClass "B")]) [.ofClass "B", .ofType "B", .ofClass "A"] :=
      ((Disciplined.nil.begin (by decide)).begin (by decide)).begin (by decide)
    exact (hopened.lookup (.ofClass "A")).resolve true
  obtain ⟨before, during, hcalls, -, -, -, hanswer⟩ := (resolve_drops_iff h).2 _ _ rfl
  exact ⟨h, before, during, hcalls, ((hanswer true _ _ rfl).1.mp (by decide)).2⟩

end Memo

end ExportSurface
