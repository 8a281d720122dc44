import ExportSurface.Proofs.MemoStack
import ExportSurface.Proofs.Surface
/-!
# What a memo knows

A memo brackets the export surface while evaluations are open. Below lies
what can be exported if the subjects in flight can that the innermost
evaluation was told about (`Evaluator.floor`), above what can be exported if
all can that are not known to fail (`Evaluator.ceiling`). A sound memo keeps a
`true` only of what lies on the surface and a `false` only of what lies
outside the ceiling (`Evaluator.Sound`), and an answer worked out from such a
memo, kept or dropped, lies on its side of the bracket
(`Evaluator.answered_resolve`).

The memo tells subjects apart by their keys alone. That is enough where class
types of one key are one type up to nullability (`Vocabulary`).
-/

namespace ExportSurface

/-- The key of the entry about a subject. -/
def Subject.key : Subject → MemoKey
  | .ofType t => .ofType t.key
  | .ofClass c => .ofClass c.name.text

theorem Subject.key_eq_of_erased_eq {x y : Subject} (h : x.erased = y.erased) :
    x.key = y.key := by
  cases y with
  | ofClass c => rw [Subject.eq_of_erased_eq_ofClass h]
  | ofType u =>
    obtain ⟨t, rfl, htu⟩ := Subject.exists_of_erased_eq_ofType h
    rw [Subject.key, Subject.key, ← t.key_erased, htu, u.key_erased]

/-- Types among which a key stands for one class type, up to nullability. -/
structure Vocabulary where
  types : Set TypeRef
  faithful : ∀ t ∈ types, ∀ u ∈ types, t.className?.isSome → u.className?.isSome →
    t.key = u.key → t.erased = u.erased

/-- Classes of one key have one name. -/
theorem ClassDecl.name_eq_of_key_eq {c d : ClassDecl}
    (h : (Subject.ofClass c).key = (Subject.ofClass d).key) : c.name = d.name :=
  QualifiedName.eq_of_text_eq (MemoKey.ofClass.inj h)

namespace Memo

/-- The keys in flight from a depth on. -/
def openFrom (m : Memo) (low : Nat) : Set MemoKey :=
  {k | ∃ d, low ≤ d ∧ m.state? k = some (.inFlight d)}

/-- The keys with an answer kept. -/
def kept (m : Memo) (answer : Bool) : Set MemoKey :=
  {k | m.state? k = some (.resolved answer)}

/-- The keys not known to fail. -/
def spared (m : Memo) : Set MemoKey :=
  {k | m.state? k ≠ some (.resolved false)}

variable {m m' : Memo} {low : Nat}

theorem openFrom_subset_spared : m.openFrom low ⊆ m.spared := by
  rintro k ⟨d, -, hk⟩ hfalse
  rw [hk] at hfalse
  cases hfalse

theorem openFrom_anti {low' : Nat} (h : low' ≤ low) : m.openFrom low ⊆ m.openFrom low' :=
  fun _ ⟨d, hd, hk⟩ => ⟨d, Nat.le_trans h hd, hk⟩

theorem openFrom_eq_empty (hm : m.Stacked) (h : m.openCount ≤ low) : m.openFrom low = ∅ := by
  refine Set.eq_empty_of_forall_notMem ?_
  rintro k ⟨d, hd, hk⟩
  have := hm.depth_lt hk
  omega

theorem Grows.openFrom_eq (h : Grows m m') : m'.openFrom low = m.openFrom low := by
  ext k
  exact exists_congr fun d => and_congr_right fun _ => h.inFlight

theorem Grows.spared_subset (h : Grows m m') : m'.spared ⊆ m.spared :=
  fun _ hk hfalse => hk (h.resolved hfalse)

end Memo

namespace Evaluator

variable (e : Evaluator) (V : Vocabulary)

/-! ## Subjects and their keys -/

/-- The subjects a memo may have entries about: class types of the vocabulary
without star projections, and the evaluator's own classes. -/
def remembered : Set Subject := fun
  | .ofType t => (∃ u ∈ V.types, u.erased = t.erased) ∧ t.className?.isSome ∧ t.hasStar = false
  | .ofClass c => e.classNamed? c.name = some c

/-- The subjects with one of the keys. -/
def keyed (K : Set MemoKey) : Set Subject :=
  {x | x ∈ remembered e V ∧ x.key ∈ K}

variable {e V} {K L : Set MemoKey} {x y : Subject}

theorem remembered_of_erased_eq (h : x.erased = y.erased) (hx : x ∈ remembered e V) :
    y ∈ remembered e V := by
  cases y with
  | ofClass c =>
    rw [Subject.eq_of_erased_eq_ofClass h] at hx
    exact hx
  | ofType u =>
    obtain ⟨t, rfl, htu⟩ := Subject.exists_of_erased_eq_ofType h
    obtain ⟨⟨w, hw, hwt⟩, hnamed, hstar⟩ := hx
    refine ⟨⟨w, hw, hwt.trans htu⟩, ?_, ?_⟩
    · rwa [← u.className?_erased, ← htu, t.className?_erased]
    · rwa [← u.hasStar_erased, ← htu, t.hasStar_erased]

/-- **A key stands for one subject**, up to nullability. -/
theorem erased_eq_of_key_eq (hx : x ∈ remembered e V) (hy : y ∈ remembered e V)
    (h : x.key = y.key) : x.erased = y.erased := by
  cases x with
  | ofType t =>
    cases y with
    | ofClass c => cases h
    | ofType u =>
      obtain ⟨⟨v, hv, hvt⟩, htn, -⟩ := hx
      obtain ⟨⟨w, hw, hwu⟩, hun, -⟩ := hy
      have hvn : v.className?.isSome := by
        rwa [← v.className?_erased, hvt, t.className?_erased]
      have hwn : w.className?.isSome := by
        rwa [← w.className?_erased, hwu, u.className?_erased]
      have hkey : v.key = w.key := by
        rw [← v.key_erased, hvt, t.key_erased, ← w.key_erased, hwu, u.key_erased]
        exact MemoKey.ofType.inj h
      have herased := V.faithful v hv w hw hvn hwn hkey
      rw [Subject.erased, Subject.erased, ← hvt, herased, hwu]
  | ofClass c =>
    cases y with
    | ofType u => cases h
    | ofClass d =>
      have hname : c.name = d.name := ClassDecl.name_eq_of_key_eq h
      have hsame : some c = some d := by
        rw [← (show e.classNamed? c.name = some c from hx), hname]
        exact hy
      rw [Option.some.inj hsame]

theorem keyed_mono (h : K ⊆ L) : keyed e V K ⊆ keyed e V L :=
  fun _ hx => ⟨hx.1, h hx.2⟩

theorem keyed_empty : keyed e V ∅ = ∅ :=
  Set.eq_empty_of_forall_notMem fun _ hx => hx.2

theorem keyed_union : keyed e V (K ∪ L) = keyed e V K ∪ keyed e V L := by
  ext x
  exact and_or_left

theorem blind_keyed : Subject.Blind (keyed e V K) := by
  intro x y hxy hx
  refine ⟨remembered_of_erased_eq hxy hx.1, ?_⟩
  rw [← Subject.key_eq_of_erased_eq hxy]
  exact hx.2

/-! ## The bracket -/

variable (e V)

/-- What can be exported if what the innermost evaluation leaned on can. -/
def floor (m : Memo) : Set Subject := surfaceGiven e (keyed e V (m.openFrom m.low))

/-- What can be exported if all can that is in flight. -/
def provisional (m : Memo) : Set Subject := surfaceGiven e (keyed e V (m.openFrom 0))

/-- What can be exported if all can that is not known to fail. -/
def ceiling (m : Memo) : Set Subject := surfaceGiven e (keyed e V m.spared)

variable {e V} {m m₁ m' : Memo} {answer : Bool}

theorem floor_subset_provisional : floor e V m ⊆ provisional e V m :=
  surfaceGiven_mono (keyed_mono (Memo.openFrom_anti (Nat.zero_le _)))

theorem provisional_subset_ceiling : provisional e V m ⊆ ceiling e V m :=
  surfaceGiven_mono (keyed_mono Memo.openFrom_subset_spared)

theorem surface_subset_surfaceGiven {A : Set Subject} : surface e ⊆ surfaceGiven e A := by
  rw [← surfaceGiven_empty]
  exact surfaceGiven_mono (Set.empty_subset A)

/-- With nothing in flight, the floor is the surface. -/
theorem floor_of_openCount_eq_zero (hm : m.Stacked) (h : m.openCount = 0) :
    floor e V m = surface e := by
  rw [floor, Memo.openFrom_eq_empty hm (h ▸ Nat.zero_le _), keyed_empty, surfaceGiven_empty]

theorem floor_subset_of_grows (h : Memo.Grows m m') : floor e V m ⊆ floor e V m' := by
  refine surfaceGiven_mono (keyed_mono ?_)
  rw [h.openFrom_eq]
  exact Memo.openFrom_anti h.low_le

theorem ceiling_subset_of_grows (h : Memo.Grows m m') : ceiling e V m' ⊆ ceiling e V m :=
  surfaceGiven_mono (keyed_mono h.spared_subset)

/-! ## Sound memos -/

variable (e V)

/-- A memo whose kept answers hold whatever becomes of what is in flight. -/
structure Sound (m : Memo) : Prop where
  stacked : m.Stacked
  accepted : ∀ x ∈ keyed e V (m.kept true), x ∈ surface e
  rejected : ∀ x ∈ keyed e V (m.kept false), x ∉ ceiling e V m

/-- An answer about a subject on its side of the bracket, and the memo left
behind it sound. -/
structure Answered (m : Memo) (x : Subject) (answer : Bool) (m' : Memo) : Prop where
  sound : Sound e V m'
  grows : m.Grows m'
  mem_floor : answer = true → x ∈ floor e V m'
  not_mem_ceiling : answer = false → x ∉ ceiling e V m'
  /-- With nothing in flight, an answer is kept where the memo has entries. -/
  kept : x ∈ remembered e V → m.openCount = 0 → m'.state? x.key = some (.resolved answer)

variable {e V}

theorem sound_empty : Sound e V {} where
  stacked := ⟨fun h => (by cases h), fun h => (by cases h)⟩
  accepted x hx := by cases hx.2
  rejected x hx := by cases hx.2

/-- Soundness hangs on the entries alone. -/
theorem Sound.of_state?_eq (hm : Sound e V m) (hgrow : m.Grows m')
    (h : ∀ k, m'.state? k = m.state? k) : Sound e V m' where
  stacked := hgrow.stacked hm.stacked
  accepted x hx := hm.accepted x ⟨hx.1, (h x.key).symm.trans hx.2⟩
  rejected x hx hin :=
    hm.rejected x ⟨hx.1, (h x.key).symm.trans hx.2⟩ (ceiling_subset_of_grows hgrow hin)

theorem Sound.lookup (hm : Sound e V m) (key : MemoKey) : Sound e V (m.lookup key).2 :=
  hm.of_state?_eq (Memo.grows_lookup m key) fun _ => Memo.state?_lookup m key

/-- **What is looked up and found is answered.** -/
theorem answered_lookup (hm : Sound e V m) (hx : x ∈ remembered e V)
    (h : (m.lookup x.key).1 = some answer) :
    Answered e V m x answer (m.lookup x.key).2 := by
  have hgrows : m.Grows (m.lookup x.key).2 := Memo.grows_lookup m x.key
  rcases Memo.state?_of_lookup_fst_eq_some h with hstate | ⟨rfl, d, hstate⟩
  · refine ⟨hm.lookup x.key, hgrows, ?_, ?_, fun _ _ => ?_⟩
    · rintro rfl
      exact surface_subset_surfaceGiven (hm.accepted x ⟨hx, hstate⟩)
    · rintro rfl hin
      exact hm.rejected x ⟨hx, hstate⟩ (ceiling_subset_of_grows hgrows hin)
    · rw [Memo.state?_lookup, hstate]
  · -- the entry is in flight, and from here on the innermost evaluation leans on it
    refine ⟨hm.lookup x.key, hgrows, fun _ => ?_, (fun hfalse => by cases hfalse),
      fun _ hopen => ?_⟩
    · refine subset_surfaceGiven ⟨hx, d, Memo.low_lookup_le hm.stacked hstate, ?_⟩
      rwa [Memo.state?_lookup]
    · have := hm.stacked.depth_lt hstate
      omega

theorem Sound.begin {key : MemoKey} (hm : Sound e V m) (hkey : m.state? key = none) :
    Sound e V (m.begin key) := by
  have hresolved : ∀ k b, (m.begin key).state? k = some (.resolved b) ↔
      m.state? k = some (.resolved b) := by
    intro k b
    by_cases hk : k = key
    · subst hk
      rw [Memo.state?_begin_self, hkey]
      simp
    · rw [Memo.state?_begin_of_ne hk]
  have hspared : (m.begin key).spared = m.spared :=
    Set.ext fun k => not_congr (hresolved k false)
  refine ⟨Memo.stacked_begin hm.stacked key, fun x hx => ?_, fun x hx => ?_⟩
  · exact hm.accepted x ⟨hx.1, (hresolved _ _).mp hx.2⟩
  · rw [ceiling, hspared]
    exact hm.rejected x ⟨hx.1, (hresolved _ _).mp hx.2⟩

/-! ## Closing an evaluation -/

section Close

variable (hm : Sound e V m) (hx : x ∈ remembered e V) (hkey : m.state? x.key = none)
  (hgrow : (m.begin x.key).Grows m₁) (hm₁ : Sound e V m₁)

include hx hgrow in
/-- **A `true` does not lean on itself**: whoever meets the criterion within
the floor can be exported if those in flight before can. -/
theorem mem_surfaceGiven_of_meets_floor (h : Meets e (floor e V m₁) x) :
    x ∈ surfaceGiven e (keyed e V (m.openFrom m₁.low)) := by
  have hopen : m₁.openFrom m₁.low ⊆ m.openFrom m₁.low ∪ {x.key} := by
    rw [hgrow.openFrom_eq]
    rintro k ⟨d, hd, hk⟩
    by_cases hself : k = x.key
    · exact Or.inr hself
    · rw [Memo.state?_begin_of_ne hself] at hk
      exact Or.inl ⟨d, hd, hk⟩
  have hfloor : floor e V m₁ ⊆
      surfaceGiven e (keyed e V (m.openFrom m₁.low) ∪ keyed e V {x.key}) := by
    rw [← keyed_union]
    exact surfaceGiven_mono (keyed_mono hopen)
  have hblind : Subject.Blind
      (surfaceGiven e (keyed e V (m.openFrom m₁.low) ∪ keyed e V {x.key})) := by
    rw [← keyed_union]
    exact blind_surfaceGiven blind_keyed
  have hself : x ∈ keyed e V (m.openFrom m₁.low) ∪ keyed e V {x.key} := Or.inr ⟨hx, rfl⟩
  -- whatever has the key of `x` differs from it in nullability alone, to which the
  -- criterion is blind
  refine surfaceGiven_discharge (fun y hy => ?_) (subset_surfaceGiven hself)
  exact (h.mono hfloor).of_erased_eq hblind (erased_eq_of_key_eq hx hy.1 hy.2.symm)

include hm hx hgrow in
/-- A `true` that is kept leaned on nothing, so it is one on the surface. -/
theorem mem_surface_of_kept (h : Meets e (floor e V m₁) x) (hlow : m.openCount ≤ m₁.low) :
    x ∈ surface e := by
  have hin := mem_surfaceGiven_of_meets_floor hx hgrow h
  rwa [Memo.openFrom_eq_empty hm.stacked hlow, keyed_empty, surfaceGiven_empty] at hin

include hgrow in
/-- Closing lowers the ceiling. -/
theorem ceiling_resolve_subset :
    ceiling e V (m₁.resolve x.key answer).2 ⊆ ceiling e V m₁ := by
  refine surfaceGiven_mono (keyed_mono fun k hk hfalse => ?_)
  by_cases hself : k = x.key
  · subst hself
    rw [Memo.state?_of_grows_begin hgrow] at hfalse
    cases hfalse
  · exact hk ((Memo.state?_resolve_of_ne hself).trans hfalse)

include hgrow in
/-- **A `false` is outside the ceiling it leaves.** -/
theorem not_mem_ceiling_resolve (h : ¬ Meets e (ceiling e V m₁) x) :
    x ∉ ceiling e V (m₁.resolve x.key false).2 := by
  intro hin
  rcases mem_surfaceGiven_iff.mp hin with hassumed | hmeets
  · refine hassumed.2 ((Memo.state?_resolve_eq_some_iff hgrow).mpr ⟨rfl, fun hc => ?_⟩)
    cases hc
  · exact h (hmeets.mono (ceiling_resolve_subset hgrow))

include hm hx hkey hgrow in
theorem mem_floor_resolve (h : Meets e (floor e V m₁) x) :
    x ∈ floor e V (m₁.resolve x.key answer).2 := by
  refine surfaceGiven_mono (keyed_mono ?_) (mem_surfaceGiven_of_meets_floor hx hgrow h)
  rw [(Memo.grows_resolve hgrow hkey).openFrom_eq]
  -- what the closed evaluation leaned on, the one around it leans on now
  by_cases hlow : m₁.low < m.openCount
  · exact Memo.openFrom_anti (Memo.low_resolve_le hgrow hlow)
  · rw [Memo.openFrom_eq_empty hm.stacked (Nat.le_of_not_lt hlow)]
    exact Set.empty_subset _

include hm hx hkey hgrow hm₁ in
/-- **An evaluation is closed on its side of the bracket.** A `true` that met
the criterion within the floor and a `false` that did not within the ceiling
leave the memo sound, whether they are kept or not. -/
theorem answered_resolve (htrue : answer = true → Meets e (floor e V m₁) x)
    (hfalse : answer = false → ¬ Meets e (ceiling e V m₁) x) :
    Answered e V m x answer (m₁.resolve x.key answer).2 := by
  have hgrows : m.Grows (m₁.resolve x.key answer).2 := Memo.grows_resolve hgrow hkey
  have hout : answer = false → x ∉ ceiling e V (m₁.resolve x.key answer).2 := by
    rintro rfl
    exact not_mem_ceiling_resolve hgrow (hfalse rfl)
  refine ⟨⟨hgrows.stacked hm.stacked, ?_, ?_⟩, hgrows, fun hb => ?_, hout, fun _ hopen => ?_⟩
  · -- an entry with the key of `x` was written now, all others were there before
    rintro y ⟨hy, hstate⟩
    by_cases hyx : y.key = x.key
    · have hxy := erased_eq_of_key_eq hx hy hyx.symm
      change _ = _ at hstate
      rw [hyx, Memo.state?_resolve_eq_some_iff hgrow] at hstate
      have hb : answer = true := by simpa using hstate.1.symm
      have hin := mem_surface_of_kept hm hx hgrow (htrue hb) (hstate.2 hb)
      rw [← surfaceGiven_empty] at hin ⊢
      exact blind_surfaceGiven (fun _ _ _ h => h.elim) x y hxy hin
    · exact hm₁.accepted y ⟨hy, (Memo.state?_resolve_of_ne hyx).symm.trans hstate⟩
  · rintro y ⟨hy, hstate⟩
    by_cases hyx : y.key = x.key
    · have hxy := erased_eq_of_key_eq hx hy hyx.symm
      change _ = _ at hstate
      rw [hyx, Memo.state?_resolve_eq_some_iff hgrow] at hstate
      have hb : answer = false := by simpa using hstate.1.symm
      exact fun hin => hout hb (blind_surfaceGiven blind_keyed y x hxy.symm hin)
    · have hkept := (Memo.state?_resolve_of_ne hyx).symm.trans hstate
      exact fun hin => hm₁.rejected y ⟨hy, hkept⟩ (ceiling_resolve_subset hgrow hin)
  · exact mem_floor_resolve hm hx hkey hgrow (htrue hb)
  · exact (Memo.state?_resolve_eq_some_iff hgrow).mpr ⟨rfl, fun _ => hopen ▸ Nat.zero_le _⟩

end Close

end Evaluator

end ExportSurface
