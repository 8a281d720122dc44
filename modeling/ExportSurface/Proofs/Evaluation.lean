import ExportSurface.Proofs.Scope
import ExportSurface.Proofs.Tripping
/-!
# Evaluations answer

Every question of a type or a class that an evaluation puts in a session is
answered, on its side of the bracket (`Evaluator.Replies`), unless it fails,
and then its subject is one that can (`Evaluator.Handles`). A rule whose
questions are answered that way comes to what it comes to with any set of
subjects between the floor and the ceiling (`Evaluator.run_of_within`), so
the criterion is met within the floor where the rule accepts, and not even
within the ceiling where it refuses. One step of the evaluation turns answers
about smaller or later types into an answer about a type
(`Evaluator.serves_examineType`), and the whole evaluation follows by induction
on how deep it may go (`Evaluator.serves_typeWithin`).

A verdict that is kept was worked out while other subjects were in flight, all
of which lead to the class and are led to by it (`Evaluator.JudgedOnCycle`).
-/

namespace ExportSurface

namespace Evaluator

variable (e : Evaluator) (V : Vocabulary)

/-- A verdict that names the first failing step of a class, judged as if some
subjects on reference cycles with the class could be exported, the class itself
among them if it is on one. -/
def JudgedOnCycle (c : ClassDecl) (v : Verdict) : Prop :=
  ∃ A : Set Subject, (∀ z ∈ A, Leads e (.ofClass c) z ∧ Leads e z (.ofClass c)) ∧
    (Leads e (.ofClass c) (.ofClass c) → Subject.ofClass c ∈ A) ∧
    v = Rule.firstOf (Rule.classReasons e.options (accepting (surfaceGiven e A)) c)

/-- Each class with an answer kept has a verdict to go with it. -/
def Recorded (s : Session) : Prop :=
  ∀ c b, e.classNamed? c.name = some c →
    s.memo.state? (.ofClass c.name.text) = some (.resolved b) →
    ∃ v, s.verdicts.lookup c.name = some v ∧ v.isExportable = b ∧ JudgedOnCycle e c v

/-- A session to put questions in. -/
structure Ready (s : Session) : Prop where
  sound : Sound e V s.memo
  recorded : Recorded e s

/-- The question is answered, on its side of the bracket. -/
def Replies (q : Query Bool) (x : Subject) (s : Session) : Prop :=
  ∃ b s', q.ask s = (.ok b, s') ∧ Answered e V s.memo x b s'.memo ∧ Recorded e s'

/-- The question is answered by the criterion, met within the floor or not
even within the ceiling. -/
def Judges (q : Query Bool) (x : Subject) (s : Session) : Prop :=
  ∃ b s', q.ask s = (.ok b, s') ∧ Ready e V s' ∧ s.memo.Grows s'.memo ∧
    (b = true → Meets e (floor e V s'.memo) x) ∧ (b = false → ¬ Meets e (ceiling e V s'.memo) x)

/-- The question is answered, or it fails and its subject is one that can. -/
def Handles (q : Query Bool) (x : Subject) (s : Session) : Prop :=
  Replies e V q x s ∨ q.Fails s ∧ x ∈ mayTrip e

/-- The question is answered by the criterion, or it fails and its subject is one
that can. -/
def Weighs (q : Query Bool) (x : Subject) (s : Session) : Prop :=
  Judges e V q x s ∨ q.Fails s ∧ x ∈ mayTrip e

/-- The subjects in flight. -/
def inFlight (m : Memo) : Set Subject := keyed e V (m.openFrom 0)

/-- All that is in flight leads to a subject. -/
def OpenLeads (m : Memo) (y : Subject) : Prop :=
  ∀ x ∈ keyed e V (m.openFrom 0), Leads e x y

variable {e V} {X : Set Subject} {s s' : Session} {m m' : Memo} {x y : Subject} {c : ClassDecl}
  {t u : TypeRef}

/-! ### Verdicts and criteria -/

/-- A class is exportable just where it meets its criterion. -/
theorem isExportable_firstOf_classReasons_iff :
    (Rule.firstOf (Rule.classReasons e.options (accepting X) c)).isExportable = true
      ↔ Meets e X (.ofClass c) := by
  rw [Rule.isExportable_firstOf, List.isEmpty_iff, Rule.classReasons_eq_nil_iff,
    accepting_eq_true]
  exact Iff.rfl

theorem isExportable_firstOf_functionReasons_iff {f : FunctionDecl} :
    (Rule.firstOf (Rule.functionReasons (accepting X) f)).isExportable = true
      ↔ FunctionAdmitted (fun t => Subject.ofType t ∈ X) f := by
  rw [Rule.isExportable_firstOf, List.isEmpty_iff, Rule.functionReasons_eq_nil_iff,
    accepting_eq_true]

theorem isExportable_firstOf_constructorReasons_iff {k : ConstructorDecl} :
    (Rule.firstOf (Rule.constructorReasons (accepting X) k)).isExportable = true
      ↔ ConstructorAdmitted (fun t => Subject.ofType t ∈ X) k := by
  rw [Rule.isExportable_firstOf, List.isEmpty_iff, Rule.constructorReasons_eq_nil_iff,
    accepting_eq_true]

theorem isExportable_firstOf_propertyReasons_iff {options : RuleOptions} {p : PropertyDecl} :
    (Rule.firstOf (Rule.propertyReasons options (accepting X) p)).isExportable = true
      ↔ PropertyAdmitted options (fun t => Subject.ofType t ∈ X) p := by
  rw [Rule.isExportable_firstOf, List.isEmpty_iff, Rule.propertyReasons_eq_nil_iff,
    accepting_eq_true]

theorem Replies.ready {q : Query Bool} {s : Session} (h : Replies e V q x s) :
    ∃ b s', q.ask s = (.ok b, s') ∧ Ready e V s' ∧ Answered e V s.memo x b s'.memo := by
  obtain ⟨b, s', hask, ha, hr⟩ := h
  exact ⟨b, s', hask, ⟨ha.sound, hr⟩, ha⟩

/-! ## Rules between floor and ceiling -/

/-- What is in flight stays in flight. -/
theorem inFlight_of_grows (h : m.Grows m') : inFlight e V m' = inFlight e V m := by
  rw [inFlight, h.openFrom_eq, inFlight]

/-- An answer stays the one that any set between the floor and the ceiling
gives, as the bracket narrows. -/
theorem Answered.accepting_eq {b : Bool} {m₁ : Memo} (ha : Answered e V m (.ofType t) b m₁)
    (hgrows : m₁.Grows m') (hfloor : floor e V m' ⊆ X) (hceiling : X ⊆ ceiling e V m') :
    accepting X t = b := by
  cases b with
  | true =>
    exact accepting_eq_true_iff.mpr (hfloor (floor_subset_of_grows hgrows (ha.mem_floor rfl)))
  | false =>
    exact accepting_eq_false_iff.mpr fun hin =>
      ha.not_mem_ceiling rfl (ceiling_subset_of_grows hgrows (hceiling hin))

/-- An answer is the one there is if what is in flight can be exported. -/
theorem Answered.accepting_inFlight {b : Bool} {m₁ : Memo}
    (ha : Answered e V m (.ofType t) b m₁) :
    accepting (surfaceGiven e (inFlight e V m)) t = b := by
  rw [← inFlight_of_grows ha.grows]
  exact ha.accepting_eq (Memo.Grows.refl _) floor_subset_provisional provisional_subset_ceiling

/-- **A rule whose questions are handled comes to what it comes to with any set
between the floor and the ceiling**, or it asks about a type that can fail, if
what is in flight can be exported. -/
theorem run_of_within {α : Type} {P : TypeRef → Prop} {ask : TypeRef → Query Bool} {q : Inquiry α}
    (hq : q.Within P) (hs : Ready e V s)
    (hask : ∀ t, P t → ∀ s', Ready e V s' → s.memo.Grows s'.memo →
      Handles e V (ask t) (.ofType t) s') :
    (∃ s', Ready e V s' ∧ s.memo.Grows s'.memo ∧
      ∀ X, floor e V s'.memo ⊆ X → X ⊆ ceiling e V s'.memo →
        (q.run ask).ask s = (q.eval (accepting X), s')) ∨
    (q.run ask).Fails s ∧ ∃ t ∈ q.asked (accepting (surfaceGiven e (inFlight e V s.memo))),
      Subject.ofType t ∈ mayTrip e := by
  induction q generalizing s with
  | done a => exact Or.inl ⟨s, hs, Memo.Grows.refl _, fun _ _ _ => rfl⟩
  | fail failure => exact Or.inl ⟨s, hs, Memo.Grows.refl _, fun _ _ _ => rfl⟩
  | ask t next ih =>
    rcases hask t hq.1 s hs (Memo.Grows.refl _) with hreplies | ⟨hfails, hmay⟩
    · obtain ⟨b, s₁, h₁, hready, ha⟩ := hreplies.ready
      have hstep : ((Inquiry.ask t next).run ask).ask s = ((next b).run ask).ask s₁ :=
        Query.ask_bind_of_ok h₁
      rcases ih b (hq.2 b) hready fun u hu s₂ hs₂ hg => hask u hu s₂ hs₂ (ha.grows.trans hg) with
        ⟨s', hs', hgrows, hrun⟩ | ⟨hfails, u, hu, hmay⟩
      · refine Or.inl ⟨s', hs', ha.grows.trans hgrows, fun X hfloor hceiling => ?_⟩
        rw [hstep, hrun X hfloor hceiling, Inquiry.eval, ha.accepting_eq hgrows hfloor hceiling]
      · refine Or.inr ⟨by rwa [Query.Fails, hstep], u, ?_, hmay⟩
        rw [inFlight_of_grows ha.grows] at hu
        change u ∈ t :: (next (accepting (surfaceGiven e (inFlight e V s.memo)) t)).asked _
        rw [ha.accepting_inFlight]
        exact List.mem_cons_of_mem t hu
    · exact Or.inr ⟨hfails.bind _, t, List.mem_cons_self, hmay⟩

/-- A rule that does not fail, whose questions are handled and that decides by
the criterion, judges by it or asks about a type that can fail. -/
theorem judges_of_within (value : Set Subject → Bool) {P : TypeRef → Prop}
    {ask : TypeRef → Query Bool} {q : Inquiry Bool} (hq : q.Within P) (hs : Ready e V s)
    (hask : ∀ t, P t → ∀ s', Ready e V s' → s.memo.Grows s'.memo →
      Handles e V (ask t) (.ofType t) s')
    (heval : ∀ X, q.eval (accepting X) = .ok (value X))
    (hvalue : ∀ X, value X = true ↔ Meets e X x) :
    Judges e V (q.run ask) x s ∨
      (q.run ask).Fails s ∧ InquiryTrips e (mayTrip e) (inFlight e V s.memo) q := by
  rcases run_of_within hq hs hask with ⟨s', hs', hgrows, hrun⟩ | ⟨hfails, t, ht, hmay⟩
  · have hfc : floor e V s'.memo ⊆ ceiling e V s'.memo :=
      floor_subset_provisional.trans provisional_subset_ceiling
    have hfloor := hrun (floor e V s'.memo) subset_rfl hfc
    have hceiling := hrun (ceiling e V s'.memo) hfc subset_rfl
    -- the run cannot tell the floor from the ceiling
    have hsame : value (floor e V s'.memo) = value (ceiling e V s'.memo) := by
      have := hfloor.symm.trans hceiling
      rw [heval, heval] at this
      exact Except.ok.inj (congrArg Prod.fst this)
    refine Or.inl ⟨value (floor e V s'.memo), s', ?_, hs', hgrows,
      fun hb => (hvalue _).mp hb, fun hb => ?_⟩
    · rw [hfloor, heval]
    · intro hmeets
      rw [hsame, (hvalue _).mpr hmeets] at hb
      cases hb
  · exact Or.inr ⟨hfails, Inquiry.trips_iff.mpr (Or.inr ⟨t, ht, hmay⟩)⟩

/-! ## Subjects in flight -/

theorem OpenLeads.of_grows (h : OpenLeads e V m x) (hgrow : m.Grows m') : OpenLeads e V m' x := by
  unfold OpenLeads
  rwa [hgrow.openFrom_eq]

theorem OpenLeads.trans (h : OpenLeads e V m x) (hxy : Leads e x y) : OpenLeads e V m y :=
  fun z hz => (h z hz).trans hxy

/-- What a subject leads to is led to by all in flight, the subject now among
them. -/
theorem OpenLeads.begin (h : OpenLeads e V m x) (hx : x ∈ remembered e V) (hxy : Leads e x y) :
    OpenLeads e V (m.begin x.key) y := by
  rintro z ⟨hz, d, -, hd⟩
  by_cases hself : z.key = x.key
  · exact hxy.of_erased_eq (erased_eq_of_key_eq hz hx hself) rfl
  · rw [Memo.state?_begin_of_ne hself] at hd
    exact (h z ⟨hz, d, Nat.zero_le _, hd⟩).trans hxy

/-- **What is in flight around a subject**, of what the subject leads to, has a
say in it. -/
theorem around_inFlight
    (hopen : ∀ z ∈ inFlight e V m, z.erased = x.erased ∨ Leads e z x)
    (hself : ∀ c, x = .ofClass c → x ∈ inFlight e V m) :
    Around e x (inFlight e V m ∩ {z | Leads e x z}) where
  onCycle := by
    rintro z ⟨hz, hxz⟩
    refine ⟨hxz, (hopen z hz).elim (fun hzx => ?_) id⟩
    exact Leads.of_erased_eq hzx hzx.symm hxz
  self c hc hxx := ⟨hself c hc, hxx⟩
  blind := by
    rintro z w hzw ⟨hz, hxz⟩
    exact ⟨blind_keyed z w hzw hz, Leads.of_erased_eq rfl hzw.symm hxz⟩

/-! ## Answers that are not remembered -/

/-- A subject that the memo has no entry about is answered by its criterion
alone. -/
theorem Judges.replies {q : Query Bool} (h : Judges e V q x s) (hx : x ∉ remembered e V) :
    Replies e V q x s := by
  obtain ⟨b, s', hask, hs', hgrows, htrue, hfalse⟩ := h
  refine ⟨b, s', hask, ⟨hs'.sound, hgrows, fun hb => ?_, fun hb hin => ?_, fun hrem => ?_⟩,
    hs'.recorded⟩
  · exact mem_surfaceGiven_of_meets (htrue hb)
  · rcases mem_surfaceGiven_iff.mp hin with hassumed | hmeets
    · exact hx hassumed.1
    · exact hfalse hb hmeets
  · exact absurd hrem hx

theorem Weighs.handles {q : Query Bool} (h : Weighs e V q x s) (hx : x ∉ remembered e V) :
    Handles e V q x s :=
  h.imp_left fun hjudges => hjudges.replies hx

/-! ## Answers that are remembered -/

/-- The session with the evaluation of a key looked up in vain and opened. -/
def opened (s : Session) (key : MemoKey) : Session :=
  { s with memo := (s.memo.lookup key).2.begin key }

/-- The session with the evaluation of a key closed. -/
def closed (s : Session) (key : MemoKey) (answer : Bool) : Session :=
  { s with memo := (s.memo.resolve key answer).2 }

/-- An answer kept when an evaluation is opened was kept before. -/
theorem resolved_of_resolved_opened {k key : MemoKey} {b : Bool}
    (h : (opened s key).memo.state? k = some (.resolved b)) :
    s.memo.state? k = some (.resolved b) := by
  change ((s.memo.lookup key).2.begin key).state? k = _ at h
  by_cases hself : k = key
  · rw [hself, Memo.state?_begin_self] at h
    cases h
  · rwa [Memo.state?_begin_of_ne hself, Memo.state?_lookup] at h

theorem Recorded.of_resolved (hs : Recorded e s) (hverdicts : s'.verdicts = s.verdicts)
    (h : ∀ name b, s'.memo.state? (.ofClass name) = some (.resolved b) →
      s.memo.state? (.ofClass name) = some (.resolved b)) : Recorded e s' := by
  intro c b hc hb
  rw [hverdicts]
  exact hs c b hc (h _ b hb)

theorem Ready.opened {key : MemoKey} (hs : Ready e V s) (hkey : s.memo.state? key = none) :
    Ready e V (opened s key) where
  sound := (hs.sound.lookup key).begin ((Memo.state?_lookup s.memo key).trans hkey)
  recorded := hs.recorded.of_resolved rfl fun _ _ hb => resolved_of_resolved_opened hb

theorem Answered.of_grows {b : Bool} {m₁ : Memo} (h : Answered e V m₁ x b m')
    (hgrow : m.Grows m₁) : Answered e V m x b m' :=
  ⟨h.sound, hgrow.trans h.grows, h.mem_floor, h.not_mem_ceiling,
    fun hx hopen => h.kept hx (hgrow.openCount.trans hopen)⟩

theorem OpenLeads.opened (h : OpenLeads e V s.memo x) (hx : x ∈ remembered e V)
    (hxy : Leads e x y) : OpenLeads e V (opened s x.key).memo y :=
  (h.of_grows (Memo.grows_lookup s.memo x.key)).begin hx hxy

/-- **An evaluation opened, judged and closed** is answered. -/
theorem answered_closed {s₂ : Session} {b : Bool} (hs : Ready e V s) (hx : x ∈ remembered e V)
    (hkey : s.memo.state? x.key = none) (hs₂ : Sound e V s₂.memo)
    (hgrows : (opened s x.key).memo.Grows s₂.memo)
    (htrue : b = true → Meets e (floor e V s₂.memo) x)
    (hfalse : b = false → ¬ Meets e (ceiling e V s₂.memo) x) :
    Answered e V s.memo x b (closed s₂ x.key b).memo := by
  have hkey' := (Memo.state?_lookup s.memo x.key (k := x.key)).trans hkey
  have h := answered_resolve (hs.sound.lookup x.key) hx hkey' hgrows hs₂ htrue hfalse
  exact h.of_grows (Memo.grows_lookup s.memo x.key)

/-! ### Types -/

section Types

variable {ask : TypeRef → Query Bool}

theorem ask_examineType_of_hit {b : Bool} (hnamed : t.className?.isSome) (hstar : t.hasStar = false)
    (h : (s.memo.lookup (.ofType t.key)).1 = some b) :
    (examineType e ask t).ask s
      = (.ok b, { s with memo := (s.memo.lookup (.ofType t.key)).2 }) := by
  cases t with
  | dynamic => cases hnamed
  | parameter => cases hnamed
  | named name args nullable =>
    simp only [examineType, hstar, Bool.false_eq_true, if_false]
    rw [Query.ask_bind, Query.ask_lookup, h]
    rfl

/-- A type that nothing is known of is examined in between, and the memo is told
what came of it: no, where the examination failed. -/
theorem ask_examineType_of_miss {result : Except ModuleError Bool} {s₂ : Session}
    (hnamed : t.className?.isSome) (hstar : t.hasStar = false)
    (h : (s.memo.lookup (.ofType t.key)).1 = none)
    (hbody : (examineNamed e ask t).ask (opened s (.ofType t.key)) = (result, s₂)) :
    (examineType e ask t).ask s
      = (result, closed s₂ (.ofType t.key) (result.toOption.getD false)) := by
  cases t with
  | dynamic => cases hnamed
  | parameter => cases hnamed
  | named name args nullable =>
    have houtcome : (examineNamed e ask (.named name args nullable)).outcome.ask
        (opened s (.ofType (TypeRef.named name args nullable).key)) = (.ok result, s₂) := by
      rw [Query.ask_outcome, hbody]
    simp only [examineType, hstar, Bool.false_eq_true, if_false]
    rw [Query.ask_bind, Query.ask_lookup, h]
    dsimp only
    rw [Query.ask_bind, Query.ask_begin]
    refine (Query.ask_bind_of_ok houtcome).trans ?_
    cases result with
    | error failure => rfl
    | ok b => rfl

/-- **How an answer about a class type comes about**: it was known, or the type
was examined. -/
theorem examineType_cases {b : Bool} (hnamed : t.className?.isSome) (hstar : t.hasStar = false)
    (h : (examineType e ask t).ask s = (.ok b, s')) :
    (s.memo.lookup (.ofType t.key)).1 = some b ∧
        s' = { s with memo := (s.memo.lookup (.ofType t.key)).2 } ∨
      (s.memo.lookup (.ofType t.key)).1 = none ∧ ∃ s₂,
        (examineNamed e ask t).ask (opened s (.ofType t.key)) = (.ok b, s₂) ∧
          s' = closed s₂ (.ofType t.key) b := by
  cases hfound : (s.memo.lookup (.ofType t.key)).1 with
  | some known =>
    rw [ask_examineType_of_hit hnamed hstar hfound] at h
    cases h
    exact Or.inl ⟨rfl, rfl⟩
  | none =>
    cases hbody : (examineNamed e ask t).ask (opened s (.ofType t.key)) with
    | mk result s₂ =>
      rw [ask_examineType_of_miss hnamed hstar hfound hbody] at h
      cases h
      exact Or.inr ⟨rfl, s₂, rfl, rfl⟩

/-- A type in the memo's care is handled if its examination is weighed. -/
theorem handles_examineType (hs : Ready e V s) (ht : Subject.ofType t ∈ remembered e V)
    (hbody : s.memo.state? (.ofType t.key) = none →
      Weighs e V (examineNamed e ask t) (.ofType t) (opened s (.ofType t.key))) :
    Handles e V (examineType e ask t) (.ofType t) s := by
  have hnamed : t.className?.isSome := ht.2.1
  have hstar : t.hasStar = false := ht.2.2
  cases hfound : (s.memo.lookup (.ofType t.key)).1 with
  | some b =>
    refine Or.inl ⟨b, _, ask_examineType_of_hit hnamed hstar hfound, ?_, ?_⟩
    · exact answered_lookup hs.sound ht hfound
    · exact hs.recorded.of_resolved rfl fun name b hb =>
        (Memo.state?_lookup s.memo _).symm.trans hb
  | none =>
    have hkey := Memo.state?_of_lookup_fst_eq_none hfound
    rcases hbody hkey with hjudges | ⟨⟨failure, s₂, hask⟩, hmay⟩
    · obtain ⟨b, s₂, hask, hs₂, hgrows, htrue, hfalse⟩ := hjudges
      refine Or.inl ⟨b, _, ask_examineType_of_miss hnamed hstar hfound hask, ?_, ?_⟩
      · exact answered_closed hs ht hkey hs₂.sound hgrows htrue hfalse
      · refine hs₂.recorded.of_resolved rfl fun name b' hb' => ?_
        have hne : MemoKey.ofClass name ≠ .ofType t.key := fun h => by cases h
        exact (Memo.state?_resolve_of_ne hne).symm.trans hb'
    · exact Or.inr ⟨⟨_, _, ask_examineType_of_miss hnamed hstar hfound hask⟩, hmay⟩

section Named

variable {name : QualifiedName} {args : List TypeArgument} {nullable : Bool}

/-- A built-in type meets its criterion by its element, if it has one. -/
theorem meets_builtin_iff (hstar : (TypeRef.named name args nullable).hasStar = false)
    (hbuiltin : (Builtin.ofType? (.named name args nullable)).isSome = true) :
    Meets e X (.ofType (.named name args nullable)) ↔
      BuiltinAdmitted (fun u => Subject.ofType u ∈ X) (.named name args nullable) := by
  constructor
  · rintro ⟨-, hadmitted | ⟨hnone, -⟩⟩
    · exact hadmitted
    · rw [hnone] at hbuiltin
      cases hbuiltin
  · exact fun hadmitted => ⟨hstar, Or.inl hadmitted⟩

/-- Any other meets it by the class of its name. -/
theorem meets_named_iff (hstar : (TypeRef.named name args nullable).hasStar = false)
    (hbuiltin : Builtin.ofType? (.named name args nullable) = none) :
    Meets e X (.ofType (.named name args nullable)) ↔
      ∃ c, e.classNamed? name = some c ∧ (c.isExported = true ∨ Subject.ofClass c ∈ X) := by
  constructor
  · rintro ⟨-, hadmitted | ⟨-, hc⟩⟩
    · have hsome := hadmitted.builtin
      rw [hbuiltin] at hsome
      cases hsome
    · exact hc
  · exact fun hc => ⟨hstar, Or.inr ⟨hbuiltin, hc⟩⟩

/-- What is examined of a built-in type is weighed, if its element is handled. -/
theorem weighs_examineNamed_of_builtin (hs : Ready e V s)
    (hstar : (TypeRef.named name args nullable).hasStar = false)
    (hbuiltin : (Builtin.ofType? (.named name args nullable)).isSome = true)
    (helement : ∀ u, (TypeRef.named name args nullable).element? = some u → ∀ s', Ready e V s' →
      s.memo.Grows s'.memo → Handles e V (ask u) (.ofType u) s') :
    Weighs e V (examineNamed e ask (.named name args nullable))
      (.ofType (.named name args nullable)) s := by
  have hvalue : ∀ X, Rule.exempt (accepting X) (some (.named name args nullable)) = true ↔
      Meets e X (.ofType (.named name args nullable)) := by
    intro X
    rw [Rule.exempt_eq_true_iff, accepting_eq_true, meets_builtin_iff hstar hbuiltin]
    constructor
    · rintro ⟨u, hu, hadmitted⟩
      rwa [← Option.some.inj hu] at hadmitted
    · exact fun hadmitted => ⟨_, rfl, hadmitted⟩
  rw [examineNamed_of_builtin hbuiltin]
  refine (judges_of_within _ (Rule.within_accepts fun _ => id) hs helement
    (fun X => Rule.eval_inheritedFromBuiltin (some _)) hvalue).imp_right ?_
  refine And.imp_right fun htrips => mem_mayTrip_of_tripsGiven (around_empty _) ?_
  obtain ⟨-, u, hu, hmay⟩ := Inquiry.trips_accepts_iff.mp htrips
  exact ⟨hstar, Or.inl ⟨u, hu, hmay⟩⟩

/-- What is examined of a type without a known class is weighed. -/
theorem weighs_examineNamed_of_unknown (hs : Ready e V s)
    (hstar : (TypeRef.named name args nullable).hasStar = false)
    (hbuiltin : Builtin.ofType? (.named name args nullable) = none)
    (hunknown : e.classNamed? name = none) :
    Weighs e V (examineNamed e ask (.named name args nullable))
      (.ofType (.named name args nullable)) s := by
  have hnot : (Builtin.ofType? (.named name args nullable)).isSome = false := by
    rw [hbuiltin]
    rfl
  rw [examineNamed_of_unknown hnot hunknown]
  refine Or.inl ⟨false, s, rfl, hs, Memo.Grows.refl _, (fun hb => by cases hb),
    fun _ hmeets => ?_⟩
  obtain ⟨c, hc, -⟩ := (meets_named_iff hstar hbuiltin).mp hmeets
  rw [hunknown] at hc
  cases hc

/-- What is examined of a type of a known class is weighed, if the class is
marked or handled. -/
theorem weighs_examineNamed_of_class (hs : Ready e V s)
    (hstar : (TypeRef.named name args nullable).hasStar = false)
    (hbuiltin : Builtin.ofType? (.named name args nullable) = none)
    (hc : e.classNamed? name = some c)
    (hclass : c.isExported = false → Handles e V (examineClass e ask c) (.ofClass c) s) :
    Weighs e V (examineNamed e ask (.named name args nullable))
      (.ofType (.named name args nullable)) s := by
  have hmeets : ∀ X, Meets e X (.ofType (.named name args nullable)) ↔
      c.isExported = true ∨ Subject.ofClass c ∈ X := by
    intro X
    simp [meets_named_iff hstar hbuiltin, hc]
  have hnot : (Builtin.ofType? (.named name args nullable)).isSome = false := by
    rw [hbuiltin]
    rfl
  rw [examineNamed_of_class hnot hc]
  cases hmarked : c.isExported with
  | true =>
    rw [if_pos rfl]
    exact Or.inl ⟨true, s, rfl, hs, Memo.Grows.refl _,
      fun _ => (hmeets _).mpr (Or.inl hmarked), fun hb => nomatch hb⟩
  | false =>
    rw [if_neg (by simp)]
    have hmeets' : ∀ X, Meets e X (.ofType (.named name args nullable)) ↔ Subject.ofClass c ∈ X :=
      fun X => by rw [hmeets, hmarked]; simp
    rcases hclass hmarked with hreplies | ⟨hfails, hmay⟩
    · obtain ⟨b, s', hask, hs', ha⟩ := hreplies.ready
      exact Or.inl ⟨b, s', hask, hs', ha.grows, fun hb => (hmeets' _).mpr (ha.mem_floor hb),
        fun hb h => ha.not_mem_ceiling hb ((hmeets' _).mp h)⟩
    · exact Or.inr ⟨hfails, mem_mayTrip_of_tripsGiven (around_empty _)
        ⟨hstar, Or.inr ⟨hbuiltin, c, hc, hmarked, hmay⟩⟩⟩

end Named

/-- What is examined of a class type is weighed, if the element of an array and
the class are handled. -/
theorem weighs_examineNamed (hs : Ready e V s) (hnamed : t.className?.isSome)
    (hstar : t.hasStar = false)
    (helement : ∀ u, t.element? = some u → ∀ s', Ready e V s' → s.memo.Grows s'.memo →
      Handles e V (ask u) (.ofType u) s')
    (hclass : ∀ name c, t.className? = some name → e.classNamed? name = some c →
      c.isExported = false → Handles e V (examineClass e ask c) (.ofClass c) s) :
    Weighs e V (examineNamed e ask t) (.ofType t) s := by
  cases t with
  | dynamic => cases hnamed
  | parameter => cases hnamed
  | named name args nullable =>
    cases hbuiltin : Builtin.ofType? (.named name args nullable) with
    | some kind => exact weighs_examineNamed_of_builtin hs hstar (by rw [hbuiltin]; rfl) helement
    | none =>
      cases hc : e.classNamed? name with
      | none => exact weighs_examineNamed_of_unknown hs hstar hbuiltin hc
      | some c => exact weighs_examineNamed_of_class hs hstar hbuiltin hc (hclass name c rfl hc)

end Types

/-! ### Classes -/

section Classes

variable {ask : TypeRef → Query Bool}

/-- The session with the evaluation of a class closed by its verdict. -/
def closedBy (s : Session) (c : ClassDecl) (v : Verdict) : Session :=
  if (s.memo.resolve (.ofClass c.name.text) v.isExportable).1 then
    { closed s (.ofClass c.name.text) v.isExportable with verdicts := (c.name, v) :: s.verdicts }
  else closed s (.ofClass c.name.text) v.isExportable

/-- The session with the evaluation of a class closed by what its rule came to. -/
def concluded (s : Session) (c : ClassDecl) : Except ModuleError Verdict → Session
  | .ok v => closedBy s c v
  | .error _ => closed s (.ofClass c.name.text) false

theorem memo_closedBy (s : Session) (c : ClassDecl) (v : Verdict) :
    (closedBy s c v).memo = (s.memo.resolve (.ofClass c.name.text) v.isExportable).2 := by
  unfold closedBy
  split
  · rfl
  · rfl

/-- The answers kept when a class was closed by its verdict: the one about the
class, with the verdict to it, and those kept before. -/
theorem resolved_closedBy {v : Verdict} {name : QualifiedName} {b : Bool}
    (h : (closedBy s c v).memo.state? (.ofClass name.text) = some (.resolved b)) :
    name = c.name ∧ v.isExportable = b ∧ (closedBy s c v).verdicts.lookup name = some v ∨
      name ≠ c.name ∧ s.memo.state? (.ofClass name.text) = some (.resolved b) ∧
        (closedBy s c v).verdicts.lookup name = s.verdicts.lookup name := by
  rw [memo_closedBy] at h
  by_cases hname : name = c.name
  · subst hname
    rw [Memo.state?_resolve_self] at h
    cases hkept : (s.memo.resolve (.ofClass c.name.text) v.isExportable).1 with
    | false =>
      rw [hkept] at h
      cases h
    | true =>
      rw [hkept] at h
      refine Or.inl ⟨rfl, by simpa using h, ?_⟩
      rw [closedBy, hkept, if_pos rfl]
      exact List.lookup_cons_self
  · have hne : MemoKey.ofClass name.text ≠ .ofClass c.name.text := fun h =>
      hname (QualifiedName.eq_of_text_eq (MemoKey.ofClass.inj h))
    rw [Memo.state?_resolve_of_ne hne] at h
    refine Or.inr ⟨hname, h, ?_⟩
    unfold closedBy
    split
    · have hfalse : (name == c.name) = false := by simpa using hname
      change List.lookup name ((c.name, v) :: s.verdicts) = s.verdicts.lookup name
      rw [List.lookup_cons, hfalse]
    · rfl

theorem ask_examineClass_of_hit {b : Bool}
    (h : (s.memo.lookup (.ofClass c.name.text)).1 = some b) :
    (examineClass e ask c).ask s
      = (.ok b, { s with memo := (s.memo.lookup (.ofClass c.name.text)).2 }) := by
  rw [examineClass, Query.ask_bind, Query.ask_lookup, h]
  rfl

/-- The rule of a class that nothing is known of is gone through in between, and
the memo is told what it came to: no, where it failed. -/
theorem ask_examineClass_of_miss {result : Except ModuleError Verdict} {s₂ : Session}
    (h : (s.memo.lookup (.ofClass c.name.text)).1 = none)
    (hbody : (Rule.ofClass e.options ask c).ask (opened s (.ofClass c.name.text))
      = (result, s₂)) :
    (examineClass e ask c).ask s = (result.map (·.isExportable), concluded s₂ c result) := by
  have houtcome : (Rule.ofClass e.options ask c).outcome.ask (opened s (.ofClass c.name.text))
      = (.ok result, s₂) := by
    rw [Query.ask_outcome, hbody]
  rw [examineClass, Query.ask_bind, Query.ask_lookup, h]
  dsimp only
  rw [Query.ask_bind, Query.ask_begin]
  refine (Query.ask_bind_of_ok houtcome).trans ?_
  cases result with
  | error failure => rfl
  | ok v =>
    dsimp only
    rw [Query.ask_bind, Query.ask_resolve, concluded, closedBy]
    cases hkept : (s₂.memo.resolve (.ofClass c.name.text) v.isExportable).1 with
    | true => rfl
    | false => rfl

/-- **How an answer about a class comes about**: it was known, or the rule of
classes was gone through. -/
theorem examineClass_cases {b : Bool} (h : (examineClass e ask c).ask s = (.ok b, s')) :
    (s.memo.lookup (.ofClass c.name.text)).1 = some b ∧
        s' = { s with memo := (s.memo.lookup (.ofClass c.name.text)).2 } ∨
      (s.memo.lookup (.ofClass c.name.text)).1 = none ∧ ∃ v s₂,
        (Rule.ofClass e.options ask c).ask (opened s (.ofClass c.name.text)) = (.ok v, s₂) ∧
          b = v.isExportable ∧ s' = closedBy s₂ c v := by
  cases hfound : (s.memo.lookup (.ofClass c.name.text)).1 with
  | some known =>
    rw [ask_examineClass_of_hit hfound] at h
    cases h
    exact Or.inl ⟨rfl, rfl⟩
  | none =>
    cases hbody : (Rule.ofClass e.options ask c).ask (opened s (.ofClass c.name.text)) with
    | mk result s₂ =>
      cases result with
      | error failure =>
        rw [ask_examineClass_of_miss hfound hbody] at h
        cases h
      | ok v =>
        rw [ask_examineClass_of_miss hfound hbody] at h
        cases h
        exact Or.inr ⟨rfl, v, s₂, rfl, rfl, rfl⟩

/-- The verdict on a class depends on nothing but what its rule may ask
about. -/
theorem eq_firstOf_classReasons {options : RuleOptions} {f g : TypeRef → Bool} {v : Verdict}
    (hv : (Rule.ofClass options Inquiry.put c).eval f = .ok v)
    (h : ∀ t, c.Checks t → f t = g t) : v = Rule.firstOf (Rule.classReasons options g c) := by
  have hcongr : (Rule.ofClass options Inquiry.put c).eval f
      = (Rule.ofClass options Inquiry.put c).eval g :=
    Inquiry.eval_congr fun t ht => h t ((Rule.within_ofClass options c).of_mem_asked ht)
  exact (Rule.comesTo_ofClass options c).eq (hcongr.symm.trans hv)

/-- **A verdict is judged on reference cycles**: of what is in flight, only
what is around the class has a say. -/
theorem judgedOnCycle_of_around {v : Verdict}
    (hA : Around e (.ofClass c) (inFlight e V m ∩ {z | Leads e (.ofClass c) z}))
    (hv : (Rule.ofClass e.options Inquiry.put c).eval (accepting (provisional e V m)) = .ok v) :
    JudgedOnCycle e c v := by
  refine ⟨_, hA.onCycle, hA.self c rfl, eq_firstOf_classReasons hv fun t ht => ?_⟩
  rw [Bool.eq_iff_iff, accepting_eq_true_iff, accepting_eq_true_iff]
  exact (mem_surfaceGiven_inter_iff (leads_of_checks ht)).symm

theorem Recorded.closedBy {s₂ : Session} {v : Verdict} (hs₂ : Recorded e s₂)
    (hc : e.classNamed? c.name = some c) (hv : JudgedOnCycle e c v) :
    Recorded e (closedBy s₂ c v) := by
  intro d b hd hb
  rcases resolved_closedBy hb with ⟨hname, hvb, hfound⟩ | ⟨-, hkept, hfound⟩
  · obtain rfl : d = c := by
      rw [hname, hc] at hd
      exact (Option.some.inj hd).symm
    exact ⟨v, hfound, hvb, hv⟩
  · rw [hfound]
    exact hs₂ d b hd hkept

/-- What is in flight once the evaluation of a class is opened. -/
theorem around_opened_ofClass (hc : e.classNamed? c.name = some c)
    (hopen : OpenLeads e V s.memo (.ofClass c)) :
    Around e (.ofClass c) (inFlight e V (opened s (.ofClass c.name.text)).memo ∩
      {z | Leads e (.ofClass c) z}) := by
  have hx : Subject.ofClass c ∈ remembered e V := hc
  refine around_inFlight (fun z hz => ?_) fun d hd => ?_
  · obtain ⟨hrem, d, -, hd⟩ := hz
    by_cases hself : z.key = .ofClass c.name.text
    · exact Or.inl (erased_eq_of_key_eq hrem hx hself)
    · change ((s.memo.lookup _).2.begin _).state? _ = _ at hd
      rw [Memo.state?_begin_of_ne hself, Memo.state?_lookup] at hd
      exact Or.inr (hopen z ⟨hrem, d, Nat.zero_le _, hd⟩)
  · exact ⟨hx, _, Nat.zero_le _, Memo.state?_begin_self _ _⟩

/-- **A class is handled** if what its rule asks about is. -/
theorem handles_examineClass (hs : Ready e V s) (hc : e.classNamed? c.name = some c)
    (hopen : OpenLeads e V s.memo (.ofClass c))
    (hask : s.memo.state? (.ofClass c.name.text) = none → ∀ t, c.Checks t → ∀ s', Ready e V s' →
      (opened s (.ofClass c.name.text)).memo.Grows s'.memo → Handles e V (ask t) (.ofType t) s') :
    Handles e V (examineClass e ask c) (.ofClass c) s := by
  have hx : Subject.ofClass c ∈ remembered e V := hc
  have haround := around_opened_ofClass hc hopen
  have hmay : InquiryTrips e (mayTrip e) (inFlight e V (opened s (.ofClass c.name.text)).memo)
      (Rule.ofClass e.options Inquiry.put c) → Subject.ofClass c ∈ mayTrip e := fun htrips =>
    mem_mayTrip_of_tripsGiven haround
      ((inquiryTrips_inter_iff (within_leads_ofClass e.options c)).mpr htrips)
  cases hfound : (s.memo.lookup (.ofClass c.name.text)).1 with
  | some b =>
    refine Or.inl ⟨b, _, ask_examineClass_of_hit hfound, answered_lookup hs.sound hx hfound, ?_⟩
    exact hs.recorded.of_resolved rfl fun name b hb =>
      (Memo.state?_lookup s.memo _).symm.trans hb
  | none =>
    have hkey := Memo.state?_of_lookup_fst_eq_none hfound
    rcases run_of_within (Rule.within_ofClass e.options c) (hs.opened hkey) (hask hkey) with
      ⟨s₂, hs₂, hgrows, hrun⟩ | ⟨⟨failure, s₂, hfails⟩, htrips⟩
    · rw [Inquiry.run_ofClass] at hrun
      have hfc : floor e V s₂.memo ⊆ ceiling e V s₂.memo :=
        floor_subset_provisional.trans provisional_subset_ceiling
      have hprov := hrun (provisional e V s₂.memo) floor_subset_provisional
        provisional_subset_ceiling
      cases heval : (Rule.ofClass e.options Inquiry.put c).eval
          (accepting (provisional e V s₂.memo)) with
      | error failure =>
        rw [heval] at hprov
        refine Or.inr ⟨⟨_, _, ask_examineClass_of_miss hfound hprov⟩, hmay ?_⟩
        rw [← inFlight_of_grows hgrows]
        exact Inquiry.trips_iff.mpr (Or.inl ⟨failure, heval⟩)
      | ok v =>
        rw [heval] at hprov
        -- the verdict is the same judged anywhere in the bracket
        have hmeets : ∀ X, floor e V s₂.memo ⊆ X → X ⊆ ceiling e V s₂.memo →
            (v.isExportable = true ↔ Meets e X (.ofClass c)) := by
          intro X hfloor hceiling
          have hsame := hprov.symm.trans (hrun X hfloor hceiling)
          rw [(Rule.comesTo_ofClass e.options c).eq (congrArg Prod.fst hsame).symm]
          exact isExportable_firstOf_classReasons_iff
        have hexamined : (examineClass e ask c).ask s = (.ok v.isExportable, closedBy s₂ c v) :=
          ask_examineClass_of_miss hfound hprov
        refine Or.inl ⟨_, _, hexamined, ?_, hs₂.recorded.closedBy hc ?_⟩
        · rw [memo_closedBy]
          refine answered_closed hs hx hkey hs₂.sound hgrows (hmeets _ subset_rfl hfc).mp
            fun hb hin => ?_
          rw [(hmeets _ hfc subset_rfl).mpr hin] at hb
          cases hb
        · rw [← inFlight_of_grows hgrows] at haround
          exact judgedOnCycle_of_around haround heval
    · rw [Inquiry.run_ofClass] at hfails
      exact Or.inr ⟨⟨_, _, ask_examineClass_of_miss hfound hfails⟩,
        hmay (Inquiry.trips_iff.mpr (Or.inr htrips))⟩

end Classes

/-! ## Room for what is asked -/

variable (e V) in
/-- A session to ask about a type in, where at most so many types need be
examined one inside another. -/
structure Fits (types : List TypeRef) (depth : Nat) (t : TypeRef) (s : Session) : Prop where
  ready : Ready e V s
  mem_scope : t ∈ scope e types
  openLeads : OpenLeads e V s.memo (.ofType t)
  need_le : need e types s.memo t ≤ depth

variable (e V) in
/-- A session to ask about a class in, with room for all types. -/
structure FitsClass (types : List TypeRef) (depth : Nat) (c : ClassDecl) (s : Session) : Prop where
  ready : Ready e V s
  found : e.classNamed? c.name = some c
  openLeads : OpenLeads e V s.memo (.ofClass c)
  room_le : room e types s.memo ≤ depth

section Fits

variable {types : List TypeRef} {depth : Nat}

theorem room_opened_ofClass (name : String) :
    room e types (opened s (.ofClass name)).memo = room e types s.memo := by
  have hpending : pending e types (opened s (.ofClass name)).memo = pending e types s.memo :=
    (pending_begin_ofClass name).trans (pending_of_grows (Memo.grows_lookup s.memo _))
  rw [room, room, hpending]

theorem room_opened_lt_need (ht : t ∈ scope e types)
    (hkey : s.memo.state? (.ofType t.key) = none) :
    room e types (opened s (.ofType t.key)).memo < need e types s.memo t := by
  have hlt := room_begin_lt_need ht ((Memo.state?_lookup s.memo (.ofType t.key)).trans hkey)
  rwa [need_of_grows (Memo.grows_lookup s.memo _)] at hlt

/-- What the rule of a class asks about. -/
theorem FitsClass.checks (h : FitsClass e V types depth c s) (ht : c.Checks t)
    (hs' : Ready e V s') (hg : (opened s (.ofClass c.name.text)).memo.Grows s'.memo) :
    Fits e V types depth t s' where
  ready := hs'
  mem_scope := mem_scope_of_checks (mem_classes_of_classNamed? h.found) ht
  openLeads := by
    have hx : Subject.ofClass c ∈ remembered e V := h.found
    exact (h.openLeads.opened hx (leads_of_checks ht)).of_grows hg
  need_le := by
    have hscope : t ∈ scope e types :=
      mem_scope_of_checks (mem_classes_of_classNamed? h.found) ht
    calc need e types s'.memo t
        = need e types (opened s (.ofClass c.name.text)).memo t := need_of_grows hg
      _ ≤ room e types (opened s (.ofClass c.name.text)).memo := need_le_room hscope
      _ = room e types s.memo := room_opened_ofClass _
      _ ≤ depth := h.room_le

/-- The bounds of a type parameter. -/
theorem Fits.bound {name : String} {bounds : List TypeRef} {nullable : Bool}
    (h : Fits e V types (depth + 1) (.parameter name bounds nullable) s)
    (hu : u ∈ bounds) (hs' : Ready e V s') (hg : s.memo.Grows s'.memo) :
    Fits e V types depth u s' where
  ready := hs'
  mem_scope := mem_scope_of_mem_children h.mem_scope hu
  openLeads := (h.openLeads.trans (Relation.TransGen.single (.bound hu rfl))).of_grows hg
  need_le := by
    -- nothing was put in flight, but the bound is smaller than the parameter
    have hsize := TypeRef.size_lt_of_mem_children (t := .parameter name bounds nullable) hu
    have hneed := h.need_le
    rw [need_of_grows hg]
    unfold need at hneed ⊢
    omega

section Opened

variable (h : Fits e V types (depth + 1) t s)
  (hx : Subject.ofType t ∈ remembered e V) (hkey : s.memo.state? (.ofType t.key) = none)
include h hx hkey

/-- The element of an array, the key of the array being in flight: that makes
room for the whole scope again. -/
theorem Fits.element (hu : t.element? = some u) (hs' : Ready e V s')
    (hg : (opened s (.ofType t.key)).memo.Grows s'.memo) :
    Fits e V types depth u s' where
  ready := hs'
  mem_scope := mem_scope_of_mem_children h.mem_scope (TypeRef.mem_children_of_element? hu)
  openLeads :=
    (h.openLeads.opened hx (Relation.TransGen.single (.element hu rfl))).of_grows hg
  need_le := by
    have hroom := room_opened_lt_need h.mem_scope hkey
    have hle : need e types s'.memo u ≤ _ :=
      need_le_room (mem_scope_of_mem_children h.mem_scope (TypeRef.mem_children_of_element? hu))
    have hneed := h.need_le
    rw [room_of_grows hg] at hle
    omega

/-- The class of a class type, the key of the type being in flight. -/
theorem Fits.declared {name : QualifiedName} (hname : t.className? = some name)
    (hc : e.classNamed? name = some c) :
    FitsClass e V types depth c (opened s (.ofType t.key)) where
  ready := h.ready.opened hkey
  found := classNamed?_self hc
  openLeads := h.openLeads.opened hx (Relation.TransGen.single (.declared hname hc))
  room_le := by
    have hroom := room_opened_lt_need h.mem_scope hkey
    have hneed := h.need_le
    omega

end Opened

end Fits

/-! ## The whole evaluation -/

variable (e V) in
/-- Types in scope are handled, where at most so many need be examined one
inside another. -/
def Serves (types : List TypeRef) (depth : Nat) (ask : TypeRef → Query Bool) : Prop :=
  ∀ t s, Fits e V types depth t s → Handles e V (ask t) (.ofType t) s

section Serves

variable {types : List TypeRef} {ask : TypeRef → Query Bool} {depth : Nat}

/-- Where types are served, and there is room for all of them, classes are
handled. -/
theorem Serves.handles_examineClass (h : Serves e V types depth ask)
    (hc : FitsClass e V types depth c s) :
    Handles e V (examineClass e ask c) (.ofClass c) s :=
  Evaluator.handles_examineClass hc.ready hc.found hc.openLeads fun _ _ ht _ hs' hg =>
    h _ _ (hc.checks ht hs' hg)

variable (hV : ∀ t ∈ scope e types, t ∈ V.types)
include hV

theorem Fits.mem_remembered {name : QualifiedName} {args : List TypeArgument} {nullable : Bool}
    (h : Fits e V types depth (.named name args nullable) s)
    (hstar : (TypeRef.named name args nullable).hasStar = false) :
    Subject.ofType (.named name args nullable) ∈ remembered e V :=
  ⟨⟨_, hV _ h.mem_scope, rfl⟩, rfl, hstar⟩

/-- **One step of the evaluation**: where types are served to a depth, examined
types are served one deeper. -/
theorem serves_examineType (h : Serves e V types depth ask) :
    Serves e V types (depth + 1) (examineType e ask) := by
  intro t s ht
  cases hstar : t.hasStar with
  | true =>
    have hjudges : Judges e V (examineType e ask t) (.ofType t) s := by
      refine ⟨false, s, ?_, ht.ready, Memo.Grows.refl _, (fun hb => by cases hb),
        fun _ hmeets => ?_⟩
      · rw [examineType_of_hasStar hstar]
        rfl
      · cases t with
        | dynamic => cases hstar
        | parameter => cases hstar
        | named name args nullable =>
          have := hmeets.1
          rw [hstar] at this
          cases this
    refine Or.inl (hjudges.replies fun hx => ?_)
    have := hx.2.2
    rw [hstar] at this
    cases this
  | false =>
    cases t with
    | dynamic =>
      have hjudges : Judges e V (examineType e ask .dynamic) (.ofType .dynamic) s :=
        ⟨true, s, rfl, ht.ready, Memo.Grows.refl _, fun _ => trivial, fun hb => by cases hb⟩
      exact Or.inl (hjudges.replies fun hx => by cases hx.2.1)
    | parameter name bounds nullable =>
      have hweighs : Weighs e V ((Inquiry.all bounds).run ask)
          (.ofType (.parameter name bounds nullable)) s := by
        refine (judges_of_within (fun X => bounds.all (accepting X))
          (Inquiry.within_all fun u hu => hu) ht.ready
          (fun u hu s' hs' hg => h u s' (ht.bound hu hs' hg))
          (fun X => Inquiry.eval_all _ bounds) fun X => ?_).imp_right
            (And.imp_right fun htrips => ?_)
        · simp only [List.all_eq_true, accepting_eq_true_iff]
          exact Iff.rfl
        · have haround : Around e (.ofType (.parameter name bounds nullable)) _ :=
            around_inFlight (fun z hz => Or.inr (ht.openLeads z hz)) fun _ hd => nomatch hd
          exact mem_mayTrip_of_tripsGiven haround
            ((inquiryTrips_inter_iff (within_leads_all name bounds nullable)).mpr htrips)
      rw [examineType_parameter]
      exact hweighs.handles fun hx => by cases hx.2.1
    | named name args nullable =>
      have hx := ht.mem_remembered hV hstar
      refine handles_examineType ht.ready hx fun hkey => ?_
      refine weighs_examineNamed (ht.ready.opened hkey) rfl hstar ?_ ?_
      · exact fun u hu s' hs' hg => h u s' (ht.element hx hkey hu hs' hg)
      · exact fun name' c hname hc _ => h.handles_examineClass (ht.declared hx hkey hname hc)

/-- **The evaluation answers**, as deep as it may go, or it fails on a subject
that can. -/
theorem serves_typeWithin (depth : Nat) : Serves e V types depth (typeWithin e depth) := by
  induction depth with
  | zero =>
    intro t s ht
    exact absurd ht.need_le (Nat.not_le.mpr (need_pos s.memo t))
  | succ depth ih => exact serves_examineType hV ih

end Serves

end Evaluator

end ExportSurface
