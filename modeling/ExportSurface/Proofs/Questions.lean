import ExportSurface.Proofs.Evaluation
/-!
# Questions put to an evaluator

Between questions nothing is in flight (`Evaluator.Idle`), so the floor of the
memo is the export surface, and every answer is the one the surface gives:
rules come to what they come to on the surface (`Evaluator.ask_run`), types and
classes are accepted just where they lie on it (`Evaluator.ask_typeExportable`,
`Evaluator.ask_classExportable`). However many questions are put to an
evaluator, and in whatever order, none fails and all are answered that way
(`Evaluator.answers_eq`).
-/

namespace ExportSurface

namespace Evaluator

variable (e : Evaluator) (V : Vocabulary)

/-- The conditions on an evaluator and the types it is asked about: properties
have types, and class types of one key are one type up to nullability. -/
structure Regular (types : List TypeRef) : Prop where
  typed : ∀ c ∈ e.classes, ∀ p ∈ c.properties, p.valueType?.isSome
  faithful : ∀ t ∈ scope e types, ∀ u ∈ scope e types, t.className?.isSome →
    u.className?.isSome → t.key = u.key → t.erased = u.erased

/-- A session with nothing in flight. -/
structure Idle (s : Session) : Prop extends Ready e V s where
  openCount : s.memo.openCount = 0

variable {e V} {s s' : Session} {c : ClassDecl} {t : TypeRef} {x : Subject}
  {types types' : List TypeRef}

/-- The types in scope. -/
def Regular.vocabulary (h : Regular e types) : Vocabulary where
  types := {t | t ∈ scope e types}
  faithful := h.faithful

theorem scope_subset (h : types ⊆ types') : scope e types ⊆ scope e types' := by
  intro t ht
  obtain ⟨u, hu, htu⟩ := List.mem_flatMap.mp ht
  refine List.mem_flatMap.mpr ⟨u, ?_, htu⟩
  rcases List.mem_append.mp hu with hclass | htypes
  · exact List.mem_append_left _ hclass
  · exact List.mem_append_right _ (h htypes)

/-! ## Between questions -/

theorem idle_empty : Idle e V {} where
  sound := sound_empty
  recorded _ _ _ h := by cases h
  openCount := rfl

theorem Idle.openLeads (hs : Idle e V s) : OpenLeads e V s.memo x := by
  -- there is no depth below an empty stack
  rintro y ⟨-, d, -, hd⟩
  have := hs.sound.stacked.depth_lt hd
  rw [hs.openCount] at this
  exact absurd this (Nat.not_lt_zero d)

theorem Idle.of_grows (hs : Idle e V s) (hready : Ready e V s') (h : s.memo.Grows s'.memo) :
    Idle e V s' :=
  ⟨hready, h.openCount.trans hs.openCount⟩

theorem Idle.floor_eq (hs : Idle e V s) : floor e V s.memo = surface e :=
  floor_of_openCount_eq_zero hs.sound.stacked hs.openCount

theorem surface_subset_ceiling {m : Memo} : surface e ⊆ ceiling e V m :=
  surface_subset_surfaceGiven

/-- **With nothing in flight, an answer is the one the surface gives.** -/
theorem Idle.answer_iff {b : Bool} (hs : Idle e V s) (hready : Ready e V s')
    (ha : Answered e V s.memo x b s'.memo) : b = true ↔ x ∈ surface e := by
  have hfloor := (hs.of_grows hready ha.grows).floor_eq
  constructor
  · intro hb
    rw [← hfloor]
    exact ha.mem_floor hb
  · intro hx
    cases hb : b with
    | true => rfl
    | false => exact absurd (surface_subset_ceiling hx) (ha.not_mem_ceiling hb)

/-! ## One question -/

/-- The evaluator's bound leaves room for a type in scope. -/
theorem fits_bound (hready : Ready e V s) (hopen : OpenLeads e V s.memo (.ofType t))
    (ht : t ∈ scope e types) : Fits e V types (e.bound types) t s where
  ready := hready
  mem_scope := ht
  openLeads := hopen
  need_le := Nat.le_trans (need_le_room ht) room_le_bound

theorem fitsClass_bound (hs : Idle e V s) (hc : e.classNamed? c.name = some c) :
    FitsClass e V types (e.bound types) c s where
  ready := hs.toReady
  found := hc
  openLeads := hs.openLeads
  room_le := room_le_bound

/-- Where all properties have types, what is handled is answered. -/
theorem Handles.replies (htyped : ∀ c ∈ e.classes, ∀ p ∈ c.properties, p.valueType?.isSome)
    {q : Query Bool} (h : Handles e V q x s) (hx : ∀ c, x = .ofClass c → c ∈ e.classes) :
    Replies e V q x s :=
  h.resolve_right fun hfails => not_mem_mayTrip htyped hx hfails.2

section Asked

variable (htyped : ∀ c ∈ e.classes, ∀ p ∈ c.properties, p.valueType?.isSome)
  (hV : ∀ t ∈ scope e types, t ∈ V.types) (hs : Idle e V s)

include htyped hV

theorem replies_typeWithin (hready : Ready e V s) (hopen : OpenLeads e V s.memo (.ofType t))
    (ht : t ∈ scope e types) : Replies e V (typeWithin e (e.bound types) t) (.ofType t) s :=
  (serves_typeWithin hV _ t s (fits_bound hready hopen ht)).replies htyped fun _ h => nomatch h

include hs

/-- **A rule put to an idle evaluator comes to what it comes to on the
surface.** -/
theorem ask_run {α : Type} {q : Inquiry α} (hq : q.Within (· ∈ types)) :
    ∃ s', (q.run (typeWithin e (e.bound types))).ask s = (q.eval (accepting (surface e)), s') ∧
      Idle e V s' := by
  rcases run_of_within hq hs.toReady fun t ht s₁ hready hg => Or.inl
    (replies_typeWithin htyped hV hready (hs.openLeads.of_grows hg) (mem_scope_of_mem ht)) with
    ⟨s', hready, hgrows, hrun⟩ | ⟨-, t, -, hmay⟩
  · have hidle := hs.of_grows hready hgrows
    exact ⟨s', hrun _ hidle.floor_eq.subset surface_subset_ceiling, hidle⟩
  · exact absurd hmay (not_mem_mayTrip htyped fun _ h => nomatch h)

omit hV

theorem ask_typeExportable (hV : ∀ u ∈ scope e [t], u ∈ V.types) :
    ∃ s', (typeExportable e t).ask s = (.ok (accepting (surface e) t), s') ∧ Idle e V s' := by
  obtain ⟨b, s', hask, hready, ha⟩ := (replies_typeWithin htyped hV hs.toReady hs.openLeads
    (mem_scope_of_mem (List.mem_singleton_self t))).ready
  refine ⟨s', ?_, hs.of_grows hready ha.grows⟩
  have hb : b = accepting (surface e) t := by
    rw [Bool.eq_iff_iff, accepting_eq_true_iff]
    exact hs.answer_iff hready ha
  rw [← hb]
  exact hask

theorem ask_classExportable (hV : ∀ t ∈ scope e c.types, t ∈ V.types)
    (hc : e.classNamed? c.name = some c) :
    ∃ b s', (classExportable e c).ask s = (.ok b, s') ∧ Idle e V s' ∧
      (b = true ↔ Subject.ofClass c ∈ surface e) ∧
      s'.memo.state? (.ofClass c.name.text) = some (.resolved b) := by
  have hhandles := (serves_typeWithin hV _).handles_examineClass (fitsClass_bound hs hc)
  obtain ⟨b, s', hask, hready, ha⟩ := (hhandles.replies htyped fun d hd => by
    rw [← Subject.ofClass.inj hd]
    exact mem_classes_of_classNamed? hc).ready
  exact ⟨b, s', hask, hs.of_grows hready ha.grows, hs.answer_iff hready ha,
    ha.kept hc hs.openCount⟩

/-- **The verdict on a class** accepts it where it lies on the surface, and is
judged on reference cycles with the class alone. -/
theorem ask_classVerdict (hV : ∀ t ∈ scope e c.types, t ∈ V.types)
    (hc : e.classNamed? c.name = some c) :
    ∃ v s', (classVerdict e c).ask s = (.ok v, s') ∧ Idle e V s' ∧
      (v.isExportable = true ↔ Subject.ofClass c ∈ surface e) ∧ JudgedOnCycle e c v := by
  obtain ⟨b, s', hask, hidle, hb, hkept⟩ := ask_classExportable htyped hs hV hc
  obtain ⟨v, hv, hvb, hjudged⟩ := hidle.recorded c b hc hkept
  refine ⟨v, s', ?_, hidle, hvb ▸ hb, hjudged⟩
  rw [classVerdict, Query.ask_bind_of_ok hask, Query.ask_bind_of_ok (Query.ask_get s'),
    Query.ask_pure, hv]
  rfl

theorem ask_functionVerdict {f : FunctionDecl} (hV : ∀ t ∈ scope e f.types, t ∈ V.types) :
    ∃ s', (functionVerdict e f).ask s
      = (.ok (Rule.firstOf (Rule.functionReasons (accepting (surface e)) f)), s') ∧
      Idle e V s' := by
  have hrun := ask_run htyped hV hs (Rule.within_ofFunction fun t ht => ht)
  rwa [Inquiry.run_ofFunction, Rule.eval_ofFunction] at hrun

theorem ask_constructorVerdict {k : ConstructorDecl} (hV : ∀ t ∈ scope e k.types, t ∈ V.types) :
    ∃ s', (constructorVerdict e k).ask s
      = (.ok (Rule.firstOf (Rule.constructorReasons (accepting (surface e)) k)), s') ∧
      Idle e V s' := by
  have hrun := ask_run htyped hV hs (Rule.within_ofConstructor fun t ht => ht)
  rwa [Inquiry.run_ofConstructor, Rule.eval_ofConstructor] at hrun

theorem ask_propertyVerdict {p : PropertyDecl} (hV : ∀ t ∈ scope e p.types, t ∈ V.types)
    (hp : p.valueType?.isSome) :
    ∃ s', (propertyVerdict e p).ask s
      = (.ok (Rule.firstOf (Rule.propertyReasons e.options (accepting (surface e)) p)), s') ∧
      Idle e V s' := by
  have hwithin : (Rule.ofProperty e.options Inquiry.put p).Within (· ∈ p.types) :=
    Rule.within_ofProperty fun t ht => ht
  have hrun := ask_run htyped hV hs hwithin
  rwa [Inquiry.run_ofProperty, Rule.eval_ofProperty _ hp] at hrun

end Asked

/-! ## Questions one after another -/

/-- A question with yes or no for an answer. -/
inductive Question where
  | typeExportable (t : TypeRef)
  | classExportable (c : ClassDecl)
  | classVerdict (c : ClassDecl)
  | functionVerdict (f : FunctionDecl)
  | constructorVerdict (k : ConstructorDecl)
  | propertyVerdict (p : PropertyDecl)

namespace Question

/-- The types a question is about. -/
def mentioned : Question → List TypeRef
  | .typeExportable t => [t]
  | .classExportable c => c.types
  | .classVerdict c => c.types
  | .functionVerdict f => f.types
  | .constructorVerdict k => k.types
  | .propertyVerdict p => p.types

variable (e)

/-- The question put to an evaluator. -/
def put : Question → Query Bool
  | .typeExportable t => Evaluator.typeExportable e t
  | .classExportable c => Evaluator.classExportable e c
  | .classVerdict c => Verdict.isExportable <$> Evaluator.classVerdict e c
  | .functionVerdict f => Verdict.isExportable <$> Evaluator.functionVerdict e f
  | .constructorVerdict k => Verdict.isExportable <$> Evaluator.constructorVerdict e k
  | .propertyVerdict p => Verdict.isExportable <$> Evaluator.propertyVerdict e p

/-- What may be asked: classes of the evaluator and properties with types. -/
def Proper : Question → Prop
  | .typeExportable _ => True
  | .classExportable c => e.classNamed? c.name = some c
  | .classVerdict c => e.classNamed? c.name = some c
  | .functionVerdict _ => True
  | .constructorVerdict _ => True
  | .propertyVerdict p => p.valueType?.isSome

/-- **The right answer**: types and classes can be exported where they lie on
the surface, other declarations where they meet their criterion on it. -/
def Accepted : Question → Prop
  | .typeExportable t => Subject.ofType t ∈ surface e
  | .classExportable c => Subject.ofClass c ∈ surface e
  | .classVerdict c => Subject.ofClass c ∈ surface e
  | .functionVerdict f => FunctionAdmitted (fun t => Subject.ofType t ∈ surface e) f
  | .constructorVerdict k => ConstructorAdmitted (fun t => Subject.ofType t ∈ surface e) k
  | .propertyVerdict p => PropertyAdmitted e.options (fun t => Subject.ofType t ∈ surface e) p

end Question

variable (e) in
/-- What questions put one after another in a session have for answers. -/
def answers (s : Session) : List Question → List (Except ModuleError Bool)
  | [] => []
  | q :: qs => ((q.put e).ask s).1 :: answers ((q.put e).ask s).2 qs

theorem ask_isExportable {q : Query Verdict} {v : Verdict} (h : q.ask s = (.ok v, s')) :
    (Verdict.isExportable <$> q).ask s = (.ok v.isExportable, s') := by
  rw [map_eq_pure_bind, Query.ask_bind_of_ok h, Query.ask_pure]

/-- **One question**, put to an idle evaluator, is answered right and leaves
the evaluator idle. -/
theorem ask_put (htyped : ∀ c ∈ e.classes, ∀ p ∈ c.properties, p.valueType?.isSome)
    {q : Question} (hV : ∀ t ∈ scope e q.mentioned, t ∈ V.types) (hq : q.Proper e)
    (hs : Idle e V s) :
    ∃ b s', (q.put e).ask s = (.ok b, s') ∧ Idle e V s' ∧ (b = true ↔ q.Accepted e) := by
  cases q with
  | typeExportable t =>
    obtain ⟨s', hask, hidle⟩ := ask_typeExportable htyped hs hV
    exact ⟨_, s', hask, hidle, accepting_eq_true_iff⟩
  | classExportable c =>
    obtain ⟨b, s', hask, hidle, hb, -⟩ := ask_classExportable htyped hs hV hq
    exact ⟨b, s', hask, hidle, hb⟩
  | classVerdict c =>
    obtain ⟨v, s', hask, hidle, hv, -⟩ := ask_classVerdict htyped hs hV hq
    exact ⟨_, s', ask_isExportable hask, hidle, hv⟩
  | functionVerdict f =>
    obtain ⟨s', hask, hidle⟩ := ask_functionVerdict htyped hs hV
    exact ⟨_, s', ask_isExportable hask, hidle, isExportable_firstOf_functionReasons_iff⟩
  | constructorVerdict k =>
    obtain ⟨s', hask, hidle⟩ := ask_constructorVerdict htyped hs hV
    exact ⟨_, s', ask_isExportable hask, hidle, isExportable_firstOf_constructorReasons_iff⟩
  | propertyVerdict p =>
    obtain ⟨s', hask, hidle⟩ := ask_propertyVerdict htyped hs hV hq
    exact ⟨_, s', ask_isExportable hask, hidle, isExportable_firstOf_propertyReasons_iff⟩

open Classical in
theorem answers_of_idle (htyped : ∀ c ∈ e.classes, ∀ p ∈ c.properties, p.valueType?.isSome)
    {qs : List Question} (hV : ∀ q ∈ qs, ∀ t ∈ scope e q.mentioned, t ∈ V.types)
    (hqs : ∀ q ∈ qs, q.Proper e) (hs : Idle e V s) :
    answers e s qs = qs.map fun q => .ok (decide (q.Accepted e)) := by
  induction qs generalizing s with
  | nil => rfl
  | cons q qs ih =>
    obtain ⟨b, s', hask, hidle, hb⟩ :=
      ask_put htyped (hV q List.mem_cons_self) (hqs q List.mem_cons_self) hs
    have hrest := ih (fun q' h' => hV q' (List.mem_cons_of_mem q h'))
      (fun q' h' => hqs q' (List.mem_cons_of_mem q h')) hidle
    have hdecide : b = decide (q.Accepted e) := by
      rw [Bool.eq_iff_iff, decide_eq_true_iff]
      exact hb
    rw [answers, hask, List.map_cons, hrest, hdecide]

open Classical in
/-- **Every answer is the one the greatest fixed point gives.** Questions put
one after another to an evaluator of a module, as many as there are and in any
order, do not fail, and a type, a class or another declaration is accepted just
where it lies on the surface of the module or meets its criterion on it. -/
theorem answers_eq (m : SourceModule) (options : RuleOptions) (qs : List Question)
    (hreg : (ofModule m options).Regular (qs.flatMap Question.mentioned))
    (hqs : ∀ q ∈ qs, q.Proper (ofModule m options)) :
    answers (ofModule m options) {} qs
      = qs.map fun q => .ok (decide (q.Accepted (ofModule m options))) := by
  refine answers_of_idle (V := hreg.vocabulary) hreg.typed (fun q hq t ht => ?_) hqs idle_empty
  exact scope_subset (fun u hu => List.mem_flatMap.mpr ⟨q, hq, hu⟩) ht

/-- A class that holds another class. -/
def holder : ClassDecl where
  name := ⟨"test.A"⟩
  members := [.property { name := ⟨"test.A.b"⟩, backingField := some (.plain "test.B") }]

/-- A class that holds its holder, and a property that cannot be exported. -/
def held : ClassDecl where
  name := ⟨"test.B"⟩
  members :=
    [.property { name := ⟨"test.B.a"⟩, backingField := some (.plain "test.A") },
      .property { name := ⟨"test.B.bad"⟩, backingField := some (.plain "kotlin.Long") }]

/-- A module of two classes that hold one another. -/
def partners : SourceModule where
  name := "test"
  files := [{ path := "A.kt", declarations := [holder.toDeclaration, held.toDeclaration] }]

open Classical in
/-- Neither of two classes that hold one another can be exported if one of them
cannot, whichever is asked about first. -/
theorem answers_partners :
    let qs : List Question :=
      [.classVerdict holder, .typeExportable (.plain "test.B"), .classExportable held]
    (ofModule partners {}).Regular (qs.flatMap Question.mentioned) ∧
      (∀ q ∈ qs, q.Proper (ofModule partners {})) ∧
        [.ok false, .ok false, .ok false]
          = qs.map fun q => (.ok (decide (q.Accepted (ofModule partners {}))) :
              Except ModuleError Bool) := by
  intro qs
  have hclasses : (ofModule partners {}).classes = [held, holder] := rfl
  have hscope : scope (ofModule partners {}) (qs.flatMap Question.mentioned)
      = [.plain "test.A", .plain "kotlin.Long", .plain "test.B", .plain "test.B",
          .plain "test.B", .plain "test.A", .plain "kotlin.Long"] := rfl
  have hplain : ∀ t ∈ scope (ofModule partners {}) (qs.flatMap Question.mentioned),
      ∃ name, t = .plain name := by
    rw [hscope]
    simp
  have hreg : (ofModule partners {}).Regular (qs.flatMap Question.mentioned) := by
    refine ⟨?_, ?_⟩
    · rw [hclasses]
      decide
    · exact fun t ht u hu _ _ => TypeRef.erased_eq_of_plain (hplain t ht) (hplain u hu)
  have hproper : ∀ q ∈ qs, q.Proper (ofModule partners {}) := by
    intro q hq
    simp only [qs, List.mem_cons, List.not_mem_nil, or_false] at hq
    rcases hq with rfl | rfl | rfl
    · rfl
    · trivial
    · rfl
  have hanswers : answers (ofModule partners {}) {} qs = [.ok false, .ok false, .ok false] := by
    decide +kernel
  refine ⟨hreg, hproper, ?_⟩
  rw [← hanswers]
  exact answers_eq partners {} qs hreg hproper

end Evaluator

end ExportSurface
