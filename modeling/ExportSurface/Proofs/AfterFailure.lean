import ExportSurface.Proofs.Hiding
import ExportSurface.Proofs.Malformed
import ExportSurface.Proofs.OpenEvaluations
import ExportSurface.Proofs.SharedKeys
/-!
# Questions after a failure

A question that fails closes every evaluation that was open with a `false`, and
what was answered inside them before stays answered. The subjects of those
evaluations can all fail, so none of it touches a subject that cannot: hide what
can fail, and the session left is one to put questions in
(`Evaluator.Clear`), whichever questions were put and however they ended
(`Evaluator.Course.clear`). So a question that asks about nothing that can fail
is answered after a failure as it is without
(`Evaluator.answered_alike_after_failure`), and by the export surface.

More than that is not so (`Evaluator.failure_tells`). What a failed question has
worked out on the way stays, so a class that can fail may be rejected later where
it would have failed, and a class on a reference cycle for another reason. And
what shares a key or a name with something that was looked at has its answer.
-/

namespace ExportSurface

namespace Evaluator

variable {e : Evaluator} {V : Vocabulary} {α : Type} {stack : List MemoKey} {task : Task α}
  {s s' s₂ : Session} {moments : List Moment} {r : Ending α} {t : TypeRef} {c : ClassDecl}
  {key k : MemoKey} {K : Set MemoKey} {types : List TypeRef} {answer : Bool} {v : Verdict}
  {q : Question} {qs : List Question}

/-! ## Sessions with what can fail hidden -/

variable (e V) in
/-- A session that is one to put questions in if what can fail is hidden, and in
which nothing else is in flight. -/
structure Clear (s : Session) : Prop where
  ready : Ready e V (s.without (tainted e V))
  closed : ∀ k ∉ tainted e V, isOpen s.memo k = false

theorem isOpen_without_of_not_mem (h : key ∉ K) :
    isOpen (s.without K).memo key = isOpen s.memo key := by
  have hstate : (s.without K).memo.state? key = s.memo.state? key :=
    Memo.state?_without_of_not_mem h
  rw [isOpen, isOpen, hstate]

namespace Clear

theorem isOpen_without (h : Clear e V s) (key : MemoKey) :
    isOpen (s.without (tainted e V)).memo key = false := by
  by_cases hkey : key ∈ tainted e V
  · have hstate : (s.without (tainted e V)).memo.state? key = none :=
      Memo.state?_without_of_mem hkey
    rw [isOpen, hstate]
  · exact (isOpen_without_of_not_mem hkey).trans (h.closed key hkey)

theorem state?_ne_inFlight (h : Clear e V s) (key : MemoKey) (d : Nat) :
    (s.without (tainted e V)).memo.state? key ≠ some (.inFlight d) := by
  intro hd
  have hopen := isOpen_eq_true_iff.mpr ⟨d, hd⟩
  rw [h.isOpen_without] at hopen
  cases hopen

/-- With nothing in flight, all that is leads to anything. -/
theorem openLeads (h : Clear e V s) (y : Subject) :
    OpenLeads e V (s.without (tainted e V)).memo y := by
  rintro x ⟨-, d, -, hd⟩
  exact absurd hd (h.state?_ne_inFlight x.key d)

theorem inFlight_eq (h : Clear e V s) : inFlight e V (s.without (tainted e V)).memo = ∅ := by
  refine Set.eq_empty_of_forall_notMem ?_
  rintro x ⟨-, d, -, hd⟩
  exact h.state?_ne_inFlight x.key d hd

theorem empty : Clear e V {} where
  ready := ⟨sound_empty, fun _ _ _ h => nomatch h⟩
  closed _ _ := rfl

/-- **What is done with subjects that can fail does not matter.** Where entries and
verdicts of other subjects are as they were, the session stays clear. -/
theorem of_state?_eq (h : Clear e V s)
    (hstate : ∀ k ∉ tainted e V, s'.memo.state? k = s.memo.state? k)
    (hverdicts : ∀ name : QualifiedName, .ofClass name.text ∉ tainted e V →
      s'.verdicts.lookup name = s.verdicts.lookup name) : Clear e V s' := by
  have hwithout : ∀ k, (s'.without (tainted e V)).memo.state? k
      = (s.without (tainted e V)).memo.state? k := by
    intro k
    by_cases hk : k ∈ tainted e V
    · exact (Memo.state?_without_of_mem hk).trans (Memo.state?_without_of_mem hk).symm
    · exact (Memo.state?_without_of_not_mem hk).trans
        ((hstate k hk).trans (Memo.state?_without_of_not_mem hk).symm)
  have hopen : ∀ k ∉ tainted e V, isOpen s'.memo k = false := by
    intro k hk
    rw [isOpen, hstate k hk]
    exact h.closed k hk
  have hflight : ∀ {k d}, (s'.without (tainted e V)).memo.state? k ≠ some (.inFlight d) :=
    fun hd => h.state?_ne_inFlight _ _ ((hwithout _).symm.trans hd)
  have hspared : (s'.without (tainted e V)).memo.spared
      = (s.without (tainted e V)).memo.spared :=
    Set.ext fun k => by rw [Memo.spared, Memo.spared, Set.mem_ofPred, Set.mem_ofPred, hwithout]
  refine ⟨⟨⟨⟨fun hd => absurd hd hflight, fun hd => absurd hd hflight⟩, fun x hx => ?_,
    fun x hx => ?_⟩, fun c b hc hb => ?_⟩, hopen⟩
  · exact h.ready.sound.accepted x ⟨hx.1, (hwithout _).symm.trans hx.2⟩
  · rw [ceiling, hspared]
    exact h.ready.sound.rejected x ⟨hx.1, (hwithout _).symm.trans hx.2⟩
  · have hkey : .ofClass c.name.text ∉ tainted e V := by
      intro hmem
      rw [show (s'.without (tainted e V)).memo.state? _ = none from
        Memo.state?_without_of_mem hmem] at hb
      cases hb
    obtain ⟨v, hv, hjudged⟩ := h.ready.recorded c b hc ((hwithout _).symm.trans hb)
    rw [lookup_verdicts_without hkey] at hv
    exact ⟨v, (lookup_verdicts_without hkey).trans ((hverdicts c.name hkey).trans hv), hjudged⟩

theorem lookup (h : Clear e V s) (key : MemoKey) :
    Clear e V { s with memo := (s.memo.lookup key).2 } :=
  h.of_state?_eq (fun _ _ => Memo.state?_lookup s.memo key) fun _ _ => rfl

section Tainted

variable (hkey : key ∈ tainted e V)
include hkey

theorem opened (h : Clear e V s) : Clear e V (opened s key) := by
  refine h.of_state?_eq (fun k hk => ?_) fun _ _ => rfl
  have hne : k ≠ key := fun heq => hk (heq ▸ hkey)
  exact (Memo.state?_begin_of_ne hne).trans (Memo.state?_lookup s.memo key)

theorem closing (h : Clear e V s) : Clear e V (Evaluator.closed s key answer) :=
  h.of_state?_eq (fun _ hk => Memo.state?_resolve_of_ne fun heq => hk (heq ▸ hkey)) fun _ _ => rfl

end Tainted

theorem concluded {result : Except ModuleError Verdict}
    (hkey : .ofClass c.name.text ∈ tainted e V) (h : Clear e V s) :
    Clear e V (concluded s c result) := by
  cases result with
  | error failure => exact h.closing hkey
  | ok v =>
    refine h.of_state?_eq (fun k hk => ?_) fun name hname => ?_
    · have hne : k ≠ .ofClass c.name.text := fun heq => hk (heq ▸ hkey)
      rw [Evaluator.concluded, memo_closedBy]
      exact Memo.state?_resolve_of_ne hne
    · have hne : (name == c.name) = false := by
        have : name ≠ c.name := fun heq => hname (heq ▸ hkey)
        simpa using this
      rw [Evaluator.concluded, closedBy]
      split
      · change List.lookup name ((c.name, v) :: s.verdicts) = _
        rw [List.lookup_cons, hne]
      · rfl

end Clear

/-! ## Courses keep sessions clear -/

/-- The classes of the index and the types in scope lead to no others. -/
theorem confined_scope (e : Evaluator) (types : List TypeRef) :
    Confined e (fun c => e.classNamed? c.name = some c) (· ∈ scope e types) where
  child ht hu := mem_scope_of_mem_children ht hu
  found hc := classNamed?_self hc
  checked hc ht := mem_scope_of_checks (mem_classes_of_classNamed? hc) ht

section Scope

variable (hV : ∀ t ∈ scope e types, t ∈ V.types)
include hV

/-- The evaluation of what cannot fail keeps a session clear. -/
theorem Clear.of_untainted (hs : Clear e V s) {x : Subject} {task : Task Bool} {r : Ending Bool}
    (h : Course e stack task s moments r s')
    (huntainted : Untainted e V types (s.without (tainted e V)).memo task)
    (hhandles : Handles e V (task.query e) x (s.without (tainted e V)))
    (hx : x ∉ mayTrip e) : Clear e V s' := by
  have hsame := h.without hV hs.ready huntainted
  obtain ⟨b, s₁, hask, hready, ha⟩ := (hhandles.resolve_right fun hfails => hx hfails.2).ready
  obtain rfl : s'.without (tainted e V) = s₁ := congrArg Prod.snd (hsame.symm.trans hask)
  refine ⟨hready, fun k hk => ?_⟩
  rw [← isOpen_without_of_not_mem hk, isOpen_of_grows ha.grows]
  exact hs.isOpen_without k

/-- **A course keeps a session clear**, whether it ends with a value or fails. -/
theorem Course.clear (h : Course e stack task s moments r s')
    (hof : task.Of (fun c => e.classNamed? c.name = some c) (· ∈ scope e types))
    (hs : Clear e V s) : Clear e V s' := by
  have hinside : ∀ {t}, t ∈ scope e types → (inside e t).Of _ _ :=
    (confined_scope e types).inside
  induction h with
  | done => exact hs
  | fail => exact hs
  | ask _ _ first rest => exact rest (hof.2 _) (first hof.1 hs)
  | askBroken _ ih => exact ih hof.1 hs
  | transient _ _ ih => exact ih (hinside hof) hs
  | typeKnown _ _ => exact hs.lookup _
  | @typeExamined stack s s₂ t moments r hrem hfound hin ih =>
    by_cases hmay : Subject.ofType t ∈ mayTrip e
    · have hx : Subject.ofType t ∈ remembered e V := ⟨⟨t, hV t hof, rfl⟩, hrem⟩
      have hkey : .ofType t.key ∈ tainted e V := ⟨_, hx, hmay, rfl⟩
      exact (ih (hinside hof) (hs.opened hkey)).closing hkey
    · exact hs.of_untainted hV (.typeExamined hrem hfound hin) ⟨hof, hs.openLeads _, hmay⟩
        (handles_typeExportable hV hof hs.ready (hs.openLeads _)) hmay
  | classKnown _ => exact hs.lookup _
  | @classExamined stack s s₂ c moments r hfound hin ih =>
    by_cases hmay : Subject.ofClass c ∈ mayTrip e
    · have hx : Subject.ofClass c ∈ remembered e V := hof
      have hkey : .ofClass c.name.text ∈ tainted e V := ⟨_, hx, hmay, rfl⟩
      exact (ih ((confined_scope e types).rule hof) (hs.opened hkey)).concluded hkey
    · exact hs.of_untainted hV (.classExamined hfound hin) ⟨hof, hs.openLeads _, hmay⟩
        (handles_class hV hof hs.ready (hs.openLeads _)) hmay

end Scope

/-! ## Questions in clear sessions -/

section Asked

variable (hV : ∀ t ∈ scope e types, t ∈ V.types) (hs : Clear e V s)
  (hopen : s.memo.openCount = 0)
include hV hs hopen

/-- A type that cannot fail is accepted where it lies on the surface. -/
theorem ask_typeExportable_of_clear (ht : t ∈ scope e types)
    (hmay : Subject.ofType t ∉ mayTrip e) :
    ((typeExportable e t).ask s).1 = .ok (accepting (surface e) t) := by
  have hidle : Idle e V (s.without (tainted e V)) := ⟨hs.ready, hopen⟩
  obtain ⟨moments, r, s', h⟩ := terminates_ofType e t s []
  have hsame := h.without hV hs.ready ⟨ht, hs.openLeads _, hmay⟩
  obtain ⟨b, s₁, hask, hready, ha⟩ :=
    ((handles_typeExportable hV ht hs.ready (hs.openLeads _)).resolve_right
      fun hfails => hmay hfails.2).ready
  have hb : b = accepting (surface e) t := by
    rw [Bool.eq_iff_iff, accepting_eq_true_iff]
    exact hidle.answer_iff hready ha
  have hresult := congrArg Prod.fst (hsame.symm.trans hask)
  exact (congrArg Prod.fst h.ask_eq).trans (hresult.trans (congrArg Except.ok hb))

/-- A class of the index that cannot fail is accepted where it lies on the surface,
by the answer on it and by the verdict. -/
theorem ask_class_of_clear (hc : e.classNamed? c.name = some c)
    (hmay : Subject.ofClass c ∉ mayTrip e) :
    ∃ b v, ((classExportable e c).ask s).1 = .ok b ∧ ((classVerdict e c).ask s).1 = .ok v ∧
      v.isExportable = b ∧ (b = true ↔ Subject.ofClass c ∈ surface e) := by
  have hidle : Idle e V (s.without (tainted e V)) := ⟨hs.ready, hopen⟩
  have hx : Subject.ofClass c ∈ remembered e V := hc
  obtain ⟨moments, r, s', h⟩ := terminates_task e (.classExportable c) s []
  have hsame := h.without hV hs.ready ⟨hc, hs.openLeads _, hmay⟩
  obtain ⟨b, s₁, hask, hready, ha⟩ :=
    ((handles_class hV hc hs.ready (hs.openLeads _)).resolve_right
      fun hfails => hmay hfails.2).ready
  have hends := hsame.symm.trans hask
  obtain rfl : s'.without (tainted e V) = s₁ := congrArg Prod.snd hends
  -- the answer was kept, so there is a verdict to go with it, and nothing of it is hidden
  obtain ⟨v, hv, hvb, -⟩ := hready.recorded c b hc (ha.kept hx hidle.openCount)
  rw [lookup_verdicts_without (key_not_mem_tainted hx hmay)] at hv
  have hreal : (classExportable e c).ask s = (.ok b, s') := by
    rw [ask_classExportable_eq]
    exact h.ask_eq.trans (congrArg (·, s') (congrArg Prod.fst hends))
  refine ⟨b, v, by rw [hreal], ?_, hvb, hidle.answer_iff hready ha⟩
  rw [classVerdict, Query.ask_bind_of_ok hreal, Query.ask_bind_of_ok (Query.ask_get s'),
    Query.ask_pure, hv]
  rfl

omit hV in
/-- **A rule that asks about nothing that can fail** comes to what it comes to on the
surface, be it a failure of its own. -/
theorem ask_rule_of_clear (hV : ∀ t ∈ scope e types, t ∈ V.types) {i : Inquiry α}
    (hi : i.Within (· ∈ types))
    (hasked : ∀ t ∈ i.asked (accepting (surface e)), Subject.ofType t ∉ mayTrip e) :
    ((i.run (typeWithin e (e.bound types))).ask s).1 = i.eval (accepting (surface e)) := by
  have hidle : Idle e V (s.without (tainted e V)) := ⟨hs.ready, hopen⟩
  have hscope : i.Within (· ∈ scope e types) := hi.imp fun t ht => mem_scope_of_mem ht
  have hsurface : accepting (surfaceGiven e (inFlight e V (s.without (tainted e V)).memo))
      = accepting (surface e) := by
    rw [hs.inFlight_eq, surfaceGiven_empty]
  obtain ⟨moments, r, s', h⟩ :=
    terminates_ofRule hscope (fun t _ s' _ => terminates_ofType e t s') ([] : List MemoKey)
  have hsame := h.without hV hs.ready
    ⟨hscope.imp fun t ht => ⟨ht, hs.openLeads _⟩, hsurface.symm ▸ hasked⟩
  rw [ask_run_typeWithin hscope]
  refine (congrArg Prod.fst h.ask_eq).trans ?_
  rcases run_of_within hscope hs.ready fun t ht s₁ hready hg =>
    handles_typeExportable hV ht hready ((hs.openLeads _).of_grows hg) with
    ⟨s₁, hready, hgrows, hrun⟩ | ⟨-, t, ht, hmay⟩
  · have hfloor := (hidle.of_grows hready hgrows).floor_eq
    have hask := hrun _ hfloor.subset surface_subset_ceiling
    exact congrArg Prod.fst (hsame.symm.trans hask)
  · exact absurd hmay (hasked t (hsurface ▸ ht))

end Asked

/-! ## Questions after a failure -/

namespace Question

/-- Whether a question asks about nothing that can fail, as it goes on the export
surface. -/
def Steady (e : Evaluator) : Question → Prop
  | .typeExportable t => Subject.ofType t ∉ mayTrip e
  | .classExportable c => Subject.ofClass c ∉ mayTrip e
  | .classVerdict c => Subject.ofClass c ∉ mayTrip e
  | .functionVerdict f =>
    ∀ t ∈ (Rule.ofFunction Inquiry.put f).asked (accepting (surface e)),
      Subject.ofType t ∉ mayTrip e
  | .constructorVerdict k =>
    ∀ t ∈ (Rule.ofConstructor Inquiry.put k).asked (accepting (surface e)),
      Subject.ofType t ∉ mayTrip e
  | .propertyVerdict p =>
    ∀ t ∈ (Rule.ofProperty e.options Inquiry.put p).asked (accepting (surface e)),
      Subject.ofType t ∉ mayTrip e

open Classical in
/-- The reply to a question that goes by the export surface alone: the whole
verdict or the error of a function, a constructor or a property, and of a class
whether it is accepted. -/
def RepliedBySurface (e : Evaluator) (s : Session) : Question → Prop
  | .typeExportable t =>
    ((Evaluator.typeExportable e t).ask s).1 = .ok (decide (Subject.ofType t ∈ surface e))
  | .classExportable c =>
    ((Evaluator.classExportable e c).ask s).1 = .ok (decide (Subject.ofClass c ∈ surface e))
  | .classVerdict c =>
    ∃ v, ((Evaluator.classVerdict e c).ask s).1 = .ok v ∧
      v.isExportable = decide (Subject.ofClass c ∈ surface e)
  | .functionVerdict f =>
    ((Evaluator.functionVerdict e f).ask s).1
      = (Rule.ofFunction Inquiry.put f).eval (accepting (surface e))
  | .constructorVerdict k =>
    ((Evaluator.constructorVerdict e k).ask s).1
      = (Rule.ofConstructor Inquiry.put k).eval (accepting (surface e))
  | .propertyVerdict p =>
    ((Evaluator.propertyVerdict e p).ask s).1
      = (Rule.ofProperty e.options Inquiry.put p).eval (accepting (surface e))

end Question

/-- In a clear session, a question that asks about nothing that can fail is replied
to by the surface. -/
theorem repliedBySurface_of_clear (hV : ∀ t ∈ scope e q.mentioned, t ∈ V.types)
    (hq : q.Indexed e) (hsteady : q.Steady e) (hs : Clear e V s) (hopen : s.memo.openCount = 0) :
    q.RepliedBySurface e s := by
  classical
  cases q with
  | typeExportable t =>
    exact ask_typeExportable_of_clear hV hs hopen (mem_scope_of_mem (List.mem_singleton_self t))
      hsteady
  | classExportable c =>
    obtain ⟨b, v, hb, -, -, hiff⟩ := ask_class_of_clear hV hs hopen (hq c rfl) hsteady
    exact hb.trans (congrArg Except.ok (Bool.eq_iff_iff.mpr (hiff.trans decide_eq_true_iff.symm)))
  | classVerdict c =>
    obtain ⟨b, v, -, hv, hvb, hiff⟩ := ask_class_of_clear hV hs hopen (hq c rfl) hsteady
    refine ⟨v, hv, hvb.trans (Bool.eq_iff_iff.mpr (hiff.trans decide_eq_true_iff.symm))⟩
  | functionVerdict f =>
    have hrun := ask_rule_of_clear hs hopen hV (Rule.within_ofFunction fun t ht => ht) hsteady
    rwa [Inquiry.run_ofFunction] at hrun
  | constructorVerdict k =>
    have hrun := ask_rule_of_clear hs hopen hV (Rule.within_ofConstructor fun t ht => ht) hsteady
    rwa [Inquiry.run_ofConstructor] at hrun
  | propertyVerdict p =>
    have hwithin : (Rule.ofProperty e.options Inquiry.put p).Within (· ∈ p.types) :=
      Rule.within_ofProperty fun t ht => ht
    have hrun := ask_rule_of_clear hs hopen hV hwithin hsteady
    rwa [Inquiry.run_ofProperty] at hrun

/-- **Questions leave a clear session clear**, whether they are answered or fail. -/
theorem Clear.after (hV : ∀ q ∈ qs, ∀ t ∈ scope e q.mentioned, t ∈ V.types)
    (hqs : ∀ q ∈ qs, q.Indexed e) (hs : Clear e V s) : Clear e V (after e s qs) := by
  induction qs generalizing s with
  | nil => exact hs
  | cons q qs ih =>
    obtain ⟨moments, r, s', h⟩ := terminates_task e q s []
    have hclear := h.clear (hV q List.mem_cons_self) (of_task (hqs q List.mem_cons_self)) hs
    have hsession : ((q.put e).ask s).2 = s' := congrArg Prod.snd h.ask_put_eq
    exact ih (fun q' h' => hV q' (List.mem_cons_of_mem q h'))
      (fun q' h' => hqs q' (List.mem_cons_of_mem q h')) (hsession ▸ hclear)

/-- Whether a question is replied to alike in two sessions, be it with an answer
or a failure: by a function, a constructor or a property with all of its
verdict, and by a class as far as it is accepted. -/
def Question.Alike (e : Evaluator) (s s₂ : Session) : Question → Prop
  | .typeExportable t =>
    ((Evaluator.typeExportable e t).ask s).1 = ((Evaluator.typeExportable e t).ask s₂).1
  | .classExportable c =>
    ((Evaluator.classExportable e c).ask s).1 = ((Evaluator.classExportable e c).ask s₂).1
  | .classVerdict c =>
    ∃ v v₂, ((Evaluator.classVerdict e c).ask s).1 = .ok v ∧
      ((Evaluator.classVerdict e c).ask s₂).1 = .ok v₂ ∧ v.isExportable = v₂.isExportable
  | .functionVerdict f =>
    ((Evaluator.functionVerdict e f).ask s).1 = ((Evaluator.functionVerdict e f).ask s₂).1
  | .constructorVerdict k =>
    ((Evaluator.constructorVerdict e k).ask s).1 = ((Evaluator.constructorVerdict e k).ask s₂).1
  | .propertyVerdict p =>
    ((Evaluator.propertyVerdict e p).ask s).1 = ((Evaluator.propertyVerdict e p).ask s₂).1

/-- What is replied by the surface is replied alike. -/
theorem Question.RepliedBySurface.alike (h : q.RepliedBySurface e s)
    (h₂ : q.RepliedBySurface e s₂) : q.Alike e s s₂ := by
  cases q with
  | classVerdict c =>
    obtain ⟨v, hv, hb⟩ := h
    obtain ⟨v₂, hv₂, hb₂⟩ := h₂
    exact ⟨v, v₂, hv, hv₂, hb.trans hb₂.symm⟩
  | _ => exact Eq.trans h (Eq.symm h₂)

/-- Whether class types of one key, among those in the scope of an evaluator and
of some questions, are one type up to nullability. -/
def Faithful (e : Evaluator) (qs : List Question) : Prop :=
  ∀ t ∈ scope e (qs.flatMap Question.mentioned),
    ∀ u ∈ scope e (qs.flatMap Question.mentioned),
    t.className?.isSome → u.className?.isSome → t.key = u.key → t.erased = u.erased

theorem mem_scope_of_question (hq : q ∈ qs) (ht : t ∈ scope e q.mentioned) :
    t ∈ scope e (qs.flatMap Question.mentioned) :=
  scope_subset (fun _ hu => List.mem_flatMap.mpr ⟨q, hq, hu⟩) ht

/-- **After a question, be it one that has failed, others are replied to as if it
had not been put**, as long as they ask about nothing that can fail. Whatever
questions were put before and since, a later one that asks about nothing that can
fail is replied to by the export surface, and alike with that question left out.
Keys are those of one type up to nullability, and questions about classes are about
classes of the index. -/
theorem answered_alike_after_failure (m : SourceModule) (options : RuleOptions)
    (before later : List Question) (failing q : Question)
    (hfaithful : Faithful (ofModule m options) (before ++ failing :: later ++ [q]))
    (hindexed : ∀ q' ∈ before ++ failing :: later ++ [q], q'.Indexed (ofModule m options))
    (hsteady : q.Steady (ofModule m options)) :
    q.RepliedBySurface (ofModule m options)
        (after (ofModule m options) {} (before ++ failing :: later)) ∧
      q.Alike (ofModule m options)
        (after (ofModule m options) {} (before ++ failing :: later))
        (after (ofModule m options) {} (before ++ later)) := by
  let V : Vocabulary :=
    { types := {t | t ∈ scope (ofModule m options)
        ((before ++ failing :: later ++ [q]).flatMap Question.mentioned)}
      faithful := hfaithful }
  have hq : q ∈ before ++ failing :: later ++ [q] :=
    List.mem_append_right _ (List.mem_singleton_self q)
  -- what holds of all questions put holds of any of them
  have hreplied : ∀ qs : List Question, qs ⊆ before ++ failing :: later ++ [q] →
      q.RepliedBySurface (ofModule m options) (after (ofModule m options) {} qs) := by
    intro qs hqs
    have hclear : Clear (ofModule m options) V (after (ofModule m options) {} qs) :=
      .after (fun q' h' _ ht => mem_scope_of_question (hqs h') ht)
        (fun q' h' => hindexed q' (hqs h')) .empty
    exact repliedBySurface_of_clear (V := V) (fun _ ht => mem_scope_of_question hq ht)
      (hindexed q hq) hsteady hclear (grows_after _ _ qs).openCount
  have hall := hreplied (before ++ failing :: later) (List.subset_append_left _ _)
  refine ⟨hall, hall.alike (hreplied (before ++ later) ?_)⟩
  intro q' h'
  rcases List.mem_append.mp h' with hbefore | hlater
  · exact List.mem_append_left _ (List.mem_append_left _ hbefore)
  · exact List.mem_append_left _ (List.mem_append_right _ (List.mem_cons_of_mem _ hlater))

/-- A class without members. -/
def note : ClassDecl where
  name := ⟨"test.N"⟩

/-- A class that holds that class, and a property without a type. -/
def folder : ClassDecl where
  name := ⟨"test.F"⟩
  members :=
    [.property { name := ⟨"test.F.n"⟩, backingField := some (.plain "test.N") },
      .property { name := ⟨"test.F.x"⟩ }]

/-- An evaluator of a module of both. -/
def ofFolder : Evaluator := ofModule (Pass.moduleOf [note.toDeclaration, folder.toDeclaration]) {}

/-- A class without members cannot fail. -/
theorem not_mem_mayTrip_note : Subject.ofClass note ∉ mayTrip ofFolder := by
  intro hmay
  obtain ⟨c, ⟨p, hp, -⟩, hself | hleads⟩ := exists_untyped_of_mem_mayTrip hmay
  · cases hself
    cases hp
  · obtain ⟨y, hy, -⟩ := Relation.TransGen.head'_iff.mp hleads
    cases hy with
    | surface ht => cases ht

/-- A class is given the same verdict after a question has failed that had it
examined. -/
theorem answered_alike_after_failure_note :
    let failing : Question := .classExportable folder
    let later : List Question := [.classVerdict folder]
    ((failing.put ofFolder).ask {}).1 = .error (.untypedProperty ⟨"test.F.x"⟩) ∧
      Question.RepliedBySurface ofFolder (after ofFolder {} (failing :: later))
        (.classVerdict note) ∧
      Question.Alike ofFolder (after ofFolder {} (failing :: later)) (after ofFolder {} later)
        (.classVerdict note) := by
  intro failing later
  refine ⟨by decide +kernel, ?_⟩
  have hscope : scope ofFolder
      ((failing :: later ++ [Question.classVerdict note]).flatMap Question.mentioned)
      = [.plain "test.N", .plain "test.N", .plain "test.N"] := rfl
  have hplain : ∀ t ∈ scope ofFolder
      ((failing :: later ++ [Question.classVerdict note]).flatMap Question.mentioned),
      ∃ name, t = .plain name := by
    rw [hscope]
    simp
  refine answered_alike_after_failure _ {} [] later failing (.classVerdict note) ?_ ?_
    not_mem_mayTrip_note
  · exact fun t ht u hu _ _ => TypeRef.erased_eq_of_plain (hplain t ht) (hplain u hu)
  · intro q hq c hc
    simp only [failing, later, List.nil_append, List.cons_append, List.mem_cons, List.not_mem_nil,
      or_false] at hq
    rcases hq with rfl | rfl | rfl
    · cases hc
      rfl
    · cases hc
      rfl
    · cases hc
      rfl

/-- A class of which nothing is known but a property without a type. -/
def blank : ClassDecl where
  name := ⟨"test.X"⟩
  members := [.property { name := ⟨"test.X.x"⟩ }]

/-- A function of a parameter of some type and of one of that class, for which it
fails. -/
def failingOn (t : TypeRef) : FunctionDecl where
  name := ⟨"test.f"⟩
  returnType := .plain "kotlin.Unit"
  parameters := [⟨"a", t⟩, ⟨"x", .plain "test.X"⟩]

/-- An evaluator of a module of a class, a supertype of it that holds it, and the
class without a type. -/
def ofBlank (c : ClassDecl) : Evaluator :=
  ofModule (Pass.moduleOf [c.toDeclaration, Pass.base.toDeclaration, blank.toDeclaration]) {}

/-- **A question that fails can tell on later ones**, by what it has worked out
before. The supertype of a class with a property without a type is rejected after
it, and fails when asked about first. The reason for which a class is rejected is
another if its supertype was examined first. The array of a class is accepted after
that of a type parameter with the same key. And a class is given the answer of the
class in the index that has its name. -/
theorem failure_tells :
    (((functionVerdict (ofBlank Pass.veiled) (failingOn (.plain "test.A"))).ask {}).1
        = .error (.untypedProperty ⟨"test.X.x"⟩) ∧
      ((classExportable (ofBlank Pass.veiled) Pass.base).ask
        (after (ofBlank Pass.veiled) {} [.functionVerdict (failingOn (.plain "test.A"))])).1
          = .ok false ∧
      ((classExportable (ofBlank Pass.veiled) Pass.base).ask {}).1
        = .error (.untypedProperty ⟨"test.A.x"⟩)) ∧
    (((functionVerdict (ofBlank Pass.derived) (failingOn (.plain "test.B"))).ask {}).1
        = .error (.untypedProperty ⟨"test.X.x"⟩) ∧
      ((classVerdict (ofBlank Pass.derived) Pass.derived).ask
        (after (ofBlank Pass.derived) {} [.functionVerdict (failingOn (.plain "test.B"))])).1
          = .ok (.rejected (.properties ["test.A::bad: kotlin.Long"])) ∧
      ((classVerdict (ofBlank Pass.derived) Pass.derived).ask {}).1
        = .ok (.rejected (.supertypes ["test.B"])) ∧
      ((classExportable (ofBlank Pass.derived) { name := ⟨"test.A"⟩ }).ask
        (after (ofBlank Pass.derived) {} [.functionVerdict (failingOn (.plain "test.B"))])).1
          = .ok false ∧
      ((classExportable (ofBlank Pass.derived) { name := ⟨"test.A"⟩ }).ask {}).1 = .ok true) ∧
    (((functionVerdict (ofBlank Pass.derived) (failingOn arrayOfParameter)).ask {}).1
        = .error (.untypedProperty ⟨"test.X.x"⟩) ∧
      ((typeExportable (ofBlank Pass.derived) arrayOfClass).ask
        (after (ofBlank Pass.derived) {} [.functionVerdict (failingOn arrayOfParameter)])).1
          = .ok true ∧
      ((typeExportable (ofBlank Pass.derived) arrayOfClass).ask {}).1 = .ok false) := by
  decide +kernel

end Evaluator

end ExportSurface
