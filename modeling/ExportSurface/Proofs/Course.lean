import ExportSurface.Proofs.Unfolding
/-!
# The course of an evaluation

The evaluator counts down a bound as it examines types inside one another. The
recursion itself knows of no bound: a type comes to a rule or to the class of
the type, a class to its rule, and a rule to the types that it asks about. As a
relation, with one case for each thing that can happen and the keys of the open
evaluations at hand, it is `Evaluator.Course`.

A course goes as the evaluator does (`Evaluator.Course.ask_eq`), and every
evaluation takes one, of whatever evaluator and in whatever session
(`Evaluator.terminates_ofType`, and with it rules and classes), and one alone
(`Evaluator.Course.unique`). So the recursion comes to an end of itself, and the
bound only lets it be written down.
-/

namespace ExportSurface

/-- Whether answers on the type are remembered: on class types without star
projections. -/
def TypeRef.IsRemembered (t : TypeRef) : Prop := t.className?.isSome ∧ t.hasStar = false

instance (t : TypeRef) : Decidable t.IsRemembered := inferInstanceAs (Decidable (_ ∧ _))

namespace Evaluator

/-- What is evaluated, by the kind of its value. -/
inductive Task : Type → Type 1 where
  | ofType (t : TypeRef) : Task Bool
  | ofClass (c : ClassDecl) : Task Bool
  | ofRule {α : Type} (q : Inquiry α) : Task α

/-- How an evaluation ends. -/
inductive Ending (α : Type) where
  | value (a : α)
  /-- A failure, and the keys of the evaluations that it broke off, the
  outermost first. -/
  | broken (failure : ModuleError) (keys : List MemoKey)

namespace Ending

variable {α β : Type}

/-- What the evaluation comes to. -/
def result : Ending α → Except ModuleError α
  | .value a => .ok a
  | .broken failure _ => .error failure

/-- The keys of the evaluations broken off. -/
def brokenOff : Ending α → List MemoKey
  | .value _ => []
  | .broken _ keys => keys

/-- The ending with its value changed. -/
def map (f : α → β) : Ending α → Ending β
  | .value a => .value (f a)
  | .broken failure keys => .broken failure keys

/-- The ending of the evaluation of a key, by how what it examined ends. -/
def closing (key : MemoKey) : Ending α → Ending α
  | .value a => .value a
  | .broken failure keys => .broken failure (key :: keys)

@[simp] theorem result_map (f : α → β) (r : Ending α) : (r.map f).result = r.result.map f := by
  cases r with
  | value a => rfl
  | broken failure keys => rfl

@[simp] theorem result_closing (key : MemoKey) (r : Ending α) :
    (r.closing key).result = r.result := by
  cases r with
  | value a => rfl
  | broken failure keys => rfl

end Ending

/-- A moment of an evaluation. -/
structure Moment where
  /-- The keys of the open evaluations, the innermost first. -/
  stack : List MemoKey
  memo : Memo

/-- What is examined of a class type: a rule, or the class of the type. -/
def insideNamed (e : Evaluator) (t : TypeRef) : Task Bool :=
  if (Builtin.ofType? t).isSome then .ofRule (Builtin.accepts Inquiry.put t)
  else
    match t.className?.bind e.classNamed? with
    | none => .ofRule (pure false)
    | some c => if c.isExported then .ofRule (pure true) else .ofClass c

/-- What is examined of a type on which no answer is known. -/
def inside (e : Evaluator) (t : TypeRef) : Task Bool :=
  if t.hasStar then .ofRule (pure false)
  else
    match t with
    | .dynamic => .ofRule (pure true)
    | .parameter _ bounds _ => .ofRule (Inquiry.all bounds)
    | .named name args nullable => insideNamed e (.named name args nullable)

/-- **The course of an evaluation**: from a session on, inside open evaluations
with the keys on a stack, something is evaluated over a number of moments to an
end, which leaves a session behind. -/
inductive Course (e : Evaluator) : {α : Type} →
    List MemoKey → Task α → Session → List Moment → Ending α → Session → Prop
  /-- A rule is done. -/
  | done {α : Type} {stack : List MemoKey} {s : Session} {a : α} :
      Course e stack (.ofRule (.done a)) s [] (.value a) s
  /-- A rule fails. -/
  | fail {α : Type} {stack : List MemoKey} {s : Session} {failure : ModuleError} :
      Course e stack (.ofRule (.fail failure : Inquiry α)) s [] (.broken failure []) s
  /-- A rule asks about a type and goes on from the answer. -/
  | ask {α : Type} {stack : List MemoKey} {s s₁ s' : Session} {t : TypeRef} {b : Bool}
      {next : Bool → Inquiry α} {first rest : List Moment} {r : Ending α} :
      Course e stack (.ofType t) s first (.value b) s₁ →
      Course e stack (.ofRule (next b)) s₁ rest r s' →
      Course e stack (.ofRule (.ask t next)) s (first ++ rest) r s'
  /-- A rule asks about a type, and that fails. -/
  | askBroken {α : Type} {stack : List MemoKey} {s s₁ : Session} {t : TypeRef}
      {next : Bool → Inquiry α} {moments : List Moment} {failure : ModuleError}
      {keys : List MemoKey} :
      Course e stack (.ofType t) s moments (.broken failure keys) s₁ →
      Course e stack (.ofRule (.ask t next)) s moments (.broken failure keys) s₁
  /-- A type on which answers are not remembered is examined. -/
  | transient {stack : List MemoKey} {s s' : Session} {t : TypeRef} {moments : List Moment}
      {r : Ending Bool} :
      ¬ t.IsRemembered → Course e stack (inside e t) s moments r s' →
      Course e stack (.ofType t) s moments r s'
  /-- The answer on a type is known. -/
  | typeKnown {stack : List MemoKey} {s : Session} {t : TypeRef} {b : Bool} :
      t.IsRemembered → (s.memo.lookup (.ofType t.key)).1 = some b →
      Course e stack (.ofType t) s [⟨stack, (s.memo.lookup (.ofType t.key)).2⟩] (.value b)
        { s with memo := (s.memo.lookup (.ofType t.key)).2 }
  /-- A type is examined while its evaluation is open. -/
  | typeExamined {stack : List MemoKey} {s s₂ : Session} {t : TypeRef} {moments : List Moment}
      {r : Ending Bool} :
      t.IsRemembered → (s.memo.lookup (.ofType t.key)).1 = none →
      Course e (.ofType t.key :: stack) (inside e t) (opened s (.ofType t.key)) moments r s₂ →
      Course e stack (.ofType t) s
        (⟨.ofType t.key :: stack, (opened s (.ofType t.key)).memo⟩ :: moments ++
          [⟨stack, (closed s₂ (.ofType t.key) (r.result.toOption.getD false)).memo⟩])
        (r.closing (.ofType t.key)) (closed s₂ (.ofType t.key) (r.result.toOption.getD false))
  /-- The answer on a class is known. -/
  | classKnown {stack : List MemoKey} {s : Session} {c : ClassDecl} {b : Bool} :
      (s.memo.lookup (.ofClass c.name.text)).1 = some b →
      Course e stack (.ofClass c) s [⟨stack, (s.memo.lookup (.ofClass c.name.text)).2⟩] (.value b)
        { s with memo := (s.memo.lookup (.ofClass c.name.text)).2 }
  /-- The rule of a class is gone through while its evaluation is open. -/
  | classExamined {stack : List MemoKey} {s s₂ : Session} {c : ClassDecl} {moments : List Moment}
      {r : Ending Verdict} :
      (s.memo.lookup (.ofClass c.name.text)).1 = none →
      Course e (.ofClass c.name.text :: stack) (.ofRule (Rule.ofClass e.options Inquiry.put c))
        (opened s (.ofClass c.name.text)) moments r s₂ →
      Course e stack (.ofClass c) s
        (⟨.ofClass c.name.text :: stack, (opened s (.ofClass c.name.text)).memo⟩ :: moments ++
          [⟨stack, (concluded s₂ c r.result).memo⟩])
        ((r.map Verdict.isExportable).closing (.ofClass c.name.text)) (concluded s₂ c r.result)

variable {e : Evaluator} {α : Type} {stack : List MemoKey} {task : Task α} {s s' : Session}
  {moments : List Moment} {r : Ending α} {t : TypeRef} {c : ClassDecl} {types : List TypeRef}

/-! ## Courses go as the evaluator does -/

/-- The task put to the evaluator. -/
def Task.query (e : Evaluator) : {α : Type} → Task α → Query α
  | _, .ofType t => typeExportable e t
  | _, .ofClass c => examineClass e (typeExportable e) c
  | _, .ofRule q => q.run (typeExportable e)

theorem grows_typeExportable (t : TypeRef) : (typeExportable e t).Grows := by
  rw [typeExportable]
  exact grows_typeWithin _ t

theorem Task.grows_query (task : Task α) : (task.query e).Grows := by
  cases task with
  | ofType t => exact grows_typeExportable t
  | ofClass c => exact grows_examineClass grows_typeExportable c
  | ofRule q => exact Inquiry.grows_run grows_typeExportable q

theorem query_insideNamed (t : TypeRef) :
    (insideNamed e t).query e = examineNamed e (typeExportable e) t := by
  cases hbuiltin : (Builtin.ofType? t).isSome with
  | true =>
    rw [examineNamed_of_builtin hbuiltin, insideNamed, if_pos hbuiltin]
    rfl
  | false =>
    rw [insideNamed, if_neg (by simp [hbuiltin])]
    cases hc : t.className?.bind e.classNamed? with
    | none =>
      rw [examineNamed_of_unknown hbuiltin hc]
      rfl
    | some c =>
      rw [examineNamed_of_class hbuiltin hc]
      dsimp only
      split
      · rfl
      · rfl

theorem inside_of_isRemembered (ht : t.IsRemembered) : inside e t = insideNamed e t := by
  obtain ⟨hnamed, hstar⟩ := ht
  cases t with
  | dynamic => cases hnamed
  | parameter => cases hnamed
  | named name args nullable => exact if_neg (by simp [hstar])

theorem inside_of_hasStar (hstar : t.hasStar = true) : inside e t = .ofRule (pure false) := by
  unfold inside
  exact if_pos hstar

theorem query_inside_of_not_isRemembered (ht : ¬ t.IsRemembered) :
    (inside e t).query e = examineType e (typeExportable e) t := by
  cases hstar : t.hasStar with
  | true =>
    rw [examineType_of_hasStar hstar, inside_of_hasStar hstar]
    rfl
  | false =>
    cases t with
    | dynamic => rfl
    | parameter name bounds nullable =>
      rw [examineType_parameter]
      rfl
    | named name args nullable => exact absurd ⟨rfl, hstar⟩ ht

/-- **A course goes as the evaluator does**: it comes to the same and leaves the
same session behind. -/
theorem Course.ask_eq (h : Course e stack task s moments r s') :
    (task.query e).ask s = (r.result, s') := by
  induction h with
  | done => rfl
  | fail => rfl
  | ask _ _ first rest => exact (Query.ask_bind_of_ok first).trans rest
  | askBroken _ ih =>
    rw [Task.query] at ih
    rw [Task.query, Inquiry.run, Query.ask_bind, ih]
    rfl
  | transient ht _ ih =>
    rw [query_inside_of_not_isRemembered ht] at ih
    exact (ask_typeExportable_eq _ _ _).trans ih
  | typeKnown ht hfound =>
    exact (ask_typeExportable_eq _ _ _).trans (ask_examineType_of_hit ht.1 ht.2 hfound)
  | typeExamined ht hfound _ ih =>
    rw [inside_of_isRemembered ht, query_insideNamed] at ih
    rw [Ending.result_closing]
    exact (ask_typeExportable_eq _ _ _).trans (ask_examineType_of_miss ht.1 ht.2 hfound ih)
  | classKnown hfound => exact ask_examineClass_of_hit hfound
  | classExamined hfound _ ih =>
    rw [Ending.result_closing, Ending.result_map]
    rw [Task.query, Inquiry.run_ofClass] at ih
    exact ask_examineClass_of_miss hfound ih

theorem Course.grows (h : Course e stack task s moments r s') : s.memo.Grows s'.memo := by
  have hgrows := task.grows_query (e := e) s
  rwa [h.ask_eq] at hgrows

/-- **An evaluation has one course.** -/
theorem Course.unique {moments₁ : List Moment} {r₁ : Ending α} {s₁ : Session}
    (h : Course e stack task s moments r s') (h₁ : Course e stack task s moments₁ r₁ s₁) :
    moments₁ = moments ∧ r₁ = r ∧ s₁ = s' := by
  induction h generalizing moments₁ s₁ with
  | done =>
    cases h₁
    exact ⟨rfl, rfl, rfl⟩
  | fail =>
    cases h₁
    exact ⟨rfl, rfl, rfl⟩
  | ask _ _ first rest =>
    cases h₁ with
    | ask hfirst hrest =>
      obtain ⟨rfl, hvalue, rfl⟩ := first hfirst
      cases hvalue
      obtain ⟨rfl, rfl, rfl⟩ := rest hrest
      exact ⟨rfl, rfl, rfl⟩
    | askBroken hfirst => cases (first hfirst).2.1
  | askBroken _ ih =>
    cases h₁ with
    | ask hfirst _ => cases (ih hfirst).2.1
    | askBroken hfirst =>
      obtain ⟨rfl, hbroken, rfl⟩ := ih hfirst
      cases hbroken
      exact ⟨rfl, rfl, rfl⟩
  | transient ht _ ih =>
    cases h₁ with
    | transient _ hin => exact ih hin
    | typeKnown ht' _ => exact absurd ht' ht
    | typeExamined ht' _ _ => exact absurd ht' ht
  | typeKnown ht hfound =>
    cases h₁ with
    | transient ht' _ => exact absurd ht ht'
    | typeKnown _ hfound' =>
      cases hfound.symm.trans hfound'
      exact ⟨rfl, rfl, rfl⟩
    | typeExamined _ hfound' _ => cases hfound.symm.trans hfound'
  | typeExamined ht hfound _ ih =>
    cases h₁ with
    | transient ht' _ => exact absurd ht ht'
    | typeKnown _ hfound' => cases hfound.symm.trans hfound'
    | typeExamined _ _ hin =>
      obtain ⟨rfl, rfl, rfl⟩ := ih hin
      exact ⟨rfl, rfl, rfl⟩
  | classKnown hfound =>
    cases h₁ with
    | classKnown hfound' =>
      cases hfound.symm.trans hfound'
      exact ⟨rfl, rfl, rfl⟩
    | classExamined hfound' _ => cases hfound.symm.trans hfound'
  | classExamined hfound _ ih =>
    cases h₁ with
    | classKnown hfound' => cases hfound.symm.trans hfound'
    | classExamined _ hin =>
      obtain ⟨rfl, rfl, rfl⟩ := ih hin
      exact ⟨rfl, rfl, rfl⟩

/-! ## What evaluations are about -/

/-- What is examined of a class type: nothing, or what the rule of built-in
types asks, or a class of the index. -/
theorem insideNamed_induction {P : Task Bool → Prop} (hpure : ∀ b, P (.ofRule (pure b)))
    (haccepts : P (.ofRule (Builtin.accepts Inquiry.put t)))
    (hclass : ∀ name c, Builtin.ofType? t = none → t.className? = some name →
      e.classNamed? name = some c → c.isExported = false → P (.ofClass c)) :
    P (insideNamed e t) := by
  cases hbuiltin : Builtin.ofType? t with
  | some kind =>
    rw [insideNamed, if_pos (by rw [hbuiltin]; rfl)]
    exact haccepts
  | none =>
    rw [insideNamed, if_neg (by simp [hbuiltin])]
    cases hfound : t.className?.bind e.classNamed? with
    | none => exact hpure false
    | some c =>
      obtain ⟨name, hname, hc⟩ := Option.bind_eq_some_iff.mp hfound
      cases hmarked : c.isExported with
      | true => simpa [hmarked] using hpure true
      | false => simpa [hmarked] using hclass name c hbuiltin hname hc hmarked

/-- Whether what is evaluated is about classes and types of some kinds. -/
def Task.Of (C : ClassDecl → Prop) (P : TypeRef → Prop) : {α : Type} → Task α → Prop
  | _, .ofType t => P t
  | _, .ofClass c => C c
  | _, .ofRule q => q.Within P

/-- Whether classes and types of some kinds lead to no others. -/
structure Confined (e : Evaluator) (C : ClassDecl → Prop) (P : TypeRef → Prop) : Prop where
  child : ∀ {t u}, P t → u ∈ t.children → P u
  found : ∀ {name c}, e.classNamed? name = some c → C c
  checked : ∀ {c t}, C c → c.Checks t → P t

section Confined

variable {C : ClassDecl → Prop} {P : TypeRef → Prop}

theorem Confined.inside (h : Confined e C P) (ht : P t) : (inside e t).Of C P := by
  by_cases hrem : t.IsRemembered
  · rw [inside_of_isRemembered hrem]
    exact insideNamed_induction (P := Task.Of C P) (fun _ => trivial)
      (Rule.within_accepts fun u hu => h.child ht (TypeRef.mem_children_of_element? hu))
      fun name c _ _ hc _ => h.found hc
  · cases hstar : t.hasStar with
    | true =>
      rw [inside_of_hasStar hstar]
      trivial
    | false =>
      cases t with
      | dynamic => trivial
      | parameter name bounds nullable => exact Inquiry.within_all fun u hu => h.child ht hu
      | named name args nullable => exact absurd ⟨rfl, hstar⟩ hrem

theorem Confined.rule (h : Confined e C P) (hc : C c) :
    (Task.ofRule (Rule.ofClass e.options Inquiry.put c)).Of C P :=
  (Rule.within_ofClass e.options c).imp fun _ ht => h.checked hc ht

end Confined

/-! ## Every evaluation takes a course -/

variable (e) in
/-- In a session, the task takes a course inside whatever evaluations are open. -/
def Terminates (task : Task α) (s : Session) : Prop :=
  ∀ stack, ∃ moments r s', Course e stack task s moments r s'

theorem terminates_ofRule {P : TypeRef → Prop} {q : Inquiry α} (hq : q.Within P)
    (h : ∀ t, P t → ∀ s', s.memo.Grows s'.memo → Terminates e (.ofType t) s') :
    Terminates e (.ofRule q) s := by
  induction q generalizing s with
  | done a => exact fun stack => ⟨_, _, _, .done⟩
  | fail failure => exact fun stack => ⟨_, _, _, .fail⟩
  | ask t next ih =>
    intro stack
    obtain ⟨first, r, s₁, hfirst⟩ := h t hq.1 s (.refl _) stack
    cases r with
    | broken failure keys => exact ⟨_, _, _, .askBroken hfirst⟩
    | value b =>
      obtain ⟨rest, r, s', hrest⟩ :=
        ih b (hq.2 b) (fun u hu s' hs' => h u hu s' (hfirst.grows.trans hs')) stack
      exact ⟨_, _, _, .ask hfirst hrest⟩

theorem terminates_ofClass
    (h : ∀ t, c.Checks t → ∀ s', (opened s (.ofClass c.name.text)).memo.Grows s'.memo →
      Terminates e (.ofType t) s') : Terminates e (.ofClass c) s := by
  intro stack
  cases hfound : (s.memo.lookup (.ofClass c.name.text)).1 with
  | some b => exact ⟨_, _, _, .classKnown hfound⟩
  | none =>
    obtain ⟨moments, r, s₂, hrule⟩ :=
      terminates_ofRule (Rule.within_ofClass e.options c) h (.ofClass c.name.text :: stack)
    exact ⟨_, _, _, .classExamined hfound hrule⟩

/-- What is examined of a class type takes a course, if types in scope do wherever
there is as much room for them. -/
theorem terminates_insideNamed (ht : t ∈ scope e types)
    (h : ∀ u ∈ scope e types, ∀ s', room e types s'.memo = room e types s.memo →
      Terminates e (.ofType u) s') : Terminates e (insideNamed e t) s := by
  refine insideNamed_induction (P := (Terminates e · s)) (fun b stack => ⟨_, _, _, .done⟩) ?_
    fun name c _ _ hc _ => ?_
  · refine terminates_ofRule (Rule.within_accepts fun u hu => hu) fun u hu s' hg => ?_
    have hscope := mem_scope_of_mem_children ht (TypeRef.mem_children_of_element? hu)
    exact h u hscope s' (room_of_grows hg)
  · refine terminates_ofClass fun u hu s' hg => ?_
    have hscope : u ∈ scope e types := mem_scope_of_checks (mem_classes_of_classNamed? hc) hu
    exact h u hscope s' ((room_of_grows hg).trans (room_opened_ofClass _))

/-- A type on which answers are not remembered takes a course, if its parts do. -/
theorem terminates_inside_of_not_isRemembered (ht : ¬ t.IsRemembered)
    (h : ∀ u ∈ t.children, ∀ s', s.memo.Grows s'.memo → Terminates e (.ofType u) s') :
    Terminates e (inside e t) s := by
  have hdone : ∀ b : Bool, Terminates e (.ofRule (pure b)) s := fun b stack => ⟨_, _, _, .done⟩
  cases hstar : t.hasStar with
  | true =>
    rw [inside_of_hasStar hstar]
    exact hdone false
  | false =>
    cases t with
    | dynamic => exact hdone true
    | parameter name bounds nullable =>
      exact terminates_ofRule (Inquiry.within_all fun u hu => hu) h
    | named name args nullable => exact absurd ⟨rfl, hstar⟩ ht

/-- Types in scope take a course, where at most so many need be examined one
inside another. -/
theorem terminates_of_need_le {depth : Nat} (ht : t ∈ scope e types)
    (hneed : need e types s.memo t ≤ depth) : Terminates e (.ofType t) s := by
  induction depth generalizing t s with
  | zero => exact absurd hneed (Nat.not_le.mpr (need_pos s.memo t))
  | succ depth ih =>
    intro stack
    by_cases hrem : t.IsRemembered
    · cases hfound : (s.memo.lookup (.ofType t.key)).1 with
      | some b => exact ⟨_, _, _, .typeKnown hrem hfound⟩
      | none =>
        -- the key of the type is in flight now, which makes room for the whole scope again
        have hroom : room e types (opened s (.ofType t.key)).memo ≤ depth :=
          Nat.le_of_lt_succ ((room_opened_lt_need ht
            (Memo.state?_of_lookup_fst_eq_none hfound)).trans_le hneed)
        have hinside : Terminates e (inside e t) (opened s (.ofType t.key)) := by
          rw [inside_of_isRemembered hrem]
          exact terminates_insideNamed ht fun u hu s' hs' =>
            ih hu ((need_le_room hu).trans (hs'.trans_le hroom))
        obtain ⟨moments, r, s₂, hcourse⟩ := hinside (.ofType t.key :: stack)
        exact ⟨_, _, _, .typeExamined hrem hfound hcourse⟩
    · have hinside : Terminates e (inside e t) s := by
        refine terminates_inside_of_not_isRemembered hrem fun u hu s' hg => ?_
        refine ih (mem_scope_of_mem_children ht hu) ?_
        -- nothing was put in flight, but the part is smaller than the type
        have hsize := TypeRef.size_lt_of_mem_children hu
        rw [need_of_grows hg]
        unfold need at hneed ⊢
        omega
      obtain ⟨moments, r, s', hcourse⟩ := hinside stack
      exact ⟨_, _, _, .transient hrem hcourse⟩

/-- **Every evaluation of a type takes a course**, whatever its evaluator, its
session and the evaluations that are open. -/
theorem terminates_ofType (e : Evaluator) (t : TypeRef) (s : Session) :
    Terminates e (.ofType t) s :=
  terminates_of_need_le (mem_scope_of_mem (List.mem_singleton_self t)) (Nat.le_refl _)

end Evaluator

end ExportSurface
