import ExportSurface.Proofs.Unfolding
import Mathlib.Data.List.Forall2
import Mathlib.Data.Option.Basic
/-!
# Evaluations in step

Two rules are paired if they ask about the same types, up to nullability, go on
paired from either answer, and end alike (`Inquiry.Paired`). Two evaluators
that find classes with paired rules under the same names (`Evaluator.InStep`) go
through their evaluations in step: put in sessions with one memo, questions about
the same type up to nullability come to the same answer, or fail alike, and leave
sessions with one memo again (`Evaluator.inStep_typeExportable`). Nothing is asked
of keys, names or types, and nothing of what the classes hold besides.

How far reasons agree is left open: they are related by a relation `R`, which is
equality where the rules do not only go alike but are the same.
-/

namespace ExportSurface

/-! ## What is paired -/

section Paired

variable (R : Rejection → Rejection → Prop)

/-- Verdicts that agree, the reasons of rejections being related. -/
inductive Verdict.Paired : Verdict → Verdict → Prop
  | exportable : Paired .exportable .exportable
  | rejected {reason reason' : Rejection} :
      R reason reason' → Paired (.rejected reason) (.rejected reason')

/-- Sessions with one memo and with paired verdicts on the same classes. -/
structure Session.Paired (s s' : Session) : Prop where
  memo : s.memo = s'.memo
  verdicts : List.Forall₂ (fun x y => x.1 = y.1 ∧ Verdict.Paired R x.2 y.2) s.verdicts s'.verdicts

/-- Two ways to end: with answers that are related, or with one failure, in paired
sessions. -/
inductive Query.Met {α β : Type} (A : α → β → Prop) :
    Except ModuleError α × Session → Except ModuleError β × Session → Prop
  | answered {a : α} {b : β} {s s' : Session} :
      A a b → s.Paired R s' → Met A (.ok a, s) (.ok b, s')
  | failed {s s' : Session} (failure : ModuleError) :
      s.Paired R s' → Met A (.error failure, s) (.error failure, s')

/-- Questions that end alike in paired sessions. -/
def Query.InStep {α β : Type} (A : α → β → Prop) (q : Query α) (q' : Query β) : Prop :=
  ∀ s s' : Session, s.Paired R s' → Met R A (q.ask s) (q'.ask s')

end Paired

/-- Rules that ask about the same types, up to nullability, and end alike. -/
inductive Inquiry.Paired {α β : Type} (A : α → β → Prop) : Inquiry α → Inquiry β → Prop
  | done {a : α} {b : β} : A a b → Paired A (.done a) (.done b)
  | fail (failure : ModuleError) : Paired A (.fail failure) (.fail failure)
  | ask {t u : TypeRef} {next : Bool → Inquiry α} {next' : Bool → Inquiry β} :
      t.erased = u.erased → (∀ b, Paired A (next b) (next' b)) →
      Paired A (.ask t next) (.ask u next')

namespace Verdict.Paired

variable {R : Rejection → Rejection → Prop} {v w : Verdict}

theorem isExportable_eq (h : Verdict.Paired R v w) : v.isExportable = w.isExportable := by
  cases h with
  | exportable => rfl
  | rejected _ => rfl

theorem refl (hR : ∀ reason, R reason reason) (v : Verdict) : Verdict.Paired R v v := by
  cases v with
  | exportable => exact .exportable
  | rejected reason => exact .rejected (hR reason)

end Verdict.Paired

/-- What paired sessions remember of a class is paired, where nothing stands for
an exportable one. -/
theorem Session.Paired.verdict {R : Rejection → Rejection → Prop} {s s' : Session}
    (hs : s.Paired R s') (name : QualifiedName) :
    Verdict.Paired R ((s.verdicts.lookup name).getD .exportable)
      ((s'.verdicts.lookup name).getD .exportable) := by
  have hverdicts := hs.verdicts
  generalize s.verdicts = vs at hverdicts ⊢
  generalize s'.verdicts = ws at hverdicts ⊢
  induction hverdicts with
  | nil => exact .exportable
  | @cons x y vs ws hxy _ ih =>
    obtain ⟨known, v⟩ := x
    obtain ⟨_, w⟩ := y
    obtain ⟨rfl, hvw⟩ := hxy
    rw [List.lookup_cons, List.lookup_cons]
    cases name == known with
    | true => exact hvw
    | false => exact ih

/-! ## Paired rules -/

namespace Inquiry.Paired

variable {α β γ δ : Type} {A : α → β → Prop} {B : γ → δ → Prop} {q : Inquiry α} {q' : Inquiry β}

theorem refl {A : α → α → Prop} (hA : ∀ a, A a a) (q : Inquiry α) : q.Paired A q := by
  induction q with
  | done a => exact .done (hA a)
  | fail failure => exact .fail failure
  | ask t next ih => exact .ask rfl ih

theorem bind {f : α → Inquiry γ} {f' : β → Inquiry δ} (hq : q.Paired A q')
    (hf : ∀ a b, A a b → (f a).Paired B (f' b)) : (q >>= f).Paired B (q' >>= f') := by
  induction hq with
  | done hab => exact hf _ _ hab
  | fail failure => exact .fail failure
  | ask ht _ ih => exact .ask ht ih

theorem map {f : α → γ} {f' : β → δ} (hq : q.Paired A q') (hf : ∀ a b, A a b → B (f a) (f' b)) :
    (f <$> q).Paired B (f' <$> q') :=
  hq.bind fun a b hab => .done (hf a b hab)

theorem put {t u : TypeRef} (h : t.erased = u.erased) :
    (Inquiry.put t).Paired Eq (Inquiry.put u) :=
  .ask h fun _ => .done rfl

theorem all {ts us : List TypeRef} (h : List.Forall₂ (fun t u => t.erased = u.erased) ts us) :
    (Inquiry.all ts).Paired Eq (Inquiry.all us) := by
  induction h with
  | nil => exact .done rfl
  | cons ht _ ih =>
    refine (put ht).bind ?_
    rintro b _ rfl
    cases b with
    | true => exact ih
    | false => exact .done rfl

end Inquiry.Paired

/-- Lists have equal images just if they are related one by one. -/
theorem map_eq_map_iff_forall₂ {α β γ : Type} {f : α → γ} {g : β → γ} {as : List α} {bs : List β} :
    as.map f = bs.map g ↔ List.Forall₂ (fun a b => f a = g b) as bs := by
  rw [← List.forall₂_eq_eq_eq, List.forall₂_map_left_iff, List.forall₂_map_right_iff]

namespace TypeRef

variable {t u : TypeRef}

theorem hasStar_eq_of_erased_eq (h : t.erased = u.erased) : t.hasStar = u.hasStar := by
  rw [← t.hasStar_erased, h, u.hasStar_erased]

theorem key_eq_of_erased_eq (h : t.erased = u.erased) : t.key = u.key := by
  rw [← t.key_erased, h, u.key_erased]

theorem className?_eq_of_erased_eq (h : t.erased = u.erased) : t.className? = u.className? := by
  rw [← t.className?_erased, h, u.className?_erased]

theorem ofType?_eq_of_erased_eq (h : t.erased = u.erased) :
    Builtin.ofType? t = Builtin.ofType? u := by
  rw [← t.ofType?_erased, h, u.ofType?_erased]

end TypeRef

/-- What the rule of built-in types asks does not hang on nullability. -/
theorem Inquiry.Paired.accepts {t u : TypeRef} (h : t.erased = u.erased) :
    (Builtin.accepts Inquiry.put t).Paired Eq (Builtin.accepts Inquiry.put u) := by
  have harguments : t.arguments.map TypeArgument.erased = u.arguments.map TypeArgument.erased := by
    rw [← t.arguments_erased, h, u.arguments_erased]
  unfold Builtin.accepts
  rw [TypeRef.hasStar_eq_of_erased_eq h, TypeRef.ofType?_eq_of_erased_eq h]
  split
  · exact .done rfl
  split
  · exact .done rfl
  · -- an array, whose element is asked about if it is a type
    cases ht : t.arguments with
    | nil =>
      cases hu : u.arguments with
      | nil => exact .done rfl
      | cons b bs => simp [ht, hu] at harguments
    | cons a as =>
      cases hu : u.arguments with
      | nil => simp [ht, hu] at harguments
      | cons b bs =>
        rw [ht, hu, List.map_cons, List.map_cons] at harguments
        have hfirst : a.erased = b.erased := (List.cons.inj harguments).1
        cases a with
        | star =>
          cases b with
          | star => exact .done rfl
          | type v => cases hfirst
        | type v =>
          cases b with
          | star => cases hfirst
          | type w => exact .put (TypeArgument.type.inj hfirst)
  · exact .done rfl

/-! ## Questions in step -/

namespace Query

variable {R : Rejection → Rejection → Prop} {α β γ δ : Type} {A : α → β → Prop} {B : γ → δ → Prop}
  {q : Query α} {q' : Query β}

theorem inStep_pure {a : α} {b : β} (h : A a b) :
    InStep R A (pure a : Query α) (pure b : Query β) :=
  fun _ _ hs => .answered h hs

theorem inStep_throw (failure : ModuleError) :
    InStep R A (throw failure : Query α) (throw failure : Query β) :=
  fun _ _ hs => .failed failure hs

theorem inStep_bind {f : α → Query γ} {f' : β → Query δ} (hq : InStep R A q q')
    (hf : ∀ a b, A a b → InStep R B (f a) (f' b)) : InStep R B (q >>= f) (q' >>= f') := by
  intro s s' hs
  have hfirst := hq s s' hs
  rw [ask_bind, ask_bind]
  generalize q.ask s = x at hfirst ⊢
  generalize q'.ask s' = y at hfirst ⊢
  cases hfirst with
  | answered hab hs₁ => exact hf _ _ hab _ _ hs₁
  | failed failure hs₁ => exact .failed failure hs₁

theorem inStep_map {f : α → γ} {f' : β → δ} (hq : InStep R A q q')
    (hf : ∀ a b, A a b → B (f a) (f' b)) : InStep R B (f <$> q) (f' <$> q') := by
  rw [map_eq_pure_bind, map_eq_pure_bind]
  exact inStep_bind hq fun a b hab => inStep_pure (hf a b hab)

/-- Questions whose failure is met go on in step from either end. -/
theorem inStep_outcome_bind {g : Except ModuleError α → Query γ}
    {g' : Except ModuleError β → Query δ} (hq : InStep R A q q')
    (hok : ∀ a b, A a b → InStep R B (g (.ok a)) (g' (.ok b)))
    (herror : ∀ failure, InStep R B (g (.error failure)) (g' (.error failure))) :
    InStep R B (q.outcome >>= g) (q'.outcome >>= g') := by
  intro s s' hs
  have hfirst := hq s s' hs
  rw [ask_bind, ask_bind, ask_outcome, ask_outcome]
  generalize q.ask s = x at hfirst ⊢
  generalize q'.ask s' = y at hfirst ⊢
  cases hfirst with
  | answered hab hs₁ => exact hok _ _ hab _ _ hs₁
  | failed failure hs₁ => exact herror failure _ _ hs₁

theorem inStep_lookup (key : MemoKey) : InStep R Eq (lookup key) (lookup key) := by
  intro s s' hs
  rw [ask_lookup, ask_lookup, hs.memo]
  exact .answered rfl ⟨rfl, hs.verdicts⟩

theorem inStep_begin (key : MemoKey) : InStep R Eq (begin key) (begin key) := by
  intro s s' hs
  rw [ask_begin, ask_begin, hs.memo]
  exact .answered rfl ⟨rfl, hs.verdicts⟩

theorem inStep_resolve (key : MemoKey) (answer : Bool) :
    InStep R Eq (resolve key answer) (resolve key answer) := by
  intro s s' hs
  rw [ask_resolve, ask_resolve, hs.memo]
  exact .answered rfl ⟨rfl, hs.verdicts⟩

theorem inStep_remember (name : QualifiedName) {v w : Verdict} (h : Verdict.Paired R v w) :
    InStep R Eq (remember name v) (remember name w) := by
  intro s s' hs
  rw [ask_remember, ask_remember]
  exact .answered rfl ⟨hs.memo, .cons ⟨rfl, h⟩ hs.verdicts⟩

/-- A question that ends as another does is in step with what that one is. -/
theorem InStep.congr {q₁ : Query α} {q₁' : Query β} (h : InStep R A q q')
    (hq : ∀ s, q₁.ask s = q.ask s) (hq' : ∀ s, q₁'.ask s = q'.ask s) : InStep R A q₁ q₁' := by
  intro s s' hs
  rw [hq, hq']
  exact h s s' hs

end Query

open Query

/-- **Paired rules go in step** where the types they ask about are answered in
step. -/
theorem Inquiry.Paired.inStep {R : Rejection → Rejection → Prop} {α β : Type} {A : α → β → Prop}
    {q : Inquiry α} {q' : Inquiry β} {ask ask' : TypeRef → Query Bool} (hq : q.Paired A q')
    (hask : ∀ t u, t.erased = u.erased → InStep R Eq (ask t) (ask' u)) :
    InStep R A (q.run ask) (q'.run ask') := by
  induction hq with
  | done hab => exact inStep_pure hab
  | fail failure => exact inStep_throw failure
  | ask ht _ ih =>
    refine inStep_bind (hask _ _ ht) ?_
    rintro b _ rfl
    exact ih b

/-! ## Evaluators in step -/

namespace Evaluator

variable (R : Rejection → Rejection → Prop)

/-- Classes that two evaluators take for one another: of one name, both marked or
neither, and with paired rules. -/
structure Twins (e e' : Evaluator) (c c' : ClassDecl) : Prop where
  name : c.name = c'.name
  isExported : c.isExported = c'.isExported
  rule : (Rule.ofClass e.options Inquiry.put c).Paired (Verdict.Paired R)
    (Rule.ofClass e'.options Inquiry.put c')

/-- Evaluators that find classes that they take for one another. -/
def InStep (e e' : Evaluator) : Prop :=
  ∀ name, Option.Rel (Twins R e e') (e.classNamed? name) (e'.classNamed? name)

variable {R} {e e' : Evaluator} {ask ask' : TypeRef → Query Bool} {c c' : ClassDecl}
  {t u : TypeRef}

section Step

variable (hask : ∀ t u, t.erased = u.erased → Query.InStep R Eq (ask t) (ask' u))
include hask

theorem inStep_examineClass (hc : Twins R e e' c c') :
    Query.InStep R Eq (examineClass e ask c) (examineClass e' ask' c') := by
  rw [examineClass, examineClass, ← hc.name]
  refine inStep_bind (inStep_lookup _) ?_
  rintro found _ rfl
  cases found with
  | some answer => exact inStep_pure rfl
  | none =>
    refine inStep_bind (inStep_begin _) fun _ _ _ => ?_
    refine inStep_outcome_bind (A := Verdict.Paired R) ?_ (fun v w hvw => ?_) fun failure => ?_
    · rw [← Inquiry.run_ofClass, ← Inquiry.run_ofClass]
      exact hc.rule.inStep hask
    · simp only [hvw.isExportable_eq]
      refine inStep_bind (inStep_resolve _ _) ?_
      rintro kept _ rfl
      cases kept with
      | true => exact inStep_bind (inStep_remember _ hvw) fun _ _ _ => inStep_pure rfl
      | false => exact inStep_pure rfl
    · exact inStep_bind (inStep_resolve _ _) fun _ _ _ => inStep_throw failure

variable (he : InStep R e e')
include he

theorem inStep_examineNamed (h : t.erased = u.erased) :
    Query.InStep R Eq (examineNamed e ask t) (examineNamed e' ask' u) := by
  have hkind := TypeRef.ofType?_eq_of_erased_eq h
  cases hbuiltin : (Builtin.ofType? t).isSome with
  | true =>
    rw [examineNamed_of_builtin hbuiltin, examineNamed_of_builtin (hkind ▸ hbuiltin)]
    exact (Inquiry.Paired.accepts h).inStep hask
  | false =>
    have hbuiltin' : (Builtin.ofType? u).isSome = false := hkind ▸ hbuiltin
    have hfound : Option.Rel (Twins R e e') (t.className?.bind e.classNamed?)
        (u.className?.bind e'.classNamed?) := by
      rw [← TypeRef.className?_eq_of_erased_eq h]
      cases t.className? with
      | none => exact .none
      | some name => exact he name
    cases hc : t.className?.bind e.classNamed? with
    | none =>
      cases hc' : u.className?.bind e'.classNamed? with
      | none =>
        rw [examineNamed_of_unknown hbuiltin hc, examineNamed_of_unknown hbuiltin' hc']
        exact inStep_pure rfl
      | some c' =>
        rw [hc, hc'] at hfound
        cases hfound
    | some c =>
      cases hc' : u.className?.bind e'.classNamed? with
      | none =>
        rw [hc, hc'] at hfound
        cases hfound
      | some c' =>
        rw [hc, hc'] at hfound
        cases hfound with
        | some htwins =>
          rw [examineNamed_of_class hbuiltin hc, examineNamed_of_class hbuiltin' hc',
            ← htwins.isExported]
          split
          · exact inStep_pure rfl
          · exact inStep_examineClass hask htwins

/-- **One step**: where types are answered in step, examined types are. -/
theorem inStep_examineType (h : t.erased = u.erased) :
    Query.InStep R Eq (examineType e ask t) (examineType e' ask' u) := by
  have hstar := TypeRef.hasStar_eq_of_erased_eq h
  cases ht : t.hasStar with
  | true =>
    rw [examineType_of_hasStar ht, examineType_of_hasStar (hstar ▸ ht)]
    exact inStep_pure rfl
  | false =>
    have hu : u.hasStar = false := hstar ▸ ht
    cases t with
    | dynamic =>
      cases u with
      | dynamic => exact inStep_pure rfl
      | named => cases h
      | parameter => cases h
    | parameter name bounds nullable =>
      cases u with
      | dynamic => cases h
      | named => cases h
      | parameter name' bounds' nullable' =>
        rw [examineType_parameter, examineType_parameter]
        have hbounds : bounds.map TypeRef.erased = bounds'.map TypeRef.erased := by
          simpa using (TypeRef.parameter.inj h).2.1
        exact (Inquiry.Paired.all (map_eq_map_iff_forall₂.mp hbounds)).inStep hask
    | named name args nullable =>
      cases u with
      | dynamic => cases h
      | parameter => cases h
      | named name' args' nullable' =>
        simp only [examineType, ht, hu, Bool.false_eq_true, if_false]
        rw [← TypeRef.key_eq_of_erased_eq h]
        refine inStep_bind (inStep_lookup _) ?_
        rintro found _ rfl
        cases found with
        | some answer => exact inStep_pure rfl
        | none =>
          refine inStep_bind (inStep_begin _) fun _ _ _ => ?_
          refine inStep_outcome_bind (inStep_examineNamed hask he h) ?_ fun failure => ?_
          · rintro answer _ rfl
            exact inStep_bind (inStep_resolve _ _) fun _ _ _ => inStep_pure rfl
          · exact inStep_bind (inStep_resolve _ _) fun _ _ _ => inStep_throw failure

end Step

variable (he : InStep R e e')
include he

theorem inStep_typeWithin (depth : Nat) (h : t.erased = u.erased) :
    Query.InStep R Eq (typeWithin e depth t) (typeWithin e' depth u) := by
  induction depth generalizing t u with
  | zero => exact inStep_pure rfl
  | succ depth ih => exact inStep_examineType (fun _ _ => ih) he h

/-- **Evaluators in step answer in step**, and fail for the same property, however
deep each of them may go. -/
theorem inStep_typeExportable (h : t.erased = u.erased) :
    Query.InStep R Eq (typeExportable e t) (typeExportable e' u) := by
  -- the two bounds differ, but a bound above both is as good for either
  refine (inStep_typeWithin he (max (e.bound [t]) (e'.bound [u])) h).congr (fun s => ?_) fun s => ?_
  · have hself : t ∈ scope e [t] := mem_scope_of_mem (List.mem_singleton_self t)
    exact (ask_typeWithin_eq_typeExportable hself
      ((need_le_room hself).trans (room_le_bound.trans (Nat.le_max_left _ _)))).symm
  · have hself : u ∈ scope e' [u] := mem_scope_of_mem (List.mem_singleton_self u)
    exact (ask_typeWithin_eq_typeExportable hself
      ((need_le_room hself).trans (room_le_bound.trans (Nat.le_max_right _ _)))).symm

/-! ### Verdicts -/

/-- Rules put with the bounds of their types go in step if they are paired. -/
theorem inStep_run {α β : Type} {A : α → β → Prop} {q : Inquiry α} {q' : Inquiry β}
    {types types' : List TypeRef} (hq : q.Paired A q') (hwithin : q.Within (· ∈ types))
    (hwithin' : q'.Within (· ∈ types')) :
    Query.InStep R A (q.run (typeWithin e (e.bound types)))
      (q'.run (typeWithin e' (e'.bound types'))) :=
  (hq.inStep fun _ _ => inStep_typeExportable he).congr
    (fun _ => ask_run_typeWithin (hwithin.imp fun _ => mem_scope_of_mem))
    fun _ => ask_run_typeWithin (hwithin'.imp fun _ => mem_scope_of_mem)

theorem inStep_classVerdict (hc : Twins R e e' c c') :
    Query.InStep R (Verdict.Paired R) (classVerdict e c) (classVerdict e' c') := by
  have hexamined : Query.InStep R Eq (classExportable e c) (classExportable e' c') :=
    (inStep_examineClass (fun _ _ => inStep_typeExportable he) hc).congr
      (ask_classExportable_eq e c) (ask_classExportable_eq e' c')
  refine inStep_bind hexamined fun _ _ _ s s' hs => ?_
  rw [hc.name]
  exact .answered (hs.verdict c'.name) hs

theorem inStep_functionVerdict {f g : FunctionDecl}
    (h : (Rule.ofFunction Inquiry.put f).Paired (Verdict.Paired R)
      (Rule.ofFunction Inquiry.put g)) :
    Query.InStep R (Verdict.Paired R) (functionVerdict e f) (functionVerdict e' g) := by
  rw [functionVerdict, functionVerdict, ← Inquiry.run_ofFunction, ← Inquiry.run_ofFunction]
  exact inStep_run he h (Rule.within_ofFunction fun _ => id) (Rule.within_ofFunction fun _ => id)

theorem inStep_propertyVerdict {p q : PropertyDecl}
    (h : (Rule.ofProperty e.options Inquiry.put p).Paired (Verdict.Paired R)
      (Rule.ofProperty e'.options Inquiry.put q)) :
    Query.InStep R (Verdict.Paired R) (propertyVerdict e p) (propertyVerdict e' q) := by
  rw [propertyVerdict, propertyVerdict, ← Inquiry.run_ofProperty, ← Inquiry.run_ofProperty]
  exact inStep_run he h (Rule.within_ofProperty fun _ => id) (Rule.within_ofProperty fun _ => id)

end Evaluator

end ExportSurface
