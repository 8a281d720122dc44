import ExportSurface.Proofs.Endings
import ExportSurface.Proofs.Session
/-!
# How a question fails

An evaluation fails only as the rules of its classes do, and passes their
failures on (`Evaluator.failsOnly_typeWithin`). So a question put to an
evaluator, whatever its classes are and in any session, fails for nothing but a
property without a type (`Query.FailsUntyped`), and where all properties have
types, none fails.
-/

namespace ExportSurface

namespace Query

variable {α β : Type} {F : ModuleError → Prop}

/-- The question fails in one way alone. -/
def FailsOnly (F : ModuleError → Prop) (q : Query α) : Prop :=
  ∀ s failure s', q.ask s = (.error failure, s') → F failure

/-- The question fails for nothing but a property without a type. -/
def FailsUntyped (q : Query α) : Prop :=
  q.FailsOnly fun failure => ∃ name, failure = .untypedProperty name

/-- A question that cannot fail has an answer. -/
theorem exists_of_failsOnly_false {q : Query α} (h : q.FailsOnly fun _ => False) (s : Session) :
    ∃ a s', q.ask s = (.ok a, s') := by
  cases hask : q.ask s with
  | mk result s' =>
    cases result with
    | ok a => exact ⟨a, s', rfl⟩
    | error failure => exact (h s failure s' hask).elim

/-- A question that always has an answer. -/
theorem failsOnly_of_ok {q : Query α} (h : ∀ s, ∃ a s', q.ask s = (.ok a, s')) :
    q.FailsOnly F := by
  intro s failure s' hask
  obtain ⟨a, s'', hok⟩ := h s
  rw [hok] at hask
  cases hask

theorem failsOnly_pure (a : α) : (pure a : Query α).FailsOnly F :=
  failsOnly_of_ok fun s => ⟨a, s, rfl⟩

theorem failsOnly_bind {q : Query α} {f : α → Query β} (hq : q.FailsOnly F)
    (hf : ∀ a, (f a).FailsOnly F) : (q >>= f).FailsOnly F := by
  intro s failure s' hask
  rw [ask_bind] at hask
  cases hfirst : q.ask s with
  | mk result s₁ =>
    rw [hfirst] at hask
    cases result with
    | error failure' =>
      cases hask
      exact hq s _ _ hfirst
    | ok a => exact hf a s₁ failure s' hask

theorem failsOnly_throw {failure : ModuleError} (h : F failure) :
    (throw failure : Query α).FailsOnly F := by
  intro s failure' s' hask
  cases hask
  exact h

theorem failsOnly_map {q : Query α} (f : α → β) (hq : q.FailsOnly F) : (f <$> q).FailsOnly F := by
  rw [map_eq_pure_bind]
  exact failsOnly_bind hq fun a => failsOnly_pure (f a)

/-- A question whose failure is met goes on from a failure of its kind. -/
theorem failsOnly_outcome_bind {q : Query α} {g : Except ModuleError α → Query β}
    (hq : q.FailsOnly F) (hok : ∀ a, (g (.ok a)).FailsOnly F)
    (herror : ∀ failure, F failure → (g (.error failure)).FailsOnly F) :
    (q.outcome >>= g).FailsOnly F := by
  intro s failure s' hask
  rw [ask_bind, ask_outcome] at hask
  cases hfirst : q.ask s with
  | mk result s₁ =>
    rw [hfirst] at hask
    cases result with
    | error failure' => exact herror failure' (hq s failure' s₁ hfirst) s₁ failure s' hask
    | ok a => exact hok a s₁ failure s' hask

theorem failsOnly_lookup (key : MemoKey) : (lookup key).FailsOnly F :=
  failsOnly_of_ok fun s => ⟨_, _, ask_lookup key s⟩

theorem failsOnly_begin (key : MemoKey) : (begin key).FailsOnly F :=
  failsOnly_of_ok fun s => ⟨_, _, ask_begin key s⟩

theorem failsOnly_resolve (key : MemoKey) (answer : Bool) : (resolve key answer).FailsOnly F :=
  failsOnly_of_ok fun s => ⟨_, _, ask_resolve key answer s⟩

theorem failsOnly_remember (name : QualifiedName) (verdict : Verdict) :
    (remember name verdict).FailsOnly F :=
  failsOnly_of_ok fun s => ⟨_, _, ask_remember name verdict s⟩

end Query

open Query

namespace Inquiry

variable {α : Type} {F : ModuleError → Prop} {ask : TypeRef → Query Bool} {q : Inquiry α}

/-- A rule fails as it ends, or as its questions do. -/
theorem failsOnly_run {Q : α → Prop} (hask : ∀ t, (ask t).FailsOnly F)
    (hq : q.Ends F (fun _ => True) Q) : (q.run ask).FailsOnly F := by
  induction q with
  | done a => exact failsOnly_pure a
  | fail failure => exact failsOnly_throw hq
  | ask t next ih =>
    refine failsOnly_bind (hask t) fun b => ?_
    cases b with
    | true => exact ih true (hq.1 trivial)
    | false => exact ih false hq.2

/-- Types in questions apart, a rule put in a session ends as it does. -/
theorem Ends.of_run {X : TypeRef → Prop} {Q : α → Prop}
    (hask : ∀ t s s', (ask t).ask s = (.ok true, s') → X t) (hq : q.Ends F X Q) {s s' : Session}
    {a : α} (h : (q.run ask).ask s = (.ok a, s')) : Q a := by
  induction q generalizing s with
  | done b =>
    cases h
    exact hq
  | fail failure => cases h
  | ask t next ih =>
    rw [Inquiry.run, ask_bind] at h
    cases hfirst : (ask t).ask s with
    | mk result s₁ =>
      rw [hfirst] at h
      cases result with
      | error failure => cases h
      | ok b =>
        cases b with
        | true => exact ih true (hq.1 (hask t s s₁ hfirst)) h
        | false => exact ih false hq.2 h

end Inquiry

namespace Evaluator

variable {e : Evaluator} {F : ModuleError → Prop} {ask : TypeRef → Query Bool}

/-- Whether the properties of a class that have no type make a rule fail in one
way. -/
def FailsIn (F : ModuleError → Prop) (c : ClassDecl) : Prop :=
  ∀ p ∈ c.properties, p.valueType? = none → F (.untypedProperty p.name)

/-! ## The evaluation -/

section Step

variable (hask : ∀ t, (ask t).FailsOnly F)
include hask

theorem failsOnly_examineClass {c : ClassDecl} (hc : FailsIn F c) :
    (examineClass e ask c).FailsOnly F := by
  refine failsOnly_bind (failsOnly_lookup _) fun found => ?_
  cases found with
  | some answer => exact failsOnly_pure answer
  | none =>
    refine failsOnly_bind (failsOnly_begin _) fun _ => ?_
    refine failsOnly_outcome_bind ?_ (fun verdict => ?_) fun failure hfailure => ?_
    · rw [← Inquiry.run_ofClass]
      exact Inquiry.failsOnly_run hask (Rule.demands_ofClass e.options c hc)
    · refine failsOnly_bind (failsOnly_resolve _ _) fun kept => ?_
      cases kept with
      | false => exact failsOnly_pure _
      | true => exact failsOnly_bind (failsOnly_remember _ _) fun _ => failsOnly_pure _
    · exact failsOnly_bind (failsOnly_resolve _ _) fun _ => failsOnly_throw hfailure

variable (hF : ∀ c ∈ e.classes, FailsIn F c)
include hF

theorem failsOnly_examineNamed (t : TypeRef) : (examineNamed e ask t).FailsOnly F :=
  examineNamed_induction failsOnly_pure (Inquiry.failsOnly_run hask (Rule.ends_accepts t))
    fun _ c hname _ => failsOnly_examineClass hask (hF c (List.mem_of_find?_eq_some hname))

theorem failsOnly_examineType (t : TypeRef) : (examineType e ask t).FailsOnly F := by
  refine examineType_induction failsOnly_pure
    (fun ts => Inquiry.failsOnly_run hask (Inquiry.ends_all ts)) fun hnamed hstar => ?_
  cases t with
  | dynamic => cases hnamed
  | parameter => cases hnamed
  | named name args nullable =>
    rw [examineType, if_neg (by simp [hstar])]
    refine failsOnly_bind (failsOnly_lookup _) fun found => ?_
    cases found with
    | some answer => exact failsOnly_pure answer
    | none =>
      refine failsOnly_bind (failsOnly_begin _) fun _ => ?_
      refine failsOnly_outcome_bind (failsOnly_examineNamed hask hF _) (fun answer => ?_)
        fun failure hfailure => ?_
      · exact failsOnly_bind (failsOnly_resolve _ _) fun _ => failsOnly_pure answer
      · exact failsOnly_bind (failsOnly_resolve _ _) fun _ => failsOnly_throw hfailure

end Step

variable (hF : ∀ c ∈ e.classes, FailsIn F c)
include hF

/-- **An evaluation fails as the rules of its classes do.** -/
theorem failsOnly_typeWithin (depth : Nat) (t : TypeRef) :
    (typeWithin e depth t).FailsOnly F := by
  induction depth generalizing t with
  | zero => exact failsOnly_pure false
  | succ depth ih => exact failsOnly_examineType ih hF t

/-! ## Verdicts -/

theorem failsOnly_classVerdict {c : ClassDecl} (hc : FailsIn F c) :
    (classVerdict e c).FailsOnly F := by
  refine failsOnly_bind (failsOnly_examineClass (failsOnly_typeWithin hF _) hc) fun _ => ?_
  exact failsOnly_of_ok fun s => ⟨_, s, rfl⟩

theorem failsOnly_functionVerdict (f : FunctionDecl) : (functionVerdict e f).FailsOnly F := by
  rw [functionVerdict, ← Inquiry.run_ofFunction]
  exact Inquiry.failsOnly_run (failsOnly_typeWithin hF _) (Rule.demands_ofFunction f)

theorem failsOnly_propertyVerdict {p : PropertyDecl}
    (hp : p.valueType? = none → F (.untypedProperty p.name)) :
    (propertyVerdict e p).FailsOnly F := by
  rw [propertyVerdict, ← Inquiry.run_ofProperty]
  exact Inquiry.failsOnly_run (failsOnly_typeWithin hF _) (Rule.demands_ofProperty e.options p hp)

end Evaluator

end ExportSurface
