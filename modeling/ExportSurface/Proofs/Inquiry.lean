import ExportSurface.Proofs.Session
/-!
# Rules as inquiries

An inquiry is a rule with its questions left open: it is done, it fails, or it
asks about a type and goes on from either answer. The rules of
`ExportSurface.Rule` do not say where answers come from, so each of them is an
inquiry too, and put in a session it is the rule asking that session
(`Inquiry.run_ofClass` and its companions).

What a session answers can then be compared with answers given by a fixed
function on types, `Inquiry.eval`, along the questions that are really asked,
`Inquiry.asked`: `Inquiry.eval_congr` says that no other answer matters.
-/

namespace ExportSurface

/-- A rule with its questions left open. -/
inductive Inquiry (α : Type) where
  | done (a : α)
  | fail (e : ModuleError)
  | ask (t : TypeRef) (next : Bool → Inquiry α)

namespace Inquiry

variable {α β : Type}

/-- The inquiry that goes on where the first one is done. -/
protected def bind : Inquiry α → (α → Inquiry β) → Inquiry β
  | .done a, f => f a
  | .fail e, _ => .fail e
  | .ask t next, f => .ask t fun b => (next b).bind f

/-- The inquiry that goes on where the first one fails. -/
def handle : Inquiry α → (ModuleError → Inquiry α) → Inquiry α
  | .done a, _ => .done a
  | .fail e, f => f e
  | .ask t next, f => .ask t fun b => (next b).handle f

instance : Monad Inquiry where
  pure := .done
  bind := Inquiry.bind

instance : MonadExceptOf ModuleError Inquiry where
  throw := .fail
  tryCatch := handle

/-- The inquiry that asks about one type. -/
def put (t : TypeRef) : Inquiry Bool := .ask t .done

/-! ## An inquiry put in a session -/

/-- The inquiry with its questions put in a session. -/
def run (ask : TypeRef → Query Bool) : Inquiry α → Query α
  | .done a => pure a
  | .fail e => throw e
  | .ask t next => do
    let b ← ask t
    (next b).run ask

section Run

variable (ask : TypeRef → Query Bool)

@[simp] theorem run_pure (a : α) : (pure a : Inquiry α).run ask = pure a := rfl

@[simp] theorem run_throw (e : ModuleError) : (throw e : Inquiry α).run ask = throw e := rfl

@[simp] theorem run_put (t : TypeRef) : (put t).run ask = ask t :=
  bind_pure (ask t)

@[simp] theorem run_bind (q : Inquiry α) (f : α → Inquiry β) :
    (q >>= f).run ask = q.run ask >>= fun a => (f a).run ask := by
  induction q with
  | done a =>
    change (f a).run ask = pure a >>= fun a => (f a).run ask
    rw [pure_bind]
  | fail e => rfl
  | ask t next ih =>
    change (ask t >>= fun b => (next b >>= f).run ask)
      = (ask t >>= fun b => (next b).run ask) >>= fun a => (f a).run ask
    rw [bind_assoc]
    exact congrArg (ask t >>= ·) (funext ih)

@[simp] theorem run_map (q : Inquiry α) (f : α → β) : (f <$> q).run ask = f <$> q.run ask := by
  change (q >>= fun a => pure (f a)).run ask = f <$> q.run ask
  rw [run_bind, map_eq_pure_bind]
  rfl

theorem run_refused (accept : α → Inquiry Bool) (as : List α) :
    (Rule.refused accept as).run ask = Rule.refused (fun a => (accept a).run ask) as := by
  induction as with
  | nil => rfl
  | cons a as ih => simp [Rule.refused, ih]

theorem run_sift (exempt accept : α → Inquiry Bool) (as : List α) :
    (Rule.sift exempt accept as).run ask
      = Rule.sift (fun a => (exempt a).run ask) (fun a => (accept a).run ask) as := by
  induction as with
  | nil => rfl
  | cons a as ih =>
    simp only [Rule.sift, run_bind]
    congr 1
    funext b
    cases b with
    | false => simp [ih]
    | true => simp [ih]

theorem run_unlessRefused (reason : String → Rejection) (type : Option TypeRef)
    (next : Inquiry Verdict) :
    (Rule.unlessRefused put reason type next).run ask
      = Rule.unlessRefused ask reason type (next.run ask) := by
  cases type with
  | none => rfl
  | some t =>
    simp only [Rule.unlessRefused, run_bind, run_put]
    congr 1
    funext b
    cases b with
    | false => rfl
    | true => rfl

theorem run_unlessOffending (reason : List String → Rejection) (offending : List String)
    (next : Inquiry Verdict) :
    (Rule.unlessOffending reason offending next).run ask
      = Rule.unlessOffending reason offending (next.run ask) := by
  cases offending with
  | nil => rfl
  | cons => rfl

theorem run_receiversAndParameters (dispatch extension : Option TypeRef)
    (parameters : List ValueParameter) :
    (Rule.receiversAndParameters put dispatch extension parameters).run ask
      = Rule.receiversAndParameters ask dispatch extension parameters := by
  simp only [Rule.receiversAndParameters, run_unlessRefused, run_bind, run_refused, run_put,
    run_pure]

theorem run_ofFunction (f : FunctionDecl) :
    (Rule.ofFunction put f).run ask = Rule.ofFunction ask f := by
  unfold Rule.ofFunction
  split
  · rfl
  · rw [run_unlessRefused, run_receiversAndParameters]

theorem run_ofConstructor (c : ConstructorDecl) :
    (Rule.ofConstructor put c).run ask = Rule.ofConstructor ask c := by
  unfold Rule.ofConstructor
  split
  · rfl
  · rw [run_receiversAndParameters]

theorem run_getterReceivers (getter : Option Getter) (next : Inquiry Verdict) :
    (Rule.getterReceivers put getter next).run ask
      = Rule.getterReceivers ask getter (next.run ask) := by
  cases getter with
  | none => rfl
  | some g => simp only [Rule.getterReceivers, run_unlessRefused]

theorem run_ofProperty (options : RuleOptions) (p : PropertyDecl) :
    (Rule.ofProperty options put p).run ask = Rule.ofProperty options ask p := by
  unfold Rule.ofProperty
  split
  · rfl
  split
  · rfl
  rw [run_getterReceivers]
  congr 1
  split
  · rfl
  split
  · rw [run_unlessRefused]
    rfl
  · rfl

theorem run_accepts (t : TypeRef) : (Builtin.accepts put t).run ask = Builtin.accepts ask t := by
  unfold Builtin.accepts
  split
  · rfl
  split
  · rfl
  · split
    · rfl
    · rfl
    · rw [run_put]
  · rfl

theorem run_inheritedFromBuiltin (ancestor : Option TypeRef) :
    (Rule.inheritedFromBuiltin put ancestor).run ask
      = Rule.inheritedFromBuiltin ask ancestor := by
  cases ancestor with
  | none => rfl
  | some t => exact run_accepts ask t

/-- **The rule of classes is an inquiry.** Put in a session it asks what the
rule asks there, in the same order, and comes to the same verdict. -/
theorem run_ofClass (options : RuleOptions) (c : ClassDecl) :
    (Rule.ofClass options put c).run ask = Rule.ofClass options ask c := by
  unfold Rule.ofClass
  split
  · rfl
  split
  · rfl
  simp only [run_bind, run_refused, run_put, run_unlessOffending, run_sift, run_map,
    run_ofConstructor, run_inheritedFromBuiltin, run_ofProperty, run_ofFunction, run_pure]

/-- The inquiry whether all types of a list are accepted. -/
def all : List TypeRef → Inquiry Bool
  | [] => pure true
  | t :: ts => do
    if ← put t then all ts else pure false

theorem run_all (ts : List TypeRef) : (all ts).run ask = Evaluator.allAccepted ask ts := by
  induction ts with
  | nil => rfl
  | cons t ts ih =>
    simp only [all, Evaluator.allAccepted, run_bind, run_put]
    congr 1
    funext b
    cases b with
    | false => rfl
    | true => exact ih

end Run

/-! ## An inquiry with given answers -/

/-- What the inquiry comes to with given answers. -/
def eval (answer : TypeRef → Bool) : Inquiry α → Except ModuleError α
  | .done a => .ok a
  | .fail e => .error e
  | .ask t next => (next (answer t)).eval answer

/-- The types the inquiry asks about with given answers, in order. -/
def asked (answer : TypeRef → Bool) : Inquiry α → List TypeRef
  | .done _ => []
  | .fail _ => []
  | .ask t next => t :: (next (answer t)).asked answer

/-- Whatever the answers, the inquiry asks about types of one kind alone, and
fails for nothing but a property without a type. -/
def Within (P : TypeRef → Prop) : Inquiry α → Prop
  | .done _ => True
  | .fail e => ∃ name, e = .untypedProperty name
  | .ask t next => P t ∧ ∀ b, (next b).Within P

@[simp] theorem eval_pure (answer : TypeRef → Bool) (a : α) :
    (pure a : Inquiry α).eval answer = .ok a := rfl

@[simp] theorem eval_throw (answer : TypeRef → Bool) (e : ModuleError) :
    (throw e : Inquiry α).eval answer = .error e := rfl

@[simp] theorem eval_put (answer : TypeRef → Bool) (t : TypeRef) :
    (put t).eval answer = .ok (answer t) := rfl

theorem eval_bind (answer : TypeRef → Bool) (q : Inquiry α) (f : α → Inquiry β) :
    (q >>= f).eval answer =
      match q.eval answer with
      | .ok a => (f a).eval answer
      | .error e => .error e := by
  induction q with
  | done a => rfl
  | fail e => rfl
  | ask t next ih => exact ih (answer t)

theorem eval_bind_of_ok {answer : TypeRef → Bool} {q : Inquiry α} {a : α}
    (h : q.eval answer = .ok a) (f : α → Inquiry β) :
    (q >>= f).eval answer = (f a).eval answer := by
  rw [eval_bind, h]

/-- With given answers, all types of a list are accepted where each is. -/
theorem eval_all (answer : TypeRef → Bool) (ts : List TypeRef) :
    (all ts).eval answer = .ok (ts.all answer) := by
  induction ts with
  | nil => rfl
  | cons t ts ih =>
    rw [all, eval_bind_of_ok (eval_put answer t), List.all_cons]
    cases answer t with
    | false => rfl
    | true => exact ih

/-- With given answers the inquiry comes to a value, unless it fails, and that
only under a condition. -/
def ComesTo (F : Prop) (answer : TypeRef → Bool) (q : Inquiry α) (a : α) : Prop :=
  q.eval answer = .ok a ∨ F ∧ ∃ failure, q.eval answer = .error failure

section ComesTo

variable {F : Prop} {answer : TypeRef → Bool} {q : Inquiry α} {f : α → Inquiry β} {a : α} {b : β}

theorem ComesTo.bind (hq : q.ComesTo F answer a) (hf : (f a).ComesTo F answer b) :
    (q >>= f).ComesTo F answer b := by
  unfold ComesTo
  rw [eval_bind]
  rcases hq with hok | ⟨hF, failure, herror⟩
  · rw [hok]
    exact hf
  · rw [herror]
    exact Or.inr ⟨hF, failure, rfl⟩

theorem ComesTo.map (hq : q.ComesTo F answer a) (g : α → β) :
    (g <$> q).ComesTo F answer (g a) :=
  hq.bind (Or.inl rfl)

theorem ComesTo.imp {F' : Prop} (hq : q.ComesTo F answer a) (h : F → F') :
    q.ComesTo F' answer a :=
  hq.imp_right (And.imp_left h)

/-- Where the condition does not hold, it comes to the value. -/
theorem ComesTo.eval_eq (hq : q.ComesTo F answer a) (hF : ¬ F) : q.eval answer = .ok a :=
  hq.resolve_right fun h => hF h.1

/-- What it comes to, if to anything. -/
theorem ComesTo.eq (hq : q.ComesTo F answer a) {a' : α} (h : q.eval answer = .ok a') :
    a' = a := by
  rcases hq with hok | ⟨-, failure, herror⟩
  · exact Except.ok.inj (h.symm.trans hok)
  · cases h.symm.trans herror

end ComesTo

/-- **Only the answers asked for matter.** -/
theorem eval_congr {answer other : TypeRef → Bool} {q : Inquiry α}
    (h : ∀ t ∈ q.asked answer, other t = answer t) : q.eval other = q.eval answer := by
  induction q with
  | done a => rfl
  | fail e => rfl
  | ask t next ih =>
    have ht : other t = answer t := h t List.mem_cons_self
    change (next (other t)).eval other = (next (answer t)).eval answer
    rw [ht]
    exact ih (answer t) fun u hu => h u (List.mem_cons_of_mem t hu)

/-- What is asked about is of the kind the inquiry keeps to. -/
theorem Within.of_mem_asked {P : TypeRef → Prop} {answer : TypeRef → Bool} {q : Inquiry α}
    (hq : q.Within P) {t : TypeRef} (ht : t ∈ q.asked answer) : P t := by
  induction q with
  | done a => cases ht
  | fail e => cases ht
  | ask u next ih =>
    rcases List.mem_cons.mp ht with rfl | hmem
    · exact hq.1
    · exact ih (answer u) (hq.2 _) hmem

theorem Within.imp {P Q : TypeRef → Prop} {q : Inquiry α} (hq : q.Within P)
    (hPQ : ∀ t, P t → Q t) : q.Within Q := by
  induction q with
  | done a => trivial
  | fail failure => exact hq
  | ask t next ih => exact ⟨hPQ t hq.1, fun b => ih b (hq.2 b)⟩

theorem Within.bind {P : TypeRef → Prop} {q : Inquiry α} {f : α → Inquiry β}
    (hq : q.Within P) (hf : ∀ a, (f a).Within P) : (q >>= f).Within P := by
  induction q with
  | done a => exact hf a
  | fail e => exact hq
  | ask t next ih => exact ⟨hq.1, fun b => ih b (hq.2 b)⟩

theorem Within.map {P : TypeRef → Prop} {q : Inquiry α} {f : α → β} (hq : q.Within P) :
    (f <$> q).Within P :=
  hq.bind fun _ => trivial

theorem within_put {P : TypeRef → Prop} {t : TypeRef} (h : P t) : (put t).Within P :=
  ⟨h, fun _ => trivial⟩

theorem within_all {P : TypeRef → Prop} {ts : List TypeRef} (h : ∀ t ∈ ts, P t) :
    (all ts).Within P := by
  induction ts with
  | nil => trivial
  | cons t ts ih =>
    refine (within_put (h t List.mem_cons_self)).bind fun b => ?_
    cases b with
    | false => trivial
    | true => exact ih fun u hu => h u (List.mem_cons_of_mem t hu)

end Inquiry

/-! ## The steps of an evaluation -/

namespace Evaluator

variable {e : Evaluator} {ask : TypeRef → Query Bool} {t : TypeRef} {c : ClassDecl}

theorem examineNamed_of_builtin (h : (Builtin.ofType? t).isSome = true) :
    examineNamed e ask t = (Builtin.accepts Inquiry.put t).run ask := by
  rw [examineNamed, if_pos h, Inquiry.run_accepts]

theorem examineNamed_of_unknown (h : (Builtin.ofType? t).isSome = false)
    (hfound : t.className?.bind e.classNamed? = none) :
    examineNamed e ask t = pure false := by
  rw [examineNamed, if_neg (by simp [h]), hfound]

theorem examineNamed_of_class (h : (Builtin.ofType? t).isSome = false)
    (hfound : t.className?.bind e.classNamed? = some c) :
    examineNamed e ask t = if c.isExported then pure true else examineClass e ask c := by
  rw [examineNamed, if_neg (by simp [h]), hfound]

theorem examineType_of_hasStar (h : t.hasStar = true) : examineType e ask t = pure false := by
  unfold examineType
  rw [if_pos h]

theorem examineType_parameter (name : String) (bounds : List TypeRef) (nullable : Bool) :
    examineType e ask (.parameter name bounds nullable) = (Inquiry.all bounds).run ask := by
  rw [Inquiry.run_all]
  rfl

/-- What is examined of a class type: nothing, or what the rule of built-in
types asks, or a class of the index. -/
theorem examineNamed_induction {P : Query Bool → Prop} (hpure : ∀ b, P (pure b))
    (haccepts : P ((Builtin.accepts Inquiry.put t).run ask))
    (hclass : ∀ name c, e.classNamed? name = some c → c.isExported = false →
      P (examineClass e ask c)) : P (examineNamed e ask t) := by
  cases hbuiltin : (Builtin.ofType? t).isSome with
  | true => exact examineNamed_of_builtin hbuiltin ▸ haccepts
  | false =>
    cases hfound : t.className?.bind e.classNamed? with
    | none => exact examineNamed_of_unknown hbuiltin hfound ▸ hpure false
    | some c =>
      obtain ⟨name, -, hname⟩ := Option.bind_eq_some_iff.mp hfound
      rw [examineNamed_of_class hbuiltin hfound]
      cases hmarked : c.isExported with
      | true => exact hpure true
      | false => exact hclass name c hname hmarked

/-- Only class types without star projections are looked up in the memo. -/
theorem examineType_induction {P : Query Bool → Prop} (hpure : ∀ b, P (pure b))
    (hall : ∀ ts, P ((Inquiry.all ts).run ask))
    (hnamed : t.className?.isSome → t.hasStar = false → P (examineType e ask t)) :
    P (examineType e ask t) := by
  cases hstar : t.hasStar with
  | true => exact examineType_of_hasStar hstar ▸ hpure false
  | false =>
    cases t with
    | dynamic => exact hpure true
    | parameter name bounds nullable =>
      exact examineType_parameter name bounds nullable ▸ hall bounds
    | named name args nullable => exact hnamed rfl hstar

end Evaluator

end ExportSurface
