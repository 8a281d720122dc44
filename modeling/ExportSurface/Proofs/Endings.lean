import ExportSurface.Proofs.Criteria
/-!
# How a rule ends

A session may answer one question in two ways, while something is in flight and
after, so what a rule comes to in a session is not always what it comes to with
fixed answers. What can be said is how a rule ends whatever it is told
(`Inquiry.Ends`): an inquiry that is told yes about types of one kind alone
ends with results of one kind, or fails in one way.

So told, a rule that lets a declaration pass has met the criterion on it
(`Rule.ends_ofClass` and its companions), and it fails for nothing but a
property without a type.
-/

namespace ExportSurface

namespace Inquiry

variable {α β : Type} {F : ModuleError → Prop} {X : TypeRef → Prop} {P Q : α → Prop}
  {q : Inquiry α}

/-- Told yes about types of one kind alone, the inquiry ends with results of one
kind, or fails in one way. -/
def Ends (F : ModuleError → Prop) (X : TypeRef → Prop) (Q : α → Prop) : Inquiry α → Prop
  | .done a => Q a
  | .fail failure => F failure
  | .ask t next => (X t → (next true).Ends F X Q) ∧ (next false).Ends F X Q

theorem Ends.imp (h : q.Ends F X P) (hPQ : ∀ a, P a → Q a) : q.Ends F X Q := by
  induction q with
  | done a => exact hPQ a h
  | fail failure => exact h
  | ask t next ih => exact ⟨fun ht => ih true (h.1 ht), ih false h.2⟩

theorem Ends.bind {R : β → Prop} {f : α → Inquiry β} (h : q.Ends F X P)
    (hf : ∀ a, P a → (f a).Ends F X R) : (q >>= f).Ends F X R := by
  induction q with
  | done a => exact hf a h
  | fail failure => exact h
  | ask t next ih => exact ⟨fun ht => ih true (h.1 ht), ih false h.2⟩

theorem Ends.map {R : β → Prop} {f : α → β} (h : q.Ends F X fun a => R (f a)) :
    (f <$> q).Ends F X R :=
  h.bind fun _ ha => ha

theorem ends_put (t : TypeRef) : (put t).Ends F X fun b => b = true → X t :=
  ⟨fun ht _ => ht, fun h => by cases h⟩

theorem ends_all (ts : List TypeRef) : (all ts).Ends F X fun b => b = true → ∀ t ∈ ts, X t := by
  induction ts with
  | nil => exact fun _ t ht => by cases ht
  | cons t ts ih =>
    refine (ends_put t).bind fun b hb => ?_
    cases b with
    | false => exact fun h => by cases h
    | true => exact ih.imp fun b hrest h => List.forall_mem_cons.mpr ⟨hb rfl, hrest h⟩

/-- The rule lets a declaration pass only if a criterion is met. -/
def Demands (F : ModuleError → Prop) (X : TypeRef → Prop) (C : Prop) (q : Inquiry Verdict) : Prop :=
  q.Ends F X fun v => v.isExportable = true → C

theorem demands_rejected {C : Prop} (reason : Rejection) :
    (pure (.rejected reason) : Inquiry Verdict).Demands F X C :=
  fun h => by cases h

theorem Demands.imp {C D : Prop} {q : Inquiry Verdict} (h : q.Demands F X C) (hCD : C → D) :
    q.Demands F X D :=
  Ends.imp h fun _ hv he => hCD (hv he)

theorem Demands.isExportable {C : Prop} {q : Inquiry Verdict} (h : q.Demands F X C) :
    (Verdict.isExportable <$> q).Ends F X fun ok => ok = true → C :=
  Ends.map h

end Inquiry

/-- What is left of a list when members of one kind alone may be dropped. -/
inductive DropsOnly {α : Type} (E : α → Prop) : List α → List α → Prop
  | nil : DropsOnly E [] []
  | keep {a : α} {as own : List α} : DropsOnly E as own → DropsOnly E (a :: as) (a :: own)
  | drop {a : α} {as own : List α} : E a → DropsOnly E as own → DropsOnly E (a :: as) own

namespace DropsOnly

variable {α : Type} {E : α → Prop} {as own : List α}

theorem mem_or (h : DropsOnly E as own) {a : α} (ha : a ∈ as) : E a ∨ a ∈ own := by
  induction h with
  | nil => cases ha
  | keep _ ih =>
    rcases List.mem_cons.mp ha with rfl | hin
    · exact Or.inr List.mem_cons_self
    · exact (ih hin).imp_right (List.mem_cons_of_mem _)
  | drop he _ ih =>
    rcases List.mem_cons.mp ha with rfl | hin
    · exact Or.inl he
    · exact ih hin

/-- What holds between all that is left holds between all but the dropped. -/
theorem pairwise (h : DropsOnly E as own) {R : α → α → Prop} (hown : own.Pairwise R) :
    as.Pairwise fun a b => E a ∨ E b ∨ R a b := by
  induction h with
  | nil => exact .nil
  | keep h ih =>
    rw [List.pairwise_cons] at hown
    refine .cons (fun b hb => ?_) (ih hown.2)
    exact Or.inr ((h.mem_or hb).imp_right (hown.1 b))
  | drop he _ ih => exact .cons (fun b _ => Or.inl he) (ih hown)

end DropsOnly

namespace Rule

open Inquiry

variable {F : ModuleError → Prop} {X : TypeRef → Prop}

/-! ## Asking about several things -/

theorem ends_refused {α : Type} {ask : α → Inquiry Bool} {A : α → Prop} {as : List α}
    (h : ∀ a ∈ as, (ask a).Ends F X fun ok => ok = true → A a) :
    (refused ask as).Ends F X fun out => out = [] → ∀ a ∈ as, A a := by
  induction as with
  | nil => exact fun _ a ha => by cases ha
  | cons a as ih =>
    refine (h a List.mem_cons_self).bind fun ok hok => ?_
    refine (ih fun b hb => h b (List.mem_cons_of_mem a hb)).bind fun rest hrest => ?_
    cases ok with
    | false => exact fun hnil => by cases hnil
    | true => exact fun hnil => List.forall_mem_cons.mpr ⟨hok rfl, hrest hnil⟩

/-- What is sifted out is exempt, and where nothing offends, the rest is
accepted. -/
theorem ends_sift {α : Type} {exempted ask : α → Inquiry Bool} {E A : α → Prop} {as : List α}
    (hexempt : ∀ a ∈ as, (exempted a).Ends F X fun free => free = true → E a)
    (h : ∀ a ∈ as, (ask a).Ends F X fun ok => ok = true → A a) :
    (sift exempted ask as).Ends F X fun out =>
      DropsOnly E as out.1 ∧ (out.2 = [] → ∀ a ∈ as, E a ∨ A a) := by
  induction as with
  | nil => exact ⟨.nil, fun _ a ha => by cases ha⟩
  | cons a as ih =>
    have hrest := ih (fun b hb => hexempt b (List.mem_cons_of_mem a hb))
      fun b hb => h b (List.mem_cons_of_mem a hb)
    refine (hexempt a List.mem_cons_self).bind fun free hfree => ?_
    cases free with
    | true =>
      refine hrest.imp fun out hout => ⟨.drop (hfree rfl) hout.1, fun hnil => ?_⟩
      exact List.forall_mem_cons.mpr ⟨Or.inl (hfree rfl), hout.2 hnil⟩
    | false =>
      refine (h a List.mem_cons_self).bind fun ok hok => hrest.bind fun out hout => ?_
      cases ok with
      | false => exact ⟨.keep hout.1, fun hnil => by cases hnil⟩
      | true =>
        refine ⟨.keep hout.1, fun hnil => ?_⟩
        exact List.forall_mem_cons.mpr ⟨Or.inr (hok rfl), hout.2 hnil⟩

theorem demands_unlessRefused {reason : String → Rejection} {type : Option TypeRef}
    {next : Inquiry Verdict} {C : Prop} (h : next.Demands F X C) :
    (unlessRefused put reason type next).Demands F X ((∀ t, type = some t → X t) ∧ C) := by
  cases type with
  | none => exact h.imp fun hc => ⟨fun t ht => (nomatch ht), hc⟩
  | some t =>
    refine (ends_put t).bind fun b hb => ?_
    cases b with
    | false => exact demands_rejected _
    | true => exact h.imp fun hc => ⟨fun u hu => Option.some.inj hu ▸ hb rfl, hc⟩

theorem demands_unlessOffending {reason : List String → Rejection} {offending : List String}
    {next : Inquiry Verdict} {C : Prop} (h : offending = [] → next.Demands F X C) :
    (unlessOffending reason offending next).Demands F X C := by
  cases offending with
  | nil => exact h rfl
  | cons => exact demands_rejected _

/-! ## Functions, constructors and properties -/

theorem demands_receiversAndParameters (dispatch extension : Option TypeRef)
    (parameters : List ValueParameter) :
    (receiversAndParameters put dispatch extension parameters).Demands F X
      (SignatureAdmitted X dispatch extension parameters) := by
  have hparameters : (do
      let offending ← refused (fun p : ValueParameter => put p.type) parameters
      pure (Verdict.ofOffending .parameters (offending.map parameterText)) :
        Inquiry Verdict).Demands F X
        (∀ p ∈ parameters, X p.type) := by
    refine (ends_refused fun p _ => ends_put p.type).bind fun offending h => ?_
    cases offending with
    | nil => exact fun _ => h rfl
    | cons => exact fun he => by cases he
  refine (demands_unlessRefused (demands_unlessRefused hparameters)).imp ?_
  rintro ⟨hd, he, hp⟩
  exact ⟨hd, he, hp⟩

theorem demands_ofFunction (f : FunctionDecl) :
    (ofFunction put f).Demands F X (FunctionAdmitted X f) := by
  unfold ofFunction
  cases hgate : callableGate f.visibility f.modifiers with
  | some reason => exact demands_rejected reason
  | none =>
    refine (demands_unlessRefused (demands_receiversAndParameters _ _ _)).imp ?_
    rintro ⟨hreturned, hsignature⟩
    exact ⟨callableGate_eq_none_iff.mp hgate, hreturned _ rfl, hsignature⟩

theorem demands_ofConstructor (k : ConstructorDecl) :
    (ofConstructor put k).Demands F X (ConstructorAdmitted X k) := by
  unfold ofConstructor
  cases hgate : callableGate k.visibility k.modifiers with
  | some reason => exact demands_rejected reason
  | none =>
    exact (demands_receiversAndParameters _ _ _).imp fun hsignature =>
      ⟨callableGate_eq_none_iff.mp hgate, hsignature⟩

theorem demands_getterReceivers {getter : Option Getter} {next : Inquiry Verdict} {C : Prop}
    (h : next.Demands F X C) :
    (getterReceivers put getter next).Demands F X
      ((∀ t, getter.bind (·.dispatchReceiver) = some t → X t) ∧
        (∀ t, getter.bind (·.extensionReceiver) = some t → X t) ∧ C) := by
  cases getter with
  | none => exact h.imp fun hc => ⟨fun t ht => (nomatch ht), fun t ht => (nomatch ht), hc⟩
  | some g => exact demands_unlessRefused (demands_unlessRefused h)

/-- A property without a type is all that a rule fails for. -/
theorem demands_ofProperty (options : RuleOptions) (p : PropertyDecl)
    (hF : p.valueType? = none → F (.untypedProperty p.name)) :
    (ofProperty options put p).Demands F X (PropertyAdmitted options X p) := by
  unfold ofProperty
  cases hexpect : p.modifiers.expect with
  | true => exact demands_rejected _
  | false =>
    cases hexternal : p.modifiers.external with
    | true => exact demands_rejected _
    | false =>
      refine Demands.imp (demands_getterReceivers (C := options.checkPropertyTypes = true →
        ∀ t, p.valueType? = some t → X t) ?_) ?_
      · unfold PropertyDecl.valueType
        cases ht : p.valueType? with
        | none => exact hF ht
        | some t =>
          cases options.checkPropertyTypes with
          | false => exact fun _ h => by cases h
          | true =>
            have hdone : (pure .exportable : Inquiry Verdict).Demands F X True := fun _ => trivial
            exact (demands_unlessRefused hdone).imp fun h _ => h.1
      · rintro ⟨hd, he, hv⟩
        exact ⟨hexpect, hexternal, hd, he, hv⟩

/-- A property without a type is not accepted. -/
theorem demands_typed_ofProperty (options : RuleOptions) (p : PropertyDecl)
    (hF : p.valueType? = none → F (.untypedProperty p.name)) :
    (ofProperty options put p).Demands F X (p.valueType?.isSome = true) := by
  unfold ofProperty
  split
  · exact demands_rejected _
  split
  · exact demands_rejected _
  refine (demands_getterReceivers (C := p.valueType?.isSome = true) ?_).imp fun h => h.2.2
  unfold PropertyDecl.valueType
  cases ht : p.valueType? with
  | none => exact hF ht
  | some t =>
    have hdone : (pure .exportable : Inquiry Verdict).Demands F X True := fun _ => trivial
    dsimp only
    split
    · exact (demands_unlessRefused hdone).imp fun _ => rfl
    · exact hdone.imp fun _ => rfl

/-! ## Classes -/

theorem ends_accepts (t : TypeRef) :
    (Builtin.accepts put t).Ends F X fun b => b = true → BuiltinAdmitted X t := by
  unfold Builtin.accepts
  cases hstar : t.hasStar with
  | true => exact fun h => by cases h
  | false =>
    have hadmitted : (Builtin.ofType? t).isSome = true → (∀ u, t.element? = some u → X u) →
        BuiltinAdmitted X t := fun hbuiltin helement => ⟨hstar, hbuiltin, helement⟩
    unfold TypeRef.element? at hadmitted
    cases hkind : Builtin.ofType? t with
    | none => exact fun h => by cases h
    | some kind =>
      rw [hkind] at hadmitted
      cases kind with
      | array =>
        cases hargs : t.arguments with
        | nil => exact fun _ => hadmitted rfl fun u hu => by simp [hargs] at hu
        | cons a as =>
          cases a with
          | star => exact fun h => by cases h
          | type u =>
            refine (ends_put u).imp fun b hb h => hadmitted rfl fun v hv => ?_
            rw [hargs] at hv
            exact Option.some.inj hv ▸ hb h
      | _ => exact fun _ => hadmitted rfl fun u hu => by simp at hu

theorem ends_inheritedFromBuiltin (ancestor : Option TypeRef) :
    (inheritedFromBuiltin put ancestor).Ends F X fun free => free = true → Exempt X ancestor := by
  cases ancestor with
  | none => exact fun h => by cases h
  | some t => exact (ends_accepts t).imp fun b hb h => ⟨t, rfl, hb h⟩

/-- **The rule of classes lets no class pass that is neither marked nor meets
the criterion**, within the types it was told yes about. -/
theorem demands_ofClass (options : RuleOptions) (c : ClassDecl)
    (hF : ∀ p ∈ c.properties, p.valueType? = none → F (.untypedProperty p.name)) :
    (ofClass options put c).Demands F X (c.isExported = true ∨ ClassAdmitted options X c) := by
  unfold ofClass
  cases hmarked : c.isExported with
  | true => exact fun _ => Or.inl rfl
  | false =>
    rw [if_neg (by simp)]
    cases hgate : classGate c.toClassHeader with
    | some reason => exact demands_rejected reason
    | none =>
      obtain ⟨hunflagged, hpublic⟩ := classGate_eq_none_iff.mp hgate
      refine (ends_refused fun t _ => ends_put t).bind fun types htypes => ?_
      refine demands_unlessOffending fun hnotypes => ?_
      refine (ends_refused fun k _ => (demands_ofConstructor k).isExportable).bind
        fun ctors hctors => ?_
      refine demands_unlessOffending fun hnoctors => ?_
      refine (ends_sift (fun p _ => ends_inheritedFromBuiltin p.inheritedFrom) fun p hp =>
        (demands_ofProperty options p (hF p (List.mem_filter.mp hp).1)).isExportable).bind
        fun props hprops => ?_
      refine demands_unlessOffending fun hnoprops => ?_
      refine (ends_sift (fun f _ => ends_inheritedFromBuiltin f.inheritedFrom) fun f _ =>
        (demands_ofFunction f).isExportable).bind fun methods hmethods => ?_
      refine demands_unlessOffending fun hnomethods => ?_
      -- nothing is at fault up to here, and the names of the methods are left
      intro hv
      have hnames : overloadedNames methods.1 = [] := by
        cases hnames : overloadedNames methods.1 with
        | nil => rfl
        | cons n ns =>
          rw [hnames] at hv
          cases hv
      have hpairwise := hmethods.1.pairwise (overloadedNames_eq_nil_iff.mp hnames)
      rw [List.pairwise_filter] at hpairwise
      refine Or.inr ⟨hunflagged, hpublic, ?_, ?_, ?_, ?_, ?_⟩
      · exact htypes (List.map_eq_nil_iff.mp hnotypes)
      · exact fun k hk hv => hctors (List.map_eq_nil_iff.mp hnoctors) k
          (List.mem_filter.mpr ⟨hk, isPublic_iff.mpr hv⟩)
      · exact fun p hp hv => hprops.2 (List.map_eq_nil_iff.mp hnoprops) p
          (List.mem_filter.mpr ⟨hp, isPublic_iff.mpr hv⟩)
      · exact fun f hf hv => hmethods.2 (List.map_eq_nil_iff.mp hnomethods) f
          (List.mem_filter.mpr ⟨hf, isPublic_iff.mpr hv⟩)
      · exact hpairwise.imp fun hfg hf hg => hfg (isPublic_iff.mpr hf) (isPublic_iff.mpr hg)

end Rule

end ExportSurface
