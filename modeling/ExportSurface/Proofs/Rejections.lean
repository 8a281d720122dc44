import ExportSurface.Proofs.Judgement
/-!
# The reasons a pass gives

The entries of a report about rejected candidates stand in the order of the
walk, one for each candidate that gets past the filter and the gate and is not
accepted on the export surface (`Pass.run_rejected`). For a function or a
property the reason is its first failing step on the surface.

A class may be judged while others are in flight, and these count as
exportable until they are known not to be. So the reason for a class is its
first failing step with some subjects on reference cycles with the class
assumed. All it lists is at fault (`Rule.dominated_classReasons`), but it need
not be complete, and a step that fails for such a subject alone is passed over
(`Pass.rejection_not_exact`). Off reference cycles it is exact.
-/

namespace ExportSurface

/-! ## Reasons compared -/

/-- The same step, with no more at fault. -/
inductive Rejection.Under : Rejection → Rejection → Prop
  | refl (r : Rejection) : Under r r
  | supertypes {as bs : List String} : as.Sublist bs → Under (.supertypes as) (.supertypes bs)
  | constructors {as bs : List String} : as.Sublist bs →
      Under (.constructors as) (.constructors bs)
  | properties {as bs : List String} : as.Sublist bs → Under (.properties as) (.properties bs)
  | methods {as bs : List String} : as.Sublist bs → Under (.methods as) (.methods bs)
  | overloadedMethods {as bs : List String} : as ⊆ bs →
      Under (.overloadedMethods as) (.overloadedMethods bs)

namespace Rule

/-- Each failing step of one list is one of the other, where no less is at
fault. -/
def Dominated (rs rs' : List Rejection) : Prop := ∀ r ∈ rs, ∃ r' ∈ rs', r.Under r'

theorem Dominated.refl (rs : List Rejection) : Dominated rs rs := fun r hr => ⟨r, hr, .refl r⟩

theorem Dominated.append {rs rs' ss ss' : List Rejection} (h : Dominated rs rs')
    (h' : Dominated ss ss') : Dominated (rs ++ ss) (rs' ++ ss') := by
  intro r hr
  rcases List.mem_append.mp hr with hin | hin
  · obtain ⟨r', hr', hunder⟩ := h r hin
    exact ⟨r', List.mem_append_left _ hr', hunder⟩
  · obtain ⟨r', hr', hunder⟩ := h' r hin
    exact ⟨r', List.mem_append_right _ hr', hunder⟩

theorem dominated_offence {reason : List String → Rejection} {as bs : List String}
    (hsub : as ⊆ bs) (hunder : (reason as).Under (reason bs)) :
    Dominated (offence reason as) (offence reason bs) := by
  cases as with
  | nil =>
    intro r hr
    cases hr
  | cons a as =>
    obtain ⟨b, bs', rfl⟩ := List.exists_cons_of_ne_nil
      (List.ne_nil_of_mem (hsub List.mem_cons_self))
    intro r hr
    rw [List.mem_singleton.mp hr]
    exact ⟨_, List.mem_singleton_self _, hunder⟩

/-- What is still at fault when more is accepted was at fault before. -/
theorem filter_not_sublist {α : Type} {p q : α → Bool} (hpq : ∀ a, p a = true → q a = true)
    (as : List α) : (as.filter fun a => !q a).Sublist (as.filter fun a => !p a) := by
  refine List.monotone_filter_right as fun a hq => ?_
  cases hp : p a with
  | false => rfl
  | true =>
    rw [hpq a hp] at hq
    cases hq

section Compared

variable {f g : TypeRef → Bool} (hfg : ∀ t, f t = true → g t = true) {options : RuleOptions}
include hfg

theorem exempt_mono {ancestor : Option TypeRef} (h : exempt f ancestor = true) :
    exempt g ancestor = true := by
  rw [exempt_eq_true_iff] at h ⊢
  exact h.imp fun t u _ _ hu => hfg u hu

theorem isEmpty_constructorReasons_mono {k : ConstructorDecl}
    (h : (constructorReasons f k).isEmpty = true) : (constructorReasons g k).isEmpty = true := by
  rw [List.isEmpty_iff, constructorReasons_eq_nil_iff] at h ⊢
  exact h.imp fun t _ ht => hfg t ht

theorem isEmpty_propertyReasons_mono {p : PropertyDecl}
    (h : (propertyReasons options f p).isEmpty = true) :
    (propertyReasons options g p).isEmpty = true := by
  rw [List.isEmpty_iff, propertyReasons_eq_nil_iff] at h ⊢
  exact h.imp fun t _ ht => hfg t ht

theorem isEmpty_functionReasons_mono {m : FunctionDecl}
    (h : (functionReasons f m).isEmpty = true) : (functionReasons g m).isEmpty = true := by
  rw [List.isEmpty_iff, functionReasons_eq_nil_iff] at h ⊢
  exact h.imp fun t _ ht => hfg t ht

theorem ownProperties_sublist (c : ClassDecl) :
    (ownProperties g c).Sublist (ownProperties f c) :=
  filter_not_sublist (fun _ h => exempt_mono hfg h) _

theorem ownMethods_sublist (c : ClassDecl) : (ownMethods g c).Sublist (ownMethods f c) :=
  filter_not_sublist (fun _ h => exempt_mono hfg h) _

theorem overloadedNames_subset (c : ClassDecl) :
    overloadedNames (ownMethods g c) ⊆ overloadedNames (ownMethods f c) := by
  intro n hn
  have hsub := (ownMethods_sublist hfg c).map fun m => m.name.shortName
  simp only [overloadedNames, List.mem_filter, List.mem_eraseDups, decide_eq_true_eq] at hn ⊢
  exact ⟨hsub.subset hn.1, Nat.lt_of_lt_of_le hn.2 (hsub.count_le n)⟩

/-- **What a class is said to fail for when more is accepted, it fails for.**
Each of its failing steps fails then too, with no less at fault. -/
theorem dominated_classReasons (options : RuleOptions) (c : ClassDecl) :
    Dominated (classReasons options g c) (classReasons options f c) := by
  unfold classReasons
  split
  · exact Dominated.refl _
  refine (Dominated.refl _).append ?_
  unfold memberReasons
  -- step by step: what is at fault for `g` is, in order, among what is at fault for `f`
  have htypes := (filter_not_sublist hfg c.supertypes).map TypeRef.text
  have hctors := (filter_not_sublist (fun k => isEmpty_constructorReasons_mono (k := k) hfg)
    (publicConstructors c)).map (·.signature c.name)
  have hprops := ((filter_not_sublist (fun p => isEmpty_propertyReasons_mono (p := p) hfg)
    (ownProperties g c)).trans ((ownProperties_sublist hfg c).filter
      fun p => !(propertyReasons options f p).isEmpty)).map PropertyDecl.signature
  have hmethods := ((filter_not_sublist (fun m => isEmpty_functionReasons_mono (m := m) hfg)
    (ownMethods g c)).trans ((ownMethods_sublist hfg c).filter
      fun m => !(functionReasons f m).isEmpty)).map FunctionDecl.signature
  exact (dominated_offence htypes.subset (.supertypes htypes)).append <|
    (dominated_offence hctors.subset (.constructors hctors)).append <|
    (dominated_offence hprops.subset (.properties hprops)).append <|
    (dominated_offence hmethods.subset (.methods hmethods)).append <|
    dominated_offence (overloadedNames_subset hfg c)
      (.overloadedMethods (overloadedNames_subset hfg c))

end Compared

theorem firstOf_eq_rejected_iff {reasons : List Rejection} {reason : Rejection} :
    firstOf reasons = .rejected reason ↔ reasons.head? = some reason := by
  cases reasons with
  | nil => simp [firstOf, Verdict.ofRejection?]
  | cons r rs => simp [firstOf, Verdict.ofRejection?]

end Rule

/-! ## Reasons of a report -/

/-- What the reason for rejecting a class says about it. -/
structure ClassReason (e : Evaluator) (c : ClassDecl) (reason : Rejection) : Prop where
  /-- It is the first failing step, with subjects assumed that lie on reference
  cycles with the class, the class itself among them if it lies on one. -/
  judged : ∃ A : Set Subject,
    (∀ z ∈ A, Evaluator.Leads e (.ofClass c) z ∧ Evaluator.Leads e z (.ofClass c)) ∧
      (Evaluator.Leads e (.ofClass c) (.ofClass c) → Subject.ofClass c ∈ A) ∧
      (Rule.classReasons e.options (Evaluator.accepting (Evaluator.surfaceGiven e A)) c).head?
        = some reason
  /-- All it lists is at fault in that step on the surface. -/
  genuine : ∃ r ∈ Rule.classReasons e.options (Evaluator.accepting (Evaluator.surface e)) c,
    reason.Under r
  /-- Off reference cycles it is the first failing step on the surface. -/
  exact : ¬ Evaluator.Leads e (.ofClass c) (.ofClass c) →
    (Rule.classReasons e.options (Evaluator.accepting (Evaluator.surface e)) c).head? = some reason

/-- What the reason for rejecting a candidate says about it. -/
def Candidate.Explained (e : Evaluator) : Candidate → Rejection → Prop
  | .ofClass c, reason => ClassReason e c reason
  | .ofFunction f, reason =>
    (Rule.functionReasons (Evaluator.accepting (Evaluator.surface e)) f).head? = some reason
  | .ofProperty p, reason =>
    (Rule.propertyReasons e.options (Evaluator.accepting (Evaluator.surface e)) p).head?
      = some reason

theorem classReason_of_judgedOnCycle {e : Evaluator} {c : ClassDecl} {reason : Rejection}
    (h : Evaluator.JudgedOnCycle e c (.rejected reason)) : ClassReason e c reason := by
  obtain ⟨A, hA, hself, hv⟩ := h
  have hhead := Rule.firstOf_eq_rejected_iff.mp hv.symm
  refine ⟨⟨A, hA, hself, hhead⟩, ?_, fun hoff => ?_⟩
  · have hmono : ∀ t, Evaluator.accepting (Evaluator.surface e) t = true →
        Evaluator.accepting (Evaluator.surfaceGiven e A) t = true := by
      intro t ht
      rw [Evaluator.accepting_eq_true_iff] at ht ⊢
      exact Evaluator.surface_subset_surfaceGiven ht
    exact Rule.dominated_classReasons hmono e.options c reason (List.mem_of_mem_head? hhead)
  · -- a subject assumed would close a cycle through the class
    have hempty : A = ∅ := Set.eq_empty_of_forall_notMem fun z hz =>
      hoff ((hA z hz).1.trans (hA z hz).2)
    rwa [hempty, Evaluator.surfaceGiven_empty] at hhead

theorem Candidate.explained_of_judged {e : Evaluator} {c : Candidate} {reason : Rejection}
    (h : c.Judged e (.rejected reason)) : c.Explained e reason := by
  cases c with
  | ofClass c => exact classReason_of_judgedOnCycle h
  | ofFunction f => exact Rule.firstOf_eq_rejected_iff.mp h.symm
  | ofProperty p => exact Rule.firstOf_eq_rejected_iff.mp h.symm

namespace Pass

/-- Whether a candidate comes before the evaluator and is not accepted on the
surface. -/
structure Rejects (p : Pass) (e : Evaluator) (c : Candidate) : Prop where
  isExported : c.isExported = false
  selects : p.filter.selects c.name.text = true
  gate : c.gate = none
  notAccepted : ¬ c.question.Accepted e

variable {p : Pass} {e : Evaluator}

theorem ruled_rejected {r : Ruling} (h : Ruled p e r.candidate r.decision) :
    (Rejects p e r.candidate ∧ ∃ reason, r.rejected? =
      some ⟨r.candidate.name.text, r.candidate.kindText, reason⟩ ∧ r.candidate.Explained e reason)
    ∨ (¬ Rejects p e r.candidate ∧ r.rejected? = none) := by
  obtain ⟨path, c, d⟩ := r
  change Ruled p e c d at h
  cases h with
  | alreadyExported hmarked =>
    refine Or.inr ⟨fun hr => ?_, rfl⟩
    have : c.isExported = false := hr.isExported
    rw [hmarked] at this
    cases this
  | filtered _ hfilter =>
    refine Or.inr ⟨fun hr => ?_, rfl⟩
    have : p.filter.selects c.name.text = true := hr.selects
    rw [hfilter] at this
    cases this
  | gated _ _ hgate =>
    refine Or.inr ⟨fun hr => ?_, rfl⟩
    have : c.gate = none := hr.gate
    rw [hgate] at this
    cases this
  | @judged v hmarked hfilter hgate hv hjudged =>
    cases v with
    | exportable => exact Or.inr ⟨fun hr => hr.notAccepted (hv.mp rfl), rfl⟩
    | rejected reason =>
      refine Or.inl ⟨⟨hmarked, hfilter, hgate, fun hacc => ?_⟩, reason, rfl,
        Candidate.explained_of_judged hjudged⟩
      cases hv.mpr hacc

open Classical in
theorem forall₂_rejected {rs : List Ruling}
    (h : ∀ r ∈ rs, Ruled p e r.candidate r.decision) :
    List.Forall₂ (fun c (x : Excluded Rejection) =>
        x.name = c.name.text ∧ x.kind = c.kindText ∧ c.Explained e x.reason)
      ((rs.map Ruling.candidate).filter fun c => Rejects p e c)
      (rs.filterMap Ruling.rejected?) := by
  induction rs with
  | nil => exact .nil
  | cons r rs ih =>
    have hrest := ih fun r' hr' => h r' (List.mem_cons_of_mem r hr')
    rcases ruled_rejected (h r List.mem_cons_self) with ⟨hr, reason, hsome, hexp⟩ | ⟨hr, hnone⟩
    · rw [List.map_cons, List.filter_cons_of_pos (by simpa using hr),
        List.filterMap_cons_some hsome]
      exact .cons ⟨rfl, rfl, hexp⟩ hrest
    · rw [List.map_cons, List.filter_cons_of_neg (by simpa using hr),
        List.filterMap_cons_none hnone]
      exact hrest

/-! ## The report -/

open Classical in
/-- **A pass gives a reason for each rejection.** Over a regular module a pass
succeeds, and the rejections of its report are those of the candidates, in the
order of the walk, that get past the filter and the gate and are not accepted
on the surface, each with the first failing step of a function or a property,
or with a reason for a class that is exact off reference cycles. -/
theorem run_rejected (p : Pass) (m : SourceModule) (h : m.Regular) :
    ∃ report, (p.run m).report = .ok report ∧
      List.Forall₂ (fun c (x : Excluded Rejection) => x.name = c.name.text ∧
          x.kind = c.kindText ∧ c.Explained (.ofModule m p.options) x.reason)
        ((m.candidates.map Prod.snd).filter fun c => Rejects p (.ofModule m p.options) c)
        report.rejected := by
  obtain ⟨rs, s', hdecides, hruled⟩ := exists_decides p h
  refine ⟨{ reportAll { moduleName := m.name } rs with memo := s'.memo.stats }, ?_, ?_⟩
  · rw [run_of_decides hdecides]
  · have hcandidates : m.candidates.map Prod.snd = rs.map Ruling.candidate := by
      rw [← hdecides.candidates, List.map_map]
      rfl
    rw [reportAll_eq, hcandidates]
    exact forall₂_rejected hruled

/-! ## Classes on reference cycles -/

/-- A property that cannot be exported. -/
def longProperty (name : String) : PropertyDecl where
  name := ⟨name⟩
  backingField := some (.plain "kotlin.Long")

/-- A class that holds itself, and a property that cannot be exported. -/
def selfTyped : ClassDecl where
  name := ⟨"test.A"⟩
  members :=
    [.property { name := ⟨"test.A.me"⟩, backingField := some (.plain "test.A") },
      .property (longProperty "test.A.bad")]

/-- A class with a supertype, and a property that cannot be exported. -/
def derived : ClassDecl where
  name := ⟨"test.A"⟩
  supertypes := [.plain "test.B"]
  members := [.property (longProperty "test.A.bad")]

/-- The supertype, that holds the class, and a property that cannot be exported. -/
def base : ClassDecl where
  name := ⟨"test.B"⟩
  members :=
    [.property { name := ⟨"test.B.a"⟩, backingField := some (.plain "test.A") },
      .property (longProperty "test.B.bad")]

/-- A module of one file. -/
def moduleOf (ds : List Declaration) : SourceModule where
  name := "test"
  files := [{ path := "A.kt", declarations := ds }]

/-- The module of the class that holds itself. -/
def selfTypedOnly : SourceModule := moduleOf [selfTyped.toDeclaration]

/-- The module with the supertype first. -/
def baseFirst : SourceModule := moduleOf [base.toDeclaration, derived.toDeclaration]

/-- The module with the supertype last. -/
def baseLast : SourceModule := moduleOf [derived.toDeclaration, base.toDeclaration]

theorem regular_selfTypedOnly : selfTypedOnly.Regular := by
  have hclasses : selfTypedOnly.allClasses = [selfTyped] := rfl
  have hcandidates : selfTypedOnly.candidates = [(⟨0, [0]⟩, .ofClass selfTyped)] := rfl
  have hmentioned : selfTypedOnly.mentioned = [.plain "test.A", .plain "kotlin.Long",
      .plain "test.A", .plain "kotlin.Long"] := rfl
  refine SourceModule.regular_of_plain (by decide) ?_ ?_ ?_
  · rw [hclasses]
    decide
  · simp [hcandidates]
  · simp [hmentioned]

theorem regular_baseFirst : baseFirst.Regular := by
  have hclasses : baseFirst.allClasses = [base, derived] := rfl
  have hcandidates : baseFirst.candidates
      = [(⟨0, [0]⟩, .ofClass base), (⟨0, [1]⟩, .ofClass derived)] := rfl
  have hmentioned : baseFirst.mentioned = [.plain "test.A", .plain "kotlin.Long",
      .plain "test.B", .plain "kotlin.Long", .plain "test.A", .plain "kotlin.Long",
      .plain "test.B", .plain "kotlin.Long"] := rfl
  refine SourceModule.regular_of_plain (by decide) ?_ ?_ ?_
  · rw [hclasses]
    decide
  · simp [hcandidates]
  · simp [hmentioned]

theorem regular_baseLast : baseLast.Regular := by
  have hclasses : baseLast.allClasses = [derived, base] := rfl
  have hcandidates : baseLast.candidates
      = [(⟨0, [0]⟩, .ofClass derived), (⟨0, [1]⟩, .ofClass base)] := rfl
  have hmentioned : baseLast.mentioned = [.plain "test.B", .plain "kotlin.Long",
      .plain "test.A", .plain "kotlin.Long", .plain "test.B", .plain "kotlin.Long",
      .plain "test.A", .plain "kotlin.Long"] := rfl
  refine SourceModule.regular_of_plain (by decide) ?_ ?_ ?_
  · rw [hclasses]
    decide
  · simp [hcandidates]
  · simp [hmentioned]

section OffSurface

open Evaluator

variable {e : Evaluator} {c : ClassDecl} {name : String}
  (hbuiltin : Builtin.ofType? (.plain name) = none)

include hbuiltin

theorem not_mem_surface_of_unknown (hc : e.classNamed? ⟨name⟩ = none) :
    Subject.ofType (.plain name) ∉ surface e := by
  intro h
  obtain ⟨-, hadmitted | ⟨-, d, hd, -⟩⟩ := mem_surface_iff.mp h
  · have hsome : (Builtin.ofType? (.plain name)).isSome = true := hadmitted.builtin
    rw [hbuiltin] at hsome
    cases hsome
  · cases hc.symm.trans hd

theorem not_mem_surface_of_class (hc : e.classNamed? ⟨name⟩ = some c)
    (hmarked : c.isExported = false) (hclass : Subject.ofClass c ∉ surface e) :
    Subject.ofType (.plain name) ∉ surface e := by
  intro h
  obtain ⟨-, hadmitted | ⟨-, d, hd, hmember⟩⟩ := mem_surface_iff.mp h
  · have hsome : (Builtin.ofType? (.plain name)).isSome = true := hadmitted.builtin
    rw [hbuiltin] at hsome
    cases hsome
  · obtain rfl : c = d := Option.some.inj (hc.symm.trans hd)
    rcases hmember with hexported | hin
    · cases hmarked.symm.trans hexported
    · exact hclass hin

omit hbuiltin

/-- A class with a property that cannot be exported is off the surface. -/
theorem not_mem_surface_of_longProperty (hoptions : e.options.checkPropertyTypes = true)
    (hlong : e.classNamed? ⟨"kotlin.Long"⟩ = none) (hmarked : c.isExported = false)
    (hbad : longProperty name ∈ c.properties) : Subject.ofClass c ∉ surface e := by
  intro h
  rcases mem_surface_iff.mp h with hexported | hadmitted
  · cases hmarked.symm.trans hexported
  · rcases hadmitted.properties _ hbad rfl with ⟨t, ht, -⟩ | hproperty
    · cases ht
    · exact not_mem_surface_of_unknown rfl hlong (hproperty.value hoptions _ rfl)

end OffSurface

/-- Where a class that holds itself is not accepted, its property of its own
type is at fault too. -/
theorem head?_classReasons_selfTyped {accept : TypeRef → Bool}
    (hself : accept (.plain "test.A") = false) (hlong : accept (.plain "kotlin.Long") = false) :
    (Rule.classReasons {} accept selfTyped).head?
      = some (.properties ["test.A::me: test.A", "test.A::bad: kotlin.Long"]) := by
  have hown : Rule.ownProperties accept selfTyped
      = [{ name := ⟨"test.A.me"⟩, backingField := some (.plain "test.A") },
        longProperty "test.A.bad"] := rfl
  have hproperties : (Rule.ownProperties accept selfTyped).filter
      (fun p => !(Rule.propertyReasons {} accept p).isEmpty)
      = [{ name := ⟨"test.A.me"⟩, backingField := some (.plain "test.A") },
        longProperty "test.A.bad"] := by
    rw [hown]
    simp [Rule.propertyReasons, Rule.refusal, PropertyDecl.valueType?, longProperty, hself, hlong]
  have hgate : Rule.classGate selfTyped.toClassHeader = none := rfl
  have hmarked : selfTyped.isExported = false := rfl
  rw [Rule.classReasons, hmarked, hgate, Rule.memberReasons, hproperties]
  rfl

/-- Where its supertype is not accepted, a class fails for it first. -/
theorem head?_classReasons_derived {accept : TypeRef → Bool}
    (hbase : accept (.plain "test.B") = false) :
    (Rule.classReasons {} accept derived).head? = some (.supertypes ["test.B"]) := by
  have hsupertypes : derived.supertypes.filter (fun t => !accept t) = [.plain "test.B"] := by
    simp [derived, hbase]
  have hgate : Rule.classGate derived.toClassHeader = none := rfl
  have hmarked : derived.isExported = false := rfl
  rw [Rule.classReasons, hmarked, hgate, Rule.memberReasons, hsupertypes]
  rfl

open Classical in
/-- The reasons for a class and a supertype that holds it. -/
theorem run_rejected_baseFirst :
    baseFirst.Regular ∧ ∃ report, (({} : Pass).run baseFirst).report = .ok report ∧
      List.Forall₂ (fun c (x : Excluded Rejection) => x.name = c.name.text ∧
          x.kind = c.kindText ∧ c.Explained (.ofModule baseFirst {}) x.reason)
        ((baseFirst.candidates.map Prod.snd).filter fun c => Rejects {} (.ofModule baseFirst {}) c)
        report.rejected :=
  ⟨regular_baseFirst, run_rejected {} baseFirst regular_baseFirst⟩

open Evaluator in
/-- **On a reference cycle the reason need not be exact.** A class that holds
itself does not count among its own properties at fault, since it is in flight
while they are looked at. With a supertype that holds the class, the pass names
the supertype if it comes last, and passes over it if it comes first and is in
flight then. -/
theorem rejection_not_exact :
    (selfTypedOnly.Regular ∧
      (({} : Pass).run selfTypedOnly).report.toOption.bind (·.rejectionOf? "test.A")
        = some (.properties ["test.A::bad: kotlin.Long"]) ∧
      (Rule.classReasons {} (accepting (surface (.ofModule selfTypedOnly {}))) selfTyped).head?
        = some (.properties ["test.A::me: test.A", "test.A::bad: kotlin.Long"])) ∧
    (baseFirst.Regular ∧ baseLast.Regular ∧
      (({} : Pass).run baseFirst).report.toOption.bind (·.rejectionOf? "test.A")
        = some (.properties ["test.A::bad: kotlin.Long"]) ∧
      (({} : Pass).run baseLast).report.toOption.bind (·.rejectionOf? "test.A")
        = some (.supertypes ["test.B"]) ∧
      (Rule.classReasons {} (accepting (surface (.ofModule baseFirst {}))) derived).head?
        = some (.supertypes ["test.B"])) := by
  refine ⟨⟨regular_selfTypedOnly, by decide +kernel, ?_⟩, regular_baseFirst, regular_baseLast,
    by decide +kernel, by decide +kernel, ?_⟩
  · have hclass : Subject.ofClass selfTyped ∉ surface (.ofModule selfTypedOnly {}) :=
      not_mem_surface_of_longProperty rfl rfl rfl (List.mem_cons_of_mem _ List.mem_cons_self)
    refine head?_classReasons_selfTyped ?_ ?_
    · exact accepting_eq_false_iff.mpr (not_mem_surface_of_class rfl rfl rfl hclass)
    · exact accepting_eq_false_iff.mpr (not_mem_surface_of_unknown rfl rfl)
  · have hclass : Subject.ofClass base ∉ surface (.ofModule baseFirst {}) :=
      not_mem_surface_of_longProperty rfl rfl rfl (List.mem_cons_of_mem _ List.mem_cons_self)
    refine head?_classReasons_derived ?_
    exact accepting_eq_false_iff.mpr (not_mem_surface_of_class rfl rfl rfl hclass)

end Pass

end ExportSurface
