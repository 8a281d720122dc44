import ExportSurface.Proofs.Erasure
import ExportSurface.Proofs.ParallelRuns
/-!
# Nullability and decisions

Modules of one erasure differ in the nullable marks of their types alone. The rules
ask about types of one erasure there, in the same order, and go on alike from either
answer, so rules of one erasure are paired (`Inquiry.Paired.ofClass` and its
companions) and passes over such modules run in parallel
(`Pass.run_of_erased_eq`). What they reject they reject for the same kind of reason
with as many items at fault (`Rejection.outline`); only the rendered texts, which
mark nullability, may differ.
-/

namespace ExportSurface

/-! ## Reasons in outline -/

/-- As many texts, all of them blank. -/
def blanked (items : List String) : List String := List.replicate items.length ""

/-- A reason without the types, signatures and parameters that it renders. How many
of them there are stays, and so do names. -/
def Rejection.outline : Rejection → Rejection
  | .platform flag => .platform flag
  | .notPublic visibility => .notPublic visibility
  | .supertypes types => .supertypes (blanked types)
  | .constructors signatures => .constructors (blanked signatures)
  | .properties signatures => .properties (blanked signatures)
  | .methods signatures => .methods (blanked signatures)
  | .overloadedMethods names => .overloadedMethods names
  | .returnType _ => .returnType ""
  | .dispatchReceiver _ => .dispatchReceiver ""
  | .extensionReceiver _ => .extensionReceiver ""
  | .parameters ps => .parameters (blanked ps)
  | .propertyType _ => .propertyType ""

/-- Reasons of one kind with as many items at fault. -/
def Rejection.SameOutline (r r' : Rejection) : Prop := r.outline = r'.outline

/-- Verdicts alike up to the rendered texts. -/
abbrev Verdict.SameOutline : Verdict → Verdict → Prop := Verdict.Paired Rejection.SameOutline

theorem Verdict.SameOutline.refl (v : Verdict) : v.SameOutline v :=
  Verdict.Paired.refl (R := Rejection.SameOutline) (fun _ => rfl) v

theorem blanked_eq {α β : Type} {S : α → β → Prop} {as : List α} {bs : List β}
    (h : List.Forall₂ S as bs) (f : α → String) (g : β → String) :
    blanked (as.map f) = blanked (bs.map g) := by
  rw [blanked, blanked, List.length_map, List.length_map, h.length_eq]

/-! ## Rules of one erasure -/

namespace PropertyDecl

variable {p q : PropertyDecl}

theorem valueType?_erased (p : PropertyDecl) :
    p.erased.valueType? = p.valueType?.map TypeRef.erased := by
  obtain ⟨_, _, _, _, _, getter, _, _⟩ := p
  cases getter <;> rfl

/-- Properties of one erasure have value types of one erasure, or none. -/
theorem map_valueType?_eq (h : p.erased = q.erased) :
    p.valueType?.map TypeRef.erased = q.valueType?.map TypeRef.erased := by
  rw [← valueType?_erased, h, valueType?_erased]

end PropertyDecl

section Members

variable {c c' : ClassDecl} (h : c.erased = c'.erased)
include h

theorem map_constructors_eq :
    c.constructors.map ConstructorDecl.erased = c'.constructors.map ConstructorDecl.erased := by
  rw [← c.constructors_erased, h, c'.constructors_erased]

theorem map_properties_eq :
    c.properties.map PropertyDecl.erased = c'.properties.map PropertyDecl.erased := by
  rw [← c.properties_erased, h, c'.properties_erased]

theorem map_methods_eq :
    c.methods.map FunctionDecl.erased = c'.methods.map FunctionDecl.erased := by
  rw [← c.methods_erased, h, c'.methods_erased]

end Members

/-- The public ones among members of one erasure. -/
theorem forall₂_public {α : Type} {erase : α → α} {as bs : List α} (visibility : α → Visibility)
    (h : as.map erase = bs.map erase) (hvisibility : ∀ a, visibility (erase a) = visibility a) :
    List.Forall₂ (fun a b => erase a = erase b) (as.filter fun a => Rule.isPublic (visibility a))
      (bs.filter fun b => Rule.isPublic (visibility b)) := by
  refine List.rel_filter (fun a b hab => ?_) (map_eq_map_iff_forall₂.mp h)
  have hsame : visibility a = visibility b := by rw [← hvisibility a, hab, hvisibility b]
  simp only [hsame]

/-- Names are not erased, so as many methods share them. -/
theorem overloadedNames_eq {fs gs : List FunctionDecl}
    (h : List.Forall₂ (fun f g => f.erased = g.erased) fs gs) :
    Rule.overloadedNames fs = Rule.overloadedNames gs := by
  have hnames : fs.map (·.name.shortName) = gs.map (·.name.shortName) :=
    map_eq_map_iff_forall₂.mpr <|
      h.imp fun _ _ hfg => (congrArg (fun f : FunctionDecl => f.name.shortName) hfg :)
  simp only [Rule.overloadedNames, hnames]

namespace Inquiry.Paired

section Lists

variable {α β : Type} {S : α → β → Prop} {as : List α} {bs : List β}
  {exempt accept : α → Inquiry Bool} {exempt' accept' : β → Inquiry Bool}

theorem refused (haccept : ∀ a b, S a b → (accept a).Paired Eq (accept' b))
    (h : List.Forall₂ S as bs) :
    (Rule.refused accept as).Paired (List.Forall₂ S) (Rule.refused accept' bs) := by
  induction h with
  | nil => exact .done .nil
  | cons hab _ ih =>
    refine (haccept _ _ hab).bind ?_
    rintro ok _ rfl
    refine ih.bind fun rest rest' hrest => .done ?_
    cases ok with
    | true => exact hrest
    | false => exact .cons hab hrest

theorem sift (hexempt : ∀ a b, S a b → (exempt a).Paired Eq (exempt' b))
    (haccept : ∀ a b, S a b → (accept a).Paired Eq (accept' b)) (h : List.Forall₂ S as bs) :
    (Rule.sift exempt accept as).Paired
      (fun x y => List.Forall₂ S x.1 y.1 ∧ List.Forall₂ S x.2 y.2)
      (Rule.sift exempt' accept' bs) := by
  induction h with
  | nil => exact .done ⟨.nil, .nil⟩
  | cons hab _ ih =>
    refine (hexempt _ _ hab).bind ?_
    rintro isExempt _ rfl
    cases isExempt with
    | true => exact ih
    | false =>
      refine (haccept _ _ hab).bind ?_
      rintro ok _ rfl
      refine ih.bind fun x y hxy => .done ⟨.cons hab hxy.1, ?_⟩
      cases ok with
      | true => exact hxy.2
      | false => exact .cons hab hxy.2

/-- A step at whose end nothing is at fault, or as much on either side. -/
theorem unlessOffending {reason : List String → Rejection} {next next' : Inquiry Verdict}
    (hreason : ∀ texts texts' : List String, blanked texts = blanked texts' →
      (reason texts).SameOutline (reason texts'))
    (h : List.Forall₂ S as bs) (f : α → String) (g : β → String)
    (hnext : next.Paired Verdict.SameOutline next') :
    (Rule.unlessOffending reason (as.map f) next).Paired Verdict.SameOutline
      (Rule.unlessOffending reason (bs.map g) next') := by
  have hblanked := blanked_eq h f g
  cases h with
  | nil => exact hnext
  | cons _ _ => exact .done (.rejected (hreason _ _ hblanked))

end Lists

section Types

variable {t u : Option TypeRef} {reason : String → Rejection} {next next' : Inquiry Verdict}

theorem unlessRefused (hreason : ∀ text text', (reason text).SameOutline (reason text'))
    (h : t.map TypeRef.erased = u.map TypeRef.erased)
    (hnext : next.Paired Verdict.SameOutline next') :
    (Rule.unlessRefused Inquiry.put reason t next).Paired Verdict.SameOutline
      (Rule.unlessRefused Inquiry.put reason u next') := by
  cases t with
  | none =>
    cases u with
    | none => exact hnext
    | some u => cases h
  | some t =>
    cases u with
    | none => cases h
    | some u =>
      refine (put (Option.some.inj h)).bind ?_
      rintro ok _ rfl
      cases ok with
      | true => exact hnext
      | false => exact .done (.rejected (hreason _ _))

theorem inheritedFromBuiltin (h : t.map TypeRef.erased = u.map TypeRef.erased) :
    (Rule.inheritedFromBuiltin Inquiry.put t).Paired Eq
      (Rule.inheritedFromBuiltin Inquiry.put u) := by
  cases t with
  | none =>
    cases u with
    | none => exact .done rfl
    | some u => cases h
  | some t =>
    cases u with
    | none => cases h
    | some u => exact accepts (Option.some.inj h)

end Types

theorem receiversAndParameters {dispatch dispatch' extension extension' : Option TypeRef}
    {ps ps' : List ValueParameter}
    (hdispatch : dispatch.map TypeRef.erased = dispatch'.map TypeRef.erased)
    (hextension : extension.map TypeRef.erased = extension'.map TypeRef.erased)
    (hps : ps.map ValueParameter.erased = ps'.map ValueParameter.erased) :
    (Rule.receiversAndParameters Inquiry.put dispatch extension ps).Paired Verdict.SameOutline
      (Rule.receiversAndParameters Inquiry.put dispatch' extension' ps') := by
  refine unlessRefused (fun _ _ => rfl) hdispatch (unlessRefused (fun _ _ => rfl) hextension ?_)
  have hask : ∀ x y : ValueParameter, x.erased = y.erased →
      (Inquiry.put x.type).Paired Eq (Inquiry.put y.type) :=
    fun _ _ hxy => put (congrArg ValueParameter.type hxy :)
  refine (refused hask (map_eq_map_iff_forall₂.mp hps)).bind fun offending offending' h => .done ?_
  have hblanked := blanked_eq h Rule.parameterText Rule.parameterText
  cases h with
  | nil => exact .exportable
  | cons _ _ => exact .rejected (congrArg Rejection.parameters hblanked)

theorem ofFunction {f g : FunctionDecl} (h : f.erased = g.erased) :
    (Rule.ofFunction Inquiry.put f).Paired Verdict.SameOutline (Rule.ofFunction Inquiry.put g) := by
  have hgate : Rule.callableGate f.visibility f.modifiers
      = Rule.callableGate g.visibility g.modifiers :=
    (congrArg (fun f => Rule.callableGate f.visibility f.modifiers) h :)
  unfold Rule.ofFunction
  rw [hgate]
  split
  · exact .done (.refl _)
  · refine unlessRefused (fun _ _ => rfl) (congrArg (fun f => some f.returnType) h :) ?_
    exact receiversAndParameters (congrArg FunctionDecl.dispatchReceiver h :)
      (congrArg FunctionDecl.extensionReceiver h :) (congrArg FunctionDecl.parameters h :)

theorem ofConstructor {c k : ConstructorDecl} (h : c.erased = k.erased) :
    (Rule.ofConstructor Inquiry.put c).Paired Verdict.SameOutline
      (Rule.ofConstructor Inquiry.put k) := by
  have hgate : Rule.callableGate c.visibility c.modifiers
      = Rule.callableGate k.visibility k.modifiers :=
    (congrArg (fun c => Rule.callableGate c.visibility c.modifiers) h :)
  unfold Rule.ofConstructor
  rw [hgate]
  split
  · exact .done (.refl _)
  · exact receiversAndParameters (congrArg ConstructorDecl.dispatchReceiver h :) rfl
      (congrArg ConstructorDecl.parameters h :)

theorem getterReceivers {g k : Option Getter} {next next' : Inquiry Verdict}
    (h : g.map Getter.erased = k.map Getter.erased)
    (hnext : next.Paired Verdict.SameOutline next') :
    (Rule.getterReceivers Inquiry.put g next).Paired Verdict.SameOutline
      (Rule.getterReceivers Inquiry.put k next') := by
  cases g with
  | none =>
    cases k with
    | none => exact hnext
    | some k => cases h
  | some g =>
    cases k with
    | none => cases h
    | some k =>
      have hgetter : g.erased = k.erased := Option.some.inj h
      exact unlessRefused (fun _ _ => rfl) (congrArg Getter.dispatchReceiver hgetter :)
        (unlessRefused (fun _ _ => rfl) (congrArg Getter.extensionReceiver hgetter :) hnext)

/-- Properties of one erasure fail alike: they have one name, and both a type or
neither. -/
theorem ofProperty (options : RuleOptions) {p q : PropertyDecl} (h : p.erased = q.erased) :
    (Rule.ofProperty options Inquiry.put p).Paired Verdict.SameOutline
      (Rule.ofProperty options Inquiry.put q) := by
  have hmodifiers : p.modifiers = q.modifiers := (congrArg PropertyDecl.modifiers h :)
  have hname : p.name = q.name := (congrArg PropertyDecl.name h :)
  have htype := PropertyDecl.map_valueType?_eq h
  unfold Rule.ofProperty PropertyDecl.valueType
  rw [hmodifiers, hname]
  split
  · exact .done (.refl _)
  split
  · exact .done (.refl _)
  refine getterReceivers (congrArg PropertyDecl.getter h :) ?_
  cases hp : p.valueType? with
  | none =>
    cases hq : q.valueType? with
    | none => exact .fail _
    | some u => simp [hp, hq] at htype
  | some t =>
    cases hq : q.valueType? with
    | none => simp [hp, hq] at htype
    | some u =>
      rw [hp, hq] at htype
      change Inquiry.Paired _ (if _ then _ else _) (if _ then _ else _)
      split
      · exact unlessRefused (fun _ _ => rfl) htype (.done .exportable)
      · exact .done .exportable

/-- **Rules of one erasure are paired.** -/
theorem ofClass (options : RuleOptions) {c c' : ClassDecl} (h : c.erased = c'.erased) :
    (Rule.ofClass options Inquiry.put c).Paired Verdict.SameOutline
      (Rule.ofClass options Inquiry.put c') := by
  have hexported : c.isExported = c'.isExported :=
    (congrArg (fun c => c.toClassHeader.isExported) h :)
  have hgate : Rule.classGate c.toClassHeader = Rule.classGate c'.toClassHeader :=
    (congrArg (fun c => Rule.classGate c.toClassHeader) h :)
  have hsupertypes : c.supertypes.map TypeRef.erased = c'.supertypes.map TypeRef.erased :=
    (congrArg (fun c => c.toClassHeader.supertypes) h :)
  have hconstructors :=
    forall₂_public ConstructorDecl.visibility (map_constructors_eq h) fun _ => rfl
  have hproperties := forall₂_public PropertyDecl.visibility (map_properties_eq h) fun _ => rfl
  have hmethods := forall₂_public FunctionDecl.visibility (map_methods_eq h) fun _ => rfl
  unfold Rule.ofClass
  rw [hexported, hgate]
  split
  · exact .done .exportable
  split
  · exact .done (.refl _)
  refine (refused (S := fun t u => t.erased = u.erased) (fun _ _ => put)
    (map_eq_map_iff_forall₂.mp hsupertypes)).bind fun _ _ hts => ?_
  refine unlessOffending (fun _ _ => congrArg Rejection.supertypes) hts _ _ ?_
  refine (refused (fun _ _ hk => ?_) hconstructors).bind fun _ _ hks => ?_
  · exact (ofConstructor hk).map fun _ _ => Verdict.Paired.isExportable_eq
  refine unlessOffending (fun _ _ => congrArg Rejection.constructors) hks _ _ ?_
  refine (sift (fun _ _ hp => ?_) (fun _ _ hp => ?_) hproperties).bind fun _ _ hps => ?_
  · exact inheritedFromBuiltin (congrArg PropertyDecl.inheritedFrom hp :)
  · exact (ofProperty options hp).map fun _ _ => Verdict.Paired.isExportable_eq
  refine unlessOffending (fun _ _ => congrArg Rejection.properties) hps.2 _ _ ?_
  refine (sift (fun _ _ hf => ?_) (fun _ _ hf => ?_) hmethods).bind fun _ _ hfs => ?_
  · exact inheritedFromBuiltin (congrArg FunctionDecl.inheritedFrom hf :)
  · exact (ofFunction hf).map fun _ _ => Verdict.Paired.isExportable_eq
  refine unlessOffending (fun _ _ => congrArg Rejection.methods) hfs.2 _ _ (.done ?_)
  rw [overloadedNames_eq hfs.1]
  exact .refl _

end Inquiry.Paired

/-! ## Runs -/

namespace Candidate

variable {c c' : Candidate}

theorem name_erased (c : Candidate) : c.erased.name = c.name := by cases c <;> rfl

theorem kindText_erased (c : Candidate) : c.erased.kindText = c.kindText := by cases c <;> rfl

theorem isExported_erased (c : Candidate) : c.erased.isExported = c.isExported := by
  cases c <;> rfl

theorem gate_erased (c : Candidate) : c.erased.gate = c.gate := by cases c <;> rfl

end Candidate

namespace Evaluator

variable {e e' : Evaluator}

theorem twins_of_erased_eq {c c' : ClassDecl} (h : c.erased = c'.erased)
    (hoptions : e.options = e'.options) : Twins Rejection.SameOutline e e' c c' where
  name := (congrArg (fun c : ClassDecl => c.toClassHeader.name) h :)
  isExported := (congrArg (fun c : ClassDecl => c.toClassHeader.isExported) h :)
  rule := hoptions ▸ .ofClass e.options h

/-- The evaluators of modules of one erasure go in step. -/
theorem inStep_of_erased_eq {m m' : SourceModule} (h : m.erased = m'.erased)
    (options : RuleOptions) :
    InStep Rejection.SameOutline (.ofModule m options) (.ofModule m' options) := by
  have hclasses : m.allClasses.map ClassDecl.erased = m'.allClasses.map ClassDecl.erased := by
    rw [← m.allClasses_erased, h, m'.allClasses_erased]
  refine inStep_ofModule ((map_eq_map_iff_forall₂.mp hclasses).imp fun c c' hc => ?_)
  exact twins_of_erased_eq hc rfl

/-- Candidates of one erasure stand for one another. -/
theorem twins_of_candidate_erased_eq {c c' : Candidate} (he : InStep Rejection.SameOutline e e')
    (hoptions : e.options = e'.options) (h : c.erased = c'.erased) :
    c.Twins Rejection.SameOutline e e' c' where
  name := by rw [← c.name_erased, h, c'.name_erased]
  kindText := by rw [← c.kindText_erased, h, c'.kindText_erased]
  isExported := by rw [← c.isExported_erased, h, c'.isExported_erased]
  gate := by rw [← c.gate_erased, h, c'.gate_erased]
  verdict := by
    cases c with
    | ofClass c =>
      cases c' with
      | ofClass c' =>
        exact inStep_classVerdict he (twins_of_erased_eq (Candidate.ofClass.inj h) hoptions)
      | ofFunction => cases h
      | ofProperty => cases h
    | ofFunction f =>
      cases c' with
      | ofClass => cases h
      | ofFunction g =>
        exact inStep_functionVerdict he (.ofFunction (Candidate.ofFunction.inj h))
      | ofProperty => cases h
    | ofProperty p =>
      cases c' with
      | ofClass => cases h
      | ofFunction => cases h
      | ofProperty q =>
        exact inStep_propertyVerdict he
          (hoptions ▸ .ofProperty e.options (Candidate.ofProperty.inj h))

end Evaluator

/-- The candidates of modules of one erasure stand at the same places, and are of one
erasure themselves. -/
theorem SourceModule.forall₂_candidates_of_erased_eq {m m' : SourceModule}
    (h : m.erased = m'.erased) :
    List.Forall₂ (fun x y => x.1 = y.1 ∧ x.2.erased = y.2.erased) m.candidates m'.candidates := by
  have hcandidates : (m.candidates.map fun x => (x.1, x.2.erased))
      = m'.candidates.map fun x => (x.1, x.2.erased) := by
    rw [← m.candidates_erased, h, m'.candidates_erased]
  exact (map_eq_map_iff_forall₂.mp hcandidates).imp fun _ _ hxy => Prod.mk.inj hxy

namespace Pass

/-- **Nullability never affects a decision.** Passes over modules that differ in nullable
marks alone fail for the same property, or both come to the end: they mark at the same
places, and their reports agree in all but signatures and the texts of types, with as
much at fault in each rejection. -/
theorem run_of_erased_eq (p : Pass) {m m' : SourceModule} (h : m.erased = m'.erased) :
    (∃ failure, (p.run m).report = .error failure ∧ (p.run m').report = .error failure) ∨
      ∃ report report', (p.run m).report = .ok report ∧ (p.run m').report = .ok report' ∧
        report.Paired Rejection.SameOutline report' ∧
        (m.newlyMarked (p.run m).result).map Prod.fst
          = (m'.newlyMarked (p.run m').result).map Prod.fst := by
  have hname : m.name = m'.name := (congrArg SourceModule.name h :)
  have he := Evaluator.inStep_of_erased_eq h p.options
  have hK : ∀ x y : TreePath × Candidate, x.1 = y.1 ∧ x.2.erased = y.2.erased →
      x.2.Twins Rejection.SameOutline (.ofModule m p.options) (.ofModule m' p.options) y.2 :=
    fun _ _ hxy => Evaluator.twins_of_candidate_erased_eq he rfl hxy.2
  rcases run_in_step hK (SourceModule.forall₂_candidates_of_erased_eq h) with
    ⟨rs, rs', s, s', hdecides, hdecides', hrs, hs⟩ | ⟨rs, rs', failure, last, -, hrun, hrun'⟩
  · right
    have hstart : Report.Paired Rejection.SameOutline { moduleName := m.name }
        { moduleName := m'.name } := ⟨hname, rfl, rfl, .nil, rfl, rfl⟩
    have hplaces : (marking rs).map Ruling.path = (marking rs').map Ruling.path :=
      map_eq_map_iff_forall₂.mpr ((forall₂_marking hrs).imp fun _ _ hr => hr.candidates.1)
    rw [newlyMarked_of_decides hdecides, newlyMarked_of_decides hdecides', run_of_decides hdecides,
      run_of_decides hdecides', List.map_map, List.map_map]
    exact ⟨_, _, rfl, rfl,
      { paired_reportAll hK hrs hstart with memo := congrArg Memo.stats hs.memo }, hplaces⟩
  · exact Or.inl ⟨failure, by rw [hrun], by rw [hrun']⟩

/-- A class with an inherited method and a function that is rejected, all types of
which are marked nullable or not. -/
def boxes (nullable : Bool) : SourceModule where
  name := "boxes"
  files := [
    { path := "boxes.kt"
      package := "test"
      declarations := [
        .classDecl
          { name := ⟨"test.Box"⟩
            typeParameters := ["T"]
            supertypes := [.named ⟨"kotlin.Any"⟩ [] nullable] }
          [.function
            { name := ⟨"test.Box.all"⟩
              returnType := .named ⟨"kotlin.Array"⟩
                [.type (.parameter "T" [.named ⟨"test.Box"⟩ [] nullable] nullable)] nullable
              inheritedFrom := some (.named ⟨"test.Shelf"⟩ [] nullable) }],
        .function
          { name := ⟨"test.lost"⟩
            returnType := .plain "kotlin.Unit"
            parameters := [⟨"x", .named ⟨"test.Gone"⟩ [] nullable⟩] }] }]

theorem run_of_erased_eq_boxes :
    (boxes true).erased = (boxes false).erased ∧
      ((∃ failure, (Pass.run {} (boxes true)).report = .error failure ∧
          (Pass.run {} (boxes false)).report = .error failure) ∨
        ∃ report report', (Pass.run {} (boxes true)).report = .ok report ∧
          (Pass.run {} (boxes false)).report = .ok report' ∧
          report.Paired Rejection.SameOutline report' ∧
          ((boxes true).newlyMarked (Pass.run {} (boxes true)).result).map Prod.fst
            = ((boxes false).newlyMarked (Pass.run {} (boxes false)).result).map Prod.fst) :=
  ⟨rfl, run_of_erased_eq {} rfl⟩

end Pass

end ExportSurface
