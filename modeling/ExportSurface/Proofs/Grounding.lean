import ExportSurface.Proofs.Places
import ExportSurface.Proofs.SecondRun
/-!
# What marked declarations refer to

When a pass without a filter marks a declaration, the types that its rule
requires lie on the surface, and so do the classes these refer to, directly, as
the element of an array or as the bound of a type parameter. So each of those
classes is built in, is declared elsewhere, is marked when the pass is over, or
is one that the rules let through and the gate does not: the flags of an
enumeration count for the gate alone, and so does `suspend` on a class
(`Pass.run_grounded`). Such a class stays unmarked while what refers to it is
marked (`Pass.dangling_stub`).
-/

namespace ExportSurface

/-! ## References -/

/-- Whether a type refers to a class, looking through arrays and bounds. -/
inductive TypeRef.RefersTo : TypeRef → QualifiedName → Prop
  | named (name : QualifiedName) (args : List TypeArgument) (nullable : Bool) :
      RefersTo (.named name args nullable) name
  | element {t u : TypeRef} {name : QualifiedName} :
      t.element? = some u → RefersTo u name → RefersTo t name
  | bound {parameter : String} {bounds : List TypeRef} {nullable : Bool} {b : TypeRef}
      {name : QualifiedName} :
      b ∈ bounds → RefersTo b name → RefersTo (.parameter parameter bounds nullable) name

/-- The types of a function's signature. -/
def FunctionDecl.signatureTypes (f : FunctionDecl) : List TypeRef :=
  f.returnType :: f.dispatchReceiver.toList ++ f.extensionReceiver.toList
    ++ f.parameters.map (·.type)

/-- The types that the rule of properties requires: those of the getter's
receivers and, unless the options say otherwise, of the value. -/
def PropertyDecl.requiredTypes (options : RuleOptions) (p : PropertyDecl) : List TypeRef :=
  (p.getter.bind (·.dispatchReceiver)).toList ++ (p.getter.bind (·.extensionReceiver)).toList
    ++ if options.checkPropertyTypes then p.valueType?.toList else []

/-- Whether the rule of a candidate requires a type, exempt members apart. -/
inductive Candidate.Requires (options : RuleOptions) (X : TypeRef → Prop) :
    Candidate → TypeRef → Prop
  | supertype {c : ClassDecl} {t : TypeRef} : t ∈ c.supertypes → Requires options X (.ofClass c) t
  | constructor {c : ClassDecl} {k : ConstructorDecl} {t : TypeRef} : k ∈ c.constructors →
      k.visibility = .pub → t ∈ k.types → Requires options X (.ofClass c) t
  | property {c : ClassDecl} {p : PropertyDecl} {t : TypeRef} : p ∈ c.properties →
      p.visibility = .pub → ¬ Exempt X p.inheritedFrom → t ∈ p.requiredTypes options →
      Requires options X (.ofClass c) t
  | method {c : ClassDecl} {f : FunctionDecl} {t : TypeRef} : f ∈ c.methods →
      f.visibility = .pub → ¬ Exempt X f.inheritedFrom → t ∈ f.signatureTypes →
      Requires options X (.ofClass c) t
  | ofFunction {f : FunctionDecl} {t : TypeRef} : t ∈ f.signatureTypes →
      Requires options X (.ofFunction f) t
  | ofProperty {p : PropertyDecl} {t : TypeRef} : t ∈ p.requiredTypes options →
      Requires options X (.ofProperty p) t

section Admitted

variable {X : TypeRef → Prop} {t : TypeRef}

theorem SignatureAdmitted.accepted {dispatch extension : Option TypeRef}
    {parameters : List ValueParameter} (h : SignatureAdmitted X dispatch extension parameters)
    (ht : t ∈ dispatch.toList ++ extension.toList ++ parameters.map (·.type)) : X t := by
  rcases List.mem_append.mp ht with hreceiver | hparameter
  · rcases List.mem_append.mp hreceiver with hd | he
    · exact h.dispatch t (Option.mem_toList.mp hd)
    · exact h.extension t (Option.mem_toList.mp he)
  · obtain ⟨p, hp, rfl⟩ := List.mem_map.mp hparameter
    exact h.parameters p hp

theorem FunctionAdmitted.accepted {f : FunctionDecl} (h : FunctionAdmitted X f)
    (ht : t ∈ f.signatureTypes) : X t := by
  simp only [FunctionDecl.signatureTypes, List.cons_append, List.mem_cons] at ht
  rcases ht with rfl | hsignature
  · exact h.returned
  · exact h.signature.accepted hsignature

theorem ConstructorAdmitted.accepted {k : ConstructorDecl} (h : ConstructorAdmitted X k)
    (ht : t ∈ k.types) : X t :=
  h.signature.accepted (by simpa [ConstructorDecl.types] using ht)

theorem PropertyAdmitted.accepted {options : RuleOptions} {p : PropertyDecl}
    (h : PropertyAdmitted options X p) (ht : t ∈ p.requiredTypes options) : X t := by
  simp only [PropertyDecl.requiredTypes, List.mem_append, Option.mem_toList] at ht
  rcases ht with (hd | he) | hvalue
  · exact h.dispatch t hd
  · exact h.extension t he
  · cases hcheck : options.checkPropertyTypes with
    | true =>
      rw [hcheck, if_pos rfl, Option.mem_toList] at hvalue
      exact h.value hcheck t hvalue
    | false => simp [hcheck] at hvalue

end Admitted

namespace Evaluator

variable {e : Evaluator} {t : TypeRef} {name : QualifiedName}

/-- A class of the surface that is not marked meets the criterion on classes. -/
theorem classAdmitted_of_mem_surface {c : ClassDecl} (hc : Subject.ofClass c ∈ surface e)
    (hmarked : c.isExported = false) :
    ClassAdmitted e.options (fun u => Subject.ofType u ∈ surface e) c := by
  rcases mem_surface_iff.mp hc with hexported | hadmitted
  · rw [hmarked] at hexported
    cases hexported
  · exact hadmitted

/-- **What an accepted candidate requires lies on the surface**, if it was not
marked already. -/
theorem mem_surface_of_requires {c : Candidate} (hc : c.question.Accepted e)
    (hmarked : c.isExported = false)
    (h : c.Requires e.options (fun u => Subject.ofType u ∈ surface e) t) :
    Subject.ofType t ∈ surface e := by
  cases h with
  | supertype ht => exact (classAdmitted_of_mem_surface hc hmarked).supertypes t ht
  | constructor hk hv ht =>
    have hadmitted := (classAdmitted_of_mem_surface hc hmarked).constructors _ hk hv
    exact hadmitted.accepted ht
  | property hp hv hexempt ht =>
    have hadmitted := (classAdmitted_of_mem_surface hc hmarked).properties _ hp hv
    exact (hadmitted.resolve_left hexempt).accepted ht
  | method hf hv hexempt ht =>
    have hadmitted := (classAdmitted_of_mem_surface hc hmarked).methods _ hf hv
    exact (hadmitted.resolve_left hexempt).accepted ht
  | ofFunction ht => exact FunctionAdmitted.accepted hc ht
  | ofProperty ht => exact PropertyAdmitted.accepted hc ht

/-- **What a type of the surface refers to** is built in, or a known class that
is marked or on the surface. -/
theorem refersTo_of_mem_surface (h : t.RefersTo name) (ht : Subject.ofType t ∈ surface e) :
    (Builtin.table.lookup name.text).isSome ∨
      ∃ c, e.classNamed? name = some c ∧ (c.isExported = true ∨ Subject.ofClass c ∈ surface e) := by
  induction h with
  | named name args nullable =>
    obtain ⟨-, hbuiltin | ⟨-, hclass⟩⟩ := mem_surface_iff.mp ht
    · exact Or.inl hbuiltin.builtin
    · exact Or.inr hclass
  | @element t u name hu _ ih =>
    refine ih ?_
    cases t with
    | named name' args nullable =>
      obtain ⟨-, hbuiltin | ⟨hnone, -⟩⟩ := mem_surface_iff.mp ht
      · exact hbuiltin.element u hu
      · simp [TypeRef.element?, hnone] at hu
    | parameter => cases hu
    | dynamic => cases hu
  | bound hb _ ih => exact ih (mem_surface_iff.mp ht _ hb)

end Evaluator

/-! ## Marked declarations -/

namespace Pass

variable {p : Pass} {m : SourceModule} {name : QualifiedName} {c : ClassDecl}

/-- What may be said of a class of a name when a pass is over. -/
inductive Grounded (p : Pass) (m : SourceModule) (name : QualifiedName) : Prop
  | builtin : (Builtin.table.lookup name.text).isSome → Grounded p m name
  /-- The class is declared, but not in the module. -/
  | elsewhere : (∀ c ∈ m.ownClasses, c.name ≠ name) →
      (∃ c ∈ m.dependencies.flatMap fun d => d.toDeclaration.classes, c.name = name) →
      Grounded p m name
  | marked {c : ClassDecl} : (p.run m).result.classIndex.get? name = some c →
      c.isExported = true → Grounded p m name
  /-- The class would be marked, did the gate not stop it for a flag that the
  rules do not look at. -/
  | stopped {c : ClassDecl} {flag : PlatformFlag} : c ∈ m.ownClasses → c.name = name →
      Subject.ofClass c ∈ Evaluator.surface (.ofModule m p.options) →
      (Candidate.ofClass c).gate = some (.platform flag) →
      (c.kind = .enumClass ∨ flag = .suspend) → Grounded p m name

/-- A class that meets the criterion is stopped by the gate for the flags of an
enumeration or for `suspend` alone. -/
theorem gate_of_classAdmitted {options : RuleOptions} {X : TypeRef → Prop}
    (h : ClassAdmitted options X c) :
    (Candidate.ofClass c).gate = none ∨ ∃ flag,
      (Candidate.ofClass c).gate = some (.platform flag) ∧
        (c.kind = .enumClass ∨ flag = .suspend) := by
  have hgate : (Candidate.ofClass c).gate
      = (Candidate.flag? (.ofClass c)).map SkipReason.platform := by
    simp [Candidate.gate, Candidate.visibility, h.isPublic]
  cases hflag : Candidate.flag? (.ofClass c) with
  | none => exact Or.inl (by rw [hgate, hflag]; rfl)
  | some flag =>
    refine Or.inr ⟨flag, by rw [hgate, hflag]; rfl, h.unflagged.imp_right fun hunflagged => ?_⟩
    obtain ⟨hexpect, hexternal, hvalue, hinline, hannotation, hanonymous⟩ := hunflagged
    cases hsuspend : c.modifiers.suspend with
    | true =>
      simp [Candidate.flag?, Candidate.modifiers, hexpect, hexternal, hinline, hsuspend] at hflag
      exact hflag.symm
    | false =>
      simp [Candidate.flag?, Candidate.modifiers, Candidate.isAnnotationClass, hexpect, hexternal,
        hvalue, hinline, hsuspend, hannotation, hanonymous] at hflag

/-- A class of a module is found again when a pass is over, marked if it was
before or by the pass. -/
theorem exists_get?_classIndex_result (p : Pass) (h : m.Regular) (hc : c ∈ m.ownClasses) :
    ∃ c', (p.run m).result.classIndex.get? c.name = some c' ∧
      (c'.isExported = true ↔
        c.isExported = true ∨ Marks p (.ofModule m p.options) (.ofClass c)) := by
  obtain ⟨path, hpath⟩ := SourceModule.exists_mem_candidates_of_mem_ownClasses hc
  obtain ⟨-, -, -, hresult⟩ := result_of_regular p h
  let chosen := m.placesOf fun c => Marks p (.ofModule m p.options) c
  have hregular : (m.appendMarkers chosen).Regular :=
    h.appendMarkers fun path hp => (SourceModule.placesOf_eq_true_iff.mp hp).imp fun _ => And.left
  have hsettles := settles_of_mem_candidates (p := p) hpath
  -- the class at the same place afterwards
  let c' := c.appendWhere (SourceModule.within chosen path)
  have hc' : (path, .ofClass c') ∈ (m.appendMarkers chosen).candidates := by
    rw [SourceModule.candidates_appendMarkers]
    exact List.mem_map.mpr ⟨_, hpath, rfl⟩
  have hname : c'.name = c.name := congrArg (·) hsettles.alike.name_eq
  refine ⟨c', ?_, hsettles.isExported_iff⟩
  rw [hresult, ← hname, ← SourceModule.classNamed?_eq_get? _ p.options]
  exact hregular.classNamed?_eq (SourceModule.mem_ownClasses_of_mem_candidates hc')

/-- **A class of the surface is grounded** when a pass without a filter is over. -/
theorem grounded_of_surface (h : m.Regular) (hall : p.filter.isEmpty = true)
    (hname : (Evaluator.ofModule m p.options).classNamed? name = some c)
    (hc : c.isExported = true ∨ Subject.ofClass c ∈ Evaluator.surface (.ofModule m p.options)) :
    Grounded p m name := by
  obtain rfl : c.name = name := Evaluator.name_of_classNamed? hname
  by_cases hown : ∃ d ∈ m.ownClasses, d.name = c.name
  · obtain ⟨d, hd, hdname⟩ := hown
    obtain rfl : d = c := by
      have hfound : (Evaluator.ofModule m p.options).classNamed? d.name = some d :=
        h.classNamed?_eq hd
      rw [hdname, hname] at hfound
      exact (Option.some.inj hfound).symm
    obtain ⟨c', hc', hexported⟩ := exists_get?_classIndex_result p h hd
    cases hmarked : d.isExported with
    | true => exact .marked hc' (hexported.mpr (Or.inl hmarked))
    | false =>
      have hsurface : Subject.ofClass d ∈ Evaluator.surface (.ofModule m p.options) := by
        simpa [hmarked] using hc
      rcases gate_of_classAdmitted (Evaluator.classAdmitted_of_mem_surface hsurface hmarked) with
        hgate | ⟨flag, hgate, hflag⟩
      · refine .marked hc' (hexported.mpr (Or.inr ⟨hmarked, ?_, hgate, hsurface⟩))
        rw [ExportFilter.selects, hall, Bool.true_or]
      · exact .stopped hd rfl hsurface hgate hflag
  · have hnot : ∀ d ∈ m.ownClasses, d.name ≠ c.name := fun d hd heq => hown ⟨d, hd, heq⟩
    refine .elsewhere hnot ⟨c, ?_, rfl⟩
    have hnone : m.ownClasses.reverse.find? (·.name = c.name) = none := by
      rw [List.find?_eq_none]
      exact fun d hd => by simpa using hnot d (List.mem_reverse.mp hd)
    rw [SourceModule.classNamed?_ofModule, hnone, Option.none_or] at hname
    exact List.mem_reverse.mp (List.mem_of_find?_eq_some hname)

/-- **No marked declaration is left dangling** by a pass without a filter over a
regular module: each class that a newly marked declaration requires, looking
through arrays and bounds, is built in, is declared elsewhere, is marked
afterwards, or is let through by the rules and stopped by the gate alone. -/
theorem run_grounded (p : Pass) (m : SourceModule) (h : m.Regular)
    (hall : p.filter.isEmpty = true) :
    ∃ report, (p.run m).report = .ok report ∧
      ∀ x ∈ m.newlyMarked (p.run m).result, ∀ t,
        x.2.Requires p.options
          (fun u => Subject.ofType u ∈ Evaluator.surface (.ofModule m p.options)) t →
        ∀ name, t.RefersTo name → Grounded p m name := by
  classical
  obtain ⟨report, hreport, -, hnewly⟩ := run_of_regular p h
  refine ⟨report, hreport, fun x hx t ht name hname => ?_⟩
  rw [hnewly, List.mem_filter, decide_eq_true_eq] at hx
  obtain ⟨-, hmarks⟩ := hx
  have hsurface := Evaluator.mem_surface_of_requires hmarks.accepted hmarks.isExported ht
  rcases Evaluator.refersTo_of_mem_surface hname hsurface with hbuiltin | ⟨c, hc, hclass⟩
  · exact .builtin hbuiltin
  · exact grounded_of_surface h hall hc hclass

/-- An enumeration that is a multiplatform stub. -/
def stub : ClassDecl where
  name := ⟨"test.E"⟩
  kind := .enumClass
  modifiers := { expect := true }

/-- A class with the `suspend` flag. -/
def suspended : ClassDecl where
  name := ⟨"test.S"⟩
  modifiers := { suspend := true }

/-- A class that holds both. -/
def stubHolder : ClassDecl where
  name := ⟨"test.A"⟩
  members :=
    [.property { name := ⟨"test.A.e"⟩, backingField := some (.plain "test.E") },
      .property { name := ⟨"test.A.s"⟩, backingField := some (.plain "test.S") }]

/-- The module of the three. -/
def stubbed : SourceModule :=
  moduleOf [stub.toDeclaration, suspended.toDeclaration, stubHolder.toDeclaration]

theorem regular_stubbed : stubbed.Regular := by
  have hclasses : stubbed.allClasses = [stub, suspended, stubHolder] := rfl
  have hcandidates : stubbed.candidates = [(⟨0, [0]⟩, .ofClass stub),
      (⟨0, [1]⟩, .ofClass suspended), (⟨0, [2]⟩, .ofClass stubHolder)] := rfl
  have hmentioned : stubbed.mentioned = [.plain "test.E", .plain "test.S", .plain "test.E",
      .plain "test.S"] := rfl
  refine SourceModule.regular_of_plain (by decide) ?_ ?_ ?_
  · rw [hclasses]
    decide
  · simp [hcandidates]
  · simp [hmentioned]

/-- A pass over a module with classes that the gate alone stops. -/
theorem run_grounded_stubbed :
    stubbed.Regular ∧ ({} : Pass).filter.isEmpty = true ∧
    ∃ report, (({} : Pass).run stubbed).report = .ok report ∧
      ∀ x ∈ stubbed.newlyMarked (({} : Pass).run stubbed).result, ∀ t,
        x.2.Requires {} (fun u => Subject.ofType u ∈ Evaluator.surface (.ofModule stubbed {})) t →
        ∀ name, t.RefersTo name → Grounded {} stubbed name :=
  ⟨regular_stubbed, rfl, run_grounded {} stubbed regular_stubbed rfl⟩

/-- **A class that the gate alone stops is left dangling.** A stub enumeration
and a class with the `suspend` flag do not keep a class that requires them from
being marked, and are not marked themselves. -/
theorem dangling_stub :
    stubbed.Regular ∧ ({} : Pass).filter.isEmpty = true ∧
    (⟨0, [2]⟩, .ofClass stubHolder) ∈ stubbed.newlyMarked (({} : Pass).run stubbed).result ∧
    ∀ name ∈ ["test.E", "test.S"],
      (Candidate.ofClass stubHolder).Requires {}
        (fun u => Subject.ofType u ∈ Evaluator.surface (.ofModule stubbed {})) (.plain name) ∧
      (TypeRef.plain name).RefersTo ⟨name⟩ ∧
      Builtin.table.lookup name = none ∧
      (∃ c ∈ stubbed.ownClasses, c.name = ⟨name⟩) ∧
      ∀ c ∈ (({} : Pass).run stubbed).result.ownClasses, c.name = ⟨name⟩ →
        c.isExported = false := by
  have hnewly : (⟨0, [2]⟩, .ofClass stubHolder)
      ∈ stubbed.newlyMarked (({} : Pass).run stubbed).result :=
    List.mem_filter.mpr ⟨by simp [show stubbed.candidates = [(⟨0, [0]⟩, .ofClass stub),
      (⟨0, [1]⟩, .ofClass suspended), (⟨0, [2]⟩, .ofClass stubHolder)] from rfl],
      by decide +kernel⟩
  have hproperty : ∀ p ∈ stubHolder.properties, p.visibility = .pub ∧ p.inheritedFrom = none := by
    decide
  have hrequired : ∀ name ∈ ["test.E", "test.S"],
      ∃ p ∈ stubHolder.properties, .plain name ∈ p.requiredTypes {} := by
    decide +kernel
  have hunmarked : ∀ name ∈ ["test.E", "test.S"], Builtin.table.lookup name = none ∧
      (∃ c ∈ stubbed.ownClasses, c.name = ⟨name⟩) ∧
      ∀ c ∈ (({} : Pass).run stubbed).result.ownClasses, c.name = ⟨name⟩ →
        c.isExported = false := by
    decide +kernel
  refine ⟨regular_stubbed, rfl, hnewly, fun name hname => ?_⟩
  obtain ⟨p, hp, ht⟩ := hrequired name hname
  obtain ⟨hpublic, hinherited⟩ := hproperty p hp
  refine ⟨.property hp hpublic ?_ ht, .named _ _ _, hunmarked name hname⟩
  rintro ⟨t, heq, -⟩
  rw [hinherited] at heq
  cases heq

end Pass

end ExportSurface
