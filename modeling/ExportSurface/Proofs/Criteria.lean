import ExportSurface.Proofs.Inquiry
/-!
# The criteria behind the rules

The rules stop at the first failing step. Here every failing step of a
declaration is listed, with all that is at fault in it and in declaration
order (`Rule.classReasons` and its companions), and the verdict of a rule is
the first of them (`Rule.comesTo_ofClass`). A declaration without failing steps
is one that meets the criteria, which are stated on their own
(`ClassAdmitted`, `classReasons_eq_nil_iff`) and are monotone: whatever meets
them still does when more types can be exported.
-/

namespace ExportSurface

/-- Whether a class has a property without a type. -/
def ClassDecl.Untyped (c : ClassDecl) : Prop := ∃ p ∈ c.properties, p.valueType? = none

namespace Rule

/-! ## The failing steps -/

/-- The reason there is where something is at fault. -/
def offence (reason : List String → Rejection) : List String → List Rejection
  | [] => []
  | a :: as => [reason (a :: as)]

/-- The reason there is where a type is present and not accepted. -/
def refusal (accept : TypeRef → Bool) (reason : String → Rejection) (type : Option TypeRef) :
    List Rejection :=
  (type.toList.filter fun t => !accept t).map fun t => reason t.text

/-- The failing steps over receivers and parameters. -/
def signatureReasons (accept : TypeRef → Bool) (dispatch extension : Option TypeRef)
    (parameters : List ValueParameter) : List Rejection :=
  refusal accept .dispatchReceiver dispatch ++ refusal accept .extensionReceiver extension
    ++ offence .parameters ((parameters.filter fun p => !accept p.type).map parameterText)

/-- The failing steps of a function. -/
def functionReasons (accept : TypeRef → Bool) (f : FunctionDecl) : List Rejection :=
  (callableGate f.visibility f.modifiers).toList
    ++ refusal accept .returnType (some f.returnType)
    ++ signatureReasons accept f.dispatchReceiver f.extensionReceiver f.parameters

/-- The failing steps of a constructor. -/
def constructorReasons (accept : TypeRef → Bool) (c : ConstructorDecl) : List Rejection :=
  (callableGate c.visibility c.modifiers).toList
    ++ signatureReasons accept c.dispatchReceiver none c.parameters

/-- What keeps a property off the surface whatever its types are. -/
def propertyGate (modifiers : Modifiers) : Option Rejection :=
  if modifiers.expect then some (.platform .expect)
  else if modifiers.external then some (.platform .external)
  else none

/-- The failing steps of a property. -/
def propertyReasons (options : RuleOptions) (accept : TypeRef → Bool) (p : PropertyDecl) :
    List Rejection :=
  (propertyGate p.modifiers).toList
    ++ refusal accept .dispatchReceiver (p.getter.bind (·.dispatchReceiver))
    ++ refusal accept .extensionReceiver (p.getter.bind (·.extensionReceiver))
    ++ if options.checkPropertyTypes then refusal accept .propertyType p.valueType? else []

/-- Whether a member's ancestor is built in and accepted. -/
def exempt (accept : TypeRef → Bool) (ancestor : Option TypeRef) : Bool :=
  Id.run (inheritedFromBuiltin (fun t => pure (accept t)) ancestor)

/-- The public constructors of a class. -/
def publicConstructors (c : ClassDecl) : List ConstructorDecl :=
  c.constructors.filter fun k => isPublic k.visibility

/-- The public properties of a class that are its own. -/
def ownProperties (accept : TypeRef → Bool) (c : ClassDecl) : List PropertyDecl :=
  (c.properties.filter fun p => isPublic p.visibility).filter
    fun p => !exempt accept p.inheritedFrom

/-- The public methods of a class that are its own. -/
def ownMethods (accept : TypeRef → Bool) (c : ClassDecl) : List FunctionDecl :=
  (c.methods.filter fun f => isPublic f.visibility).filter
    fun f => !exempt accept f.inheritedFrom

/-- The failing steps over the types and members of a class. -/
def memberReasons (options : RuleOptions) (accept : TypeRef → Bool) (c : ClassDecl) :
    List Rejection :=
  offence .supertypes ((c.supertypes.filter fun t => !accept t).map TypeRef.text)
    ++ (offence .constructors (((publicConstructors c).filter
          fun k => !(constructorReasons accept k).isEmpty).map (·.signature c.name))
    ++ (offence .properties (((ownProperties accept c).filter
          fun p => !(propertyReasons options accept p).isEmpty).map PropertyDecl.signature)
    ++ (offence .methods (((ownMethods accept c).filter
          fun f => !(functionReasons accept f).isEmpty).map FunctionDecl.signature)
    ++ offence .overloadedMethods (overloadedNames (ownMethods accept c)))))

/-- The failing steps of a class, none where it is marked already. -/
def classReasons (options : RuleOptions) (accept : TypeRef → Bool) (c : ClassDecl) :
    List Rejection :=
  if c.isExported then []
  else (classGate c.toClassHeader).toList ++ memberReasons options accept c

/-- The verdict that names the first failing step. -/
def firstOf (reasons : List Rejection) : Verdict := .ofRejection? reasons.head?

theorem isExportable_firstOf (reasons : List Rejection) :
    (firstOf reasons).isExportable = reasons.isEmpty := by
  cases reasons with
  | nil => rfl
  | cons => rfl

theorem ofOffending_eq_firstOf (reason : List String → Rejection) (offending : List String) :
    Verdict.ofOffending reason offending = firstOf (offence reason offending) := by
  cases offending with
  | nil => rfl
  | cons => rfl

/-! ## The verdict is the first failing step -/

variable {F : Prop} {accept : TypeRef → Bool}

theorem comesTo_refused {α : Type} {ask : α → Inquiry Bool} (value : α → Bool) {as : List α}
    (h : ∀ a ∈ as, (ask a).ComesTo F accept (value a)) :
    (refused ask as).ComesTo F accept (as.filter fun a => !value a) := by
  induction as with
  | nil => exact Or.inl rfl
  | cons a as ih =>
    have hrest := ih fun b hb => h b (List.mem_cons_of_mem a hb)
    refine (h a List.mem_cons_self).bind (hrest.bind (Or.inl ?_))
    cases hv : value a with
    | false => simp [hv]
    | true => simp [hv]

theorem comesTo_sift {α : Type} {exempted ask : α → Inquiry Bool} (free value : α → Bool)
    {as : List α} (hfree : ∀ a ∈ as, (exempted a).ComesTo F accept (free a))
    (h : ∀ a ∈ as, (ask a).ComesTo F accept (value a)) :
    (sift exempted ask as).ComesTo F accept
      (as.filter fun a => !free a, (as.filter fun a => !free a).filter fun a => !value a) := by
  induction as with
  | nil => exact Or.inl rfl
  | cons a as ih =>
    have hrest := ih (fun b hb => hfree b (List.mem_cons_of_mem a hb))
      fun b hb => h b (List.mem_cons_of_mem a hb)
    refine (hfree a List.mem_cons_self).bind ?_
    cases hf : free a with
    | true =>
      rw [if_pos rfl]
      simpa [hf] using hrest
    | false =>
      rw [if_neg (by simp)]
      refine (h a List.mem_cons_self).bind (hrest.bind (Or.inl ?_))
      cases hv : value a with
      | false => simp [hf, hv]
      | true => simp [hf, hv]

theorem comesTo_unlessRefused (reason : String → Rejection) (type : Option TypeRef)
    {next : Inquiry Verdict} {reasons : List Rejection}
    (h : next.ComesTo F accept (firstOf reasons)) :
    (unlessRefused Inquiry.put reason type next).ComesTo F accept
      (firstOf (refusal accept reason type ++ reasons)) := by
  cases type with
  | none => exact h
  | some t =>
    have hput : (Inquiry.put t).ComesTo F accept (accept t) := Or.inl (Inquiry.eval_put accept t)
    refine hput.bind ?_
    cases ht : accept t with
    | false => exact Or.inl (by simp [refusal, ht, firstOf, Verdict.ofRejection?])
    | true => simpa [refusal, ht] using h

theorem comesTo_unlessOffending (reason : List String → Rejection) (offending : List String)
    {next : Inquiry Verdict} {reasons : List Rejection}
    (h : next.ComesTo F accept (firstOf reasons)) :
    (unlessOffending reason offending next).ComesTo F accept
      (firstOf (offence reason offending ++ reasons)) := by
  cases offending with
  | nil => exact h
  | cons => exact Or.inl rfl

theorem comesTo_receiversAndParameters (dispatch extension : Option TypeRef)
    (parameters : List ValueParameter) :
    (receiversAndParameters Inquiry.put dispatch extension parameters).ComesTo F accept
      (firstOf (signatureReasons accept dispatch extension parameters)) := by
  rw [signatureReasons, List.append_assoc]
  refine comesTo_unlessRefused _ _ (comesTo_unlessRefused _ _ ?_)
  refine (comesTo_refused (fun p => accept p.type) fun p _ => Or.inl
    (Inquiry.eval_put accept p.type)).bind (Or.inl ?_)
  rw [Inquiry.eval_pure, ofOffending_eq_firstOf]

theorem comesTo_ofFunction (f : FunctionDecl) :
    (ofFunction Inquiry.put f).ComesTo F accept (firstOf (functionReasons accept f)) := by
  unfold ofFunction functionReasons
  cases callableGate f.visibility f.modifiers with
  | some reason => exact Or.inl rfl
  | none => exact comesTo_unlessRefused _ _ (comesTo_receiversAndParameters _ _ _)

theorem comesTo_ofConstructor (c : ConstructorDecl) :
    (ofConstructor Inquiry.put c).ComesTo F accept (firstOf (constructorReasons accept c)) := by
  unfold ofConstructor constructorReasons
  cases callableGate c.visibility c.modifiers with
  | some reason => exact Or.inl rfl
  | none => exact comesTo_receiversAndParameters _ _ _

theorem comesTo_getterReceivers (getter : Option Getter) {next : Inquiry Verdict}
    {reasons : List Rejection} (h : next.ComesTo F accept (firstOf reasons)) :
    (getterReceivers Inquiry.put getter next).ComesTo F accept
      (firstOf (refusal accept .dispatchReceiver (getter.bind (·.dispatchReceiver))
          ++ (refusal accept .extensionReceiver (getter.bind (·.extensionReceiver))
          ++ reasons))) := by
  cases getter with
  | none => exact h
  | some g => exact comesTo_unlessRefused _ _ (comesTo_unlessRefused _ _ h)

/-- A property is judged without fail unless it has no type. -/
theorem comesTo_ofProperty (options : RuleOptions) (p : PropertyDecl) :
    (ofProperty options Inquiry.put p).ComesTo (p.valueType? = none) accept
      (firstOf (propertyReasons options accept p)) := by
  unfold ofProperty propertyReasons propertyGate
  split
  · exact Or.inl rfl
  split
  · exact Or.inl rfl
  rw [Option.toList_none, List.nil_append, List.append_assoc]
  refine comesTo_getterReceivers _ ?_
  unfold PropertyDecl.valueType
  cases p.valueType? with
  | none => exact Or.inr ⟨rfl, _, rfl⟩
  | some t =>
    dsimp only
    cases options.checkPropertyTypes with
    | false => exact Or.inl rfl
    | true =>
      have hnone : (pure .exportable : Inquiry Verdict).ComesTo (some t = none) accept
          (firstOf []) := Or.inl rfl
      have hlast := comesTo_unlessRefused .propertyType (some t) hnone
      rw [List.append_nil] at hlast
      exact hlast

theorem eval_inheritedFromBuiltin (ancestor : Option TypeRef) :
    (inheritedFromBuiltin Inquiry.put ancestor).eval accept = .ok (exempt accept ancestor) := by
  cases ancestor with
  | none => rfl
  | some t =>
    simp only [inheritedFromBuiltin, exempt, Builtin.accepts]
    split
    · rfl
    split
    · rfl
    · split
      · rfl
      · rfl
      · rfl
    · rfl

/-- **The verdict on a class is its first failing step**, unless the rule fails
for a property without a type. The reason it gives holds all that is at fault
in that step. -/
theorem comesTo_ofClass (options : RuleOptions) (c : ClassDecl) :
    (ofClass options Inquiry.put c).ComesTo c.Untyped accept
      (firstOf (classReasons options accept c)) := by
  unfold ofClass classReasons
  split
  · exact Or.inl rfl
  cases classGate c.toClassHeader with
  | some reason => exact Or.inl rfl
  | none =>
    rw [Option.toList_none, List.nil_append, memberReasons]
    refine (comesTo_refused accept fun t _ => Or.inl (Inquiry.eval_put accept t)).bind ?_
    refine comesTo_unlessOffending _ _ ?_
    refine (comesTo_refused (fun k => (constructorReasons accept k).isEmpty)
      fun k _ => ?ctor).bind ?_
    -- the side conditions say what each group of members comes to, in the order of the rule
    case ctor =>
      rw [← isExportable_firstOf]
      exact (comesTo_ofConstructor k).map _
    refine comesTo_unlessOffending _ _ ?_
    refine (comesTo_sift (fun p => exempt accept p.inheritedFrom)
      (fun p => (propertyReasons options accept p).isEmpty)
      (fun p _ => Or.inl (eval_inheritedFromBuiltin _)) fun p hp => ?prop).bind ?_
    case prop =>
      rw [← isExportable_firstOf]
      exact ((comesTo_ofProperty options p).imp fun hnone =>
        ⟨p, (List.mem_filter.mp hp).1, hnone⟩).map _
    refine comesTo_unlessOffending _ _ ?_
    refine (comesTo_sift (fun f => exempt accept f.inheritedFrom)
      (fun f => (functionReasons accept f).isEmpty)
      (fun f _ => Or.inl (eval_inheritedFromBuiltin _)) fun f _ => ?method).bind ?_
    case method =>
      rw [← isExportable_firstOf]
      exact (comesTo_ofFunction f).map _
    refine comesTo_unlessOffending _ _ (Or.inl ?_)
    rw [Inquiry.eval_pure, ofOffending_eq_firstOf]
    rfl

/-! ### Rules that do not fail -/

theorem eval_ofFunction (f : FunctionDecl) :
    (ofFunction Inquiry.put f).eval accept = .ok (firstOf (functionReasons accept f)) :=
  (comesTo_ofFunction f).eval_eq not_false

theorem eval_ofConstructor (c : ConstructorDecl) :
    (ofConstructor Inquiry.put c).eval accept = .ok (firstOf (constructorReasons accept c)) :=
  (comesTo_ofConstructor c).eval_eq not_false

/-- A property with a type is judged without fail. -/
theorem eval_ofProperty (options : RuleOptions) {p : PropertyDecl}
    (hp : p.valueType?.isSome) :
    (ofProperty options Inquiry.put p).eval accept
      = .ok (firstOf (propertyReasons options accept p)) :=
  (comesTo_ofProperty options p).eval_eq fun hnone => by simp [hnone] at hp

end Rule

/-! ## The criteria -/

/-- The types that the rule of a class may look at: those of its supertypes and
of its public members. -/
def ClassDecl.surfaceTypes (c : ClassDecl) : List TypeRef :=
  c.supertypes ++ (Rule.publicConstructors c).flatMap ConstructorDecl.types
    ++ (c.properties.filter fun p => Rule.isPublic p.visibility).flatMap PropertyDecl.types
    ++ (c.methods.filter fun f => Rule.isPublic f.visibility).flatMap FunctionDecl.types

/-- The element of an array type: its first argument, where that is a type. -/
def TypeRef.element? (t : TypeRef) : Option TypeRef :=
  match Builtin.ofType? t, t.arguments with
  | some .array, .type u :: _ => some u
  | _, _ => none

theorem TypeRef.hasStar_of_arguments_eq_star_cons {t : TypeRef} {as : List TypeArgument}
    (h : t.arguments = .star :: as) : t.hasStar = true := by
  cases t with
  | named name args nullable =>
    change args = .star :: as at h
    simp [hasStar, h, TypeArgument.hasStar]
  | parameter => cases h
  | dynamic => cases h

/-- Whether the rule of a class may ask about a type. -/
def ClassDecl.Checks (c : ClassDecl) (t : TypeRef) : Prop :=
  t ∈ c.surfaceTypes ∨ ∃ a ∈ c.surfaceTypes, a.element? = some t

section SurfaceTypes

variable {c : ClassDecl} {t : TypeRef}

theorem ClassDecl.mem_surfaceTypes_of_supertype (ht : t ∈ c.supertypes) : t ∈ c.surfaceTypes := by
  simp [surfaceTypes, ht]

theorem ClassDecl.mem_surfaceTypes_of_constructor {k : ConstructorDecl}
    (hk : k ∈ Rule.publicConstructors c) (ht : t ∈ k.types) : t ∈ c.surfaceTypes := by
  simp only [surfaceTypes, List.mem_append, List.mem_flatMap]
  exact Or.inl (Or.inl (Or.inr ⟨k, hk, ht⟩))

theorem ClassDecl.mem_surfaceTypes_of_property {p : PropertyDecl}
    (hp : p ∈ c.properties.filter fun p => Rule.isPublic p.visibility) (ht : t ∈ p.types) :
    t ∈ c.surfaceTypes := by
  simp only [surfaceTypes, List.mem_append, List.mem_flatMap]
  exact Or.inl (Or.inr ⟨p, hp, ht⟩)

theorem ClassDecl.mem_surfaceTypes_of_method {f : FunctionDecl}
    (hf : f ∈ c.methods.filter fun f => Rule.isPublic f.visibility) (ht : t ∈ f.types) :
    t ∈ c.surfaceTypes := by
  simp only [surfaceTypes, List.mem_append, List.mem_flatMap]
  exact Or.inr ⟨f, hf, ht⟩

/-- The types of a function's signature are types of the function. -/
theorem FunctionDecl.mem_types_of_mem_signature {f : FunctionDecl}
    (ht : t ∈ f.dispatchReceiver.toList ++ f.extensionReceiver.toList
      ++ f.parameters.map (·.type)) : t ∈ f.types := by
  simp only [types, List.mem_append, List.mem_cons] at ht ⊢
  rcases ht with (hd | he) | hp
  · exact Or.inl (Or.inl (Or.inl (Or.inr hd)))
  · exact Or.inl (Or.inl (Or.inr he))
  · exact Or.inl (Or.inr hp)

end SurfaceTypes

/-- A built-in type without star projections, with an element that is
accepted where it is an array that has one. -/
structure BuiltinAdmitted (X : TypeRef → Prop) (t : TypeRef) : Prop where
  noStar : t.hasStar = false
  builtin : (Builtin.ofType? t).isSome = true
  element : ∀ u, t.element? = some u → X u

/-- A member whose ancestor is built in and accepted. -/
def Exempt (X : TypeRef → Prop) (ancestor : Option TypeRef) : Prop :=
  ∃ t, ancestor = some t ∧ BuiltinAdmitted X t

/-- The criterion on visibility and modifiers of functions and constructors. -/
structure CallableAdmitted (visibility : Visibility) (modifiers : Modifiers) : Prop where
  isPublic : visibility = .pub
  notExpect : modifiers.expect = false
  notExternal : modifiers.external = false
  notInline : modifiers.inline = false

/-- The criterion on receivers and parameters. -/
structure SignatureAdmitted (X : TypeRef → Prop) (dispatch extension : Option TypeRef)
    (parameters : List ValueParameter) : Prop where
  dispatch : ∀ t, dispatch = some t → X t
  extension : ∀ t, extension = some t → X t
  parameters : ∀ p ∈ parameters, X p.type

/-- The criterion on functions. -/
structure FunctionAdmitted (X : TypeRef → Prop) (f : FunctionDecl) : Prop where
  callable : CallableAdmitted f.visibility f.modifiers
  returned : X f.returnType
  signature : SignatureAdmitted X f.dispatchReceiver f.extensionReceiver f.parameters

/-- The criterion on constructors. -/
structure ConstructorAdmitted (X : TypeRef → Prop) (c : ConstructorDecl) : Prop where
  callable : CallableAdmitted c.visibility c.modifiers
  signature : SignatureAdmitted X c.dispatchReceiver none c.parameters

/-- The criterion on properties. -/
structure PropertyAdmitted (options : RuleOptions) (X : TypeRef → Prop) (p : PropertyDecl) :
    Prop where
  notExpect : p.modifiers.expect = false
  notExternal : p.modifiers.external = false
  dispatch : ∀ t, p.getter.bind (·.dispatchReceiver) = some t → X t
  extension : ∀ t, p.getter.bind (·.extensionReceiver) = some t → X t
  value : options.checkPropertyTypes = true → ∀ t, p.valueType? = some t → X t

/-- The criterion on classes that are not marked yet. -/
structure ClassAdmitted (options : RuleOptions) (X : TypeRef → Prop) (c : ClassDecl) : Prop where
  /-- Enumerations are admitted whatever their modifiers. -/
  unflagged : c.kind = .enumClass ∨
    c.modifiers.expect = false ∧ c.modifiers.external = false ∧ c.modifiers.value = false ∧
      c.modifiers.inline = false ∧ c.kind ≠ .annotationClass ∧ c.modifiers.anonymous = false
  isPublic : c.visibility = .pub
  supertypes : ∀ t ∈ c.supertypes, X t
  constructors : ∀ k ∈ c.constructors, k.visibility = .pub → ConstructorAdmitted X k
  properties : ∀ p ∈ c.properties, p.visibility = .pub →
    Exempt X p.inheritedFrom ∨ PropertyAdmitted options X p
  methods : ∀ f ∈ c.methods, f.visibility = .pub →
    Exempt X f.inheritedFrom ∨ FunctionAdmitted X f
  /-- No two public methods share a name, exempt ones apart. -/
  distinct : c.methods.Pairwise fun f g => f.visibility = .pub → g.visibility = .pub →
    Exempt X f.inheritedFrom ∨ Exempt X g.inheritedFrom ∨ f.name.shortName ≠ g.name.shortName

/-! ### The criteria are monotone in what they look at -/

section Monotone

variable {X Y : TypeRef → Prop}

theorem BuiltinAdmitted.imp {t : TypeRef} (h : BuiltinAdmitted X t)
    (hXY : ∀ u, t.element? = some u → X u → Y u) : BuiltinAdmitted Y t where
  noStar := h.noStar
  builtin := h.builtin
  element u hu := hXY u hu (h.element u hu)

theorem Exempt.imp {ancestor : Option TypeRef} (h : Exempt X ancestor)
    (hXY : ∀ t u, ancestor = some t → t.element? = some u → X u → Y u) : Exempt Y ancestor := by
  obtain ⟨t, ht, hb⟩ := h
  exact ⟨t, ht, hb.imp fun u hu => hXY t u ht hu⟩

theorem SignatureAdmitted.imp {dispatch extension : Option TypeRef}
    {parameters : List ValueParameter} (h : SignatureAdmitted X dispatch extension parameters)
    (hXY : ∀ t ∈ dispatch.toList ++ extension.toList ++ parameters.map (·.type), X t → Y t) :
    SignatureAdmitted Y dispatch extension parameters where
  dispatch t ht := hXY t (by simp [ht]) (h.dispatch t ht)
  extension t ht := hXY t (by simp [ht]) (h.extension t ht)
  parameters p hp := by
    refine hXY p.type (List.mem_append_right _ ?_) (h.parameters p hp)
    exact List.mem_map_of_mem hp

theorem FunctionAdmitted.imp {f : FunctionDecl} (h : FunctionAdmitted X f)
    (hXY : ∀ t ∈ f.types, X t → Y t) : FunctionAdmitted Y f where
  callable := h.callable
  returned := hXY _ (by simp [FunctionDecl.types]) h.returned
  signature := h.signature.imp fun t ht => hXY t (FunctionDecl.mem_types_of_mem_signature ht)

theorem ConstructorAdmitted.imp {c : ConstructorDecl} (h : ConstructorAdmitted X c)
    (hXY : ∀ t ∈ c.types, X t → Y t) : ConstructorAdmitted Y c where
  callable := h.callable
  signature := h.signature.imp fun t ht => hXY t (by
    simpa [ConstructorDecl.types] using ht)

theorem PropertyDecl.mem_types_of_valueType? {p : PropertyDecl} {t : TypeRef}
    (h : p.valueType? = some t) : t ∈ p.types := by
  unfold valueType? at h
  unfold types
  cases hg : p.getter with
  | none =>
    rw [hg] at h
    simp [h]
  | some g =>
    rw [hg] at h
    simp [Getter.types, ← Option.some.inj h]

theorem PropertyAdmitted.imp {options : RuleOptions} {p : PropertyDecl}
    (h : PropertyAdmitted options X p) (hXY : ∀ t ∈ p.types, X t → Y t) :
    PropertyAdmitted options Y p where
  notExpect := h.notExpect
  notExternal := h.notExternal
  dispatch t ht := by
    obtain ⟨g, hg, hgt⟩ := Option.bind_eq_some_iff.mp ht
    exact hXY t (by simp [PropertyDecl.types, hg, Getter.types, hgt]) (h.dispatch t ht)
  extension t ht := by
    obtain ⟨g, hg, hgt⟩ := Option.bind_eq_some_iff.mp ht
    exact hXY t (by simp [PropertyDecl.types, hg, Getter.types, hgt]) (h.extension t ht)
  value hc t ht := hXY t (PropertyDecl.mem_types_of_valueType? ht) (h.value hc t ht)

/-- **The criterion on classes is monotone** in the types its rule may ask
about, and does not depend on others. -/
theorem ClassAdmitted.imp {options : RuleOptions} {c : ClassDecl}
    (h : ClassAdmitted options X c) (hXY : ∀ t, c.Checks t → X t → Y t) :
    ClassAdmitted options Y c := by
  have hpublic : ∀ {v : Visibility}, v = .pub → Rule.isPublic v = true := fun hv => by
    simp [Rule.isPublic, hv]
  have hctor : ∀ k ∈ c.constructors, k.visibility = .pub → ∀ t ∈ k.types, c.Checks t :=
    fun k hk hv t ht => Or.inl
      (ClassDecl.mem_surfaceTypes_of_constructor (List.mem_filter.mpr ⟨hk, hpublic hv⟩) ht)
  have hprop : ∀ p ∈ c.properties, p.visibility = .pub → ∀ t ∈ p.types, t ∈ c.surfaceTypes :=
    fun p hp hv t ht =>
      ClassDecl.mem_surfaceTypes_of_property (List.mem_filter.mpr ⟨hp, hpublic hv⟩) ht
  have hmethod : ∀ f ∈ c.methods, f.visibility = .pub → ∀ t ∈ f.types, t ∈ c.surfaceTypes :=
    fun f hf hv t ht =>
      ClassDecl.mem_surfaceTypes_of_method (List.mem_filter.mpr ⟨hf, hpublic hv⟩) ht
  have hexempt : ∀ f ∈ c.methods, f.visibility = .pub →
      Exempt X f.inheritedFrom → Exempt Y f.inheritedFrom := fun f hf hv he =>
    he.imp fun t u ht hu => hXY u (Or.inr ⟨t, hmethod f hf hv t
      (by simp [FunctionDecl.types, ht]), hu⟩)
  exact {
    unflagged := h.unflagged
    isPublic := h.isPublic
    supertypes := fun t ht => hXY t (Or.inl (ClassDecl.mem_surfaceTypes_of_supertype ht))
      (h.supertypes t ht)
    constructors := fun k hk hv => (h.constructors k hk hv).imp fun t ht =>
      hXY t (hctor k hk hv t ht)
    properties := fun p hp hv => (h.properties p hp hv).imp
      (fun he => he.imp fun t u ht hu => hXY u (Or.inr ⟨t, hprop p hp hv t
        (by simp [PropertyDecl.types, ht]), hu⟩))
      fun ha => ha.imp fun t ht => hXY t (Or.inl (hprop p hp hv t ht))
    methods := fun f hf hv => (h.methods f hf hv).imp (hexempt f hf hv)
      fun ha => ha.imp fun t ht => hXY t (Or.inl (hmethod f hf hv t ht))
    distinct := h.distinct.imp_of_mem fun {f g} hf hg hfg hvf hvg =>
      (hfg hvf hvg).imp (hexempt f hf hvf) (Or.imp_left (hexempt g hg hvg)) }

/-! ### and in what they are told not to look at -/

section Lenient

variable {options options' : RuleOptions}
  (hlenient : options'.checkPropertyTypes = true → options.checkPropertyTypes = true)

include hlenient

theorem PropertyAdmitted.lenient {p : PropertyDecl} (h : PropertyAdmitted options X p) :
    PropertyAdmitted options' X p :=
  { h with value := fun hchecked => h.value (hlenient hchecked) }

theorem ClassAdmitted.lenient {c : ClassDecl} (h : ClassAdmitted options X c) :
    ClassAdmitted options' X c :=
  { h with properties := fun p hp hv => (h.properties p hp hv).imp_right (·.lenient hlenient) }

end Lenient

end Monotone

/-! ### What the rules ask about -/

namespace Rule

open Inquiry

variable {P : TypeRef → Prop}

theorem within_refused {α : Type} {ask : α → Inquiry Bool} {as : List α}
    (h : ∀ a ∈ as, (ask a).Within P) : (refused ask as).Within P := by
  induction as with
  | nil => trivial
  | cons a as ih =>
    refine (h a List.mem_cons_self).bind fun ok => ?_
    exact (ih fun b hb => h b (List.mem_cons_of_mem a hb)).bind fun _ => trivial

theorem within_sift {α : Type} {exempted ask : α → Inquiry Bool} {as : List α}
    (hfree : ∀ a ∈ as, (exempted a).Within P) (h : ∀ a ∈ as, (ask a).Within P) :
    (sift exempted ask as).Within P := by
  induction as with
  | nil => trivial
  | cons a as ih =>
    have hrest := ih (fun b hb => hfree b (List.mem_cons_of_mem a hb))
      fun b hb => h b (List.mem_cons_of_mem a hb)
    refine (hfree a List.mem_cons_self).bind fun free => ?_
    cases free with
    | true => exact hrest
    | false => exact (h a List.mem_cons_self).bind fun ok => hrest.bind fun _ => trivial

theorem within_unlessRefused {reason : String → Rejection} {type : Option TypeRef}
    {next : Inquiry Verdict} (ht : ∀ t, type = some t → P t) (hnext : next.Within P) :
    (unlessRefused put reason type next).Within P := by
  cases type with
  | none => exact hnext
  | some t =>
    refine (within_put (ht t rfl)).bind fun b => ?_
    cases b with
    | false => trivial
    | true => exact hnext

theorem within_unlessOffending {reason : List String → Rejection} {offending : List String}
    {next : Inquiry Verdict} (hnext : next.Within P) :
    (unlessOffending reason offending next).Within P := by
  cases offending with
  | nil => exact hnext
  | cons => trivial

theorem within_receiversAndParameters {dispatch extension : Option TypeRef}
    {parameters : List ValueParameter}
    (h : ∀ t ∈ dispatch.toList ++ extension.toList ++ parameters.map (·.type), P t) :
    (receiversAndParameters put dispatch extension parameters).Within P := by
  refine within_unlessRefused (fun t ht => h t (by simp [ht]))
    (within_unlessRefused (fun t ht => h t (by simp [ht])) ?_)
  refine (within_refused fun p hp => within_put (h p.type ?_)).bind fun _ => trivial
  exact List.mem_append_right _ (List.mem_map_of_mem hp)

theorem within_ofFunction {f : FunctionDecl} (h : ∀ t ∈ f.types, P t) :
    (ofFunction put f).Within P := by
  unfold ofFunction
  cases callableGate f.visibility f.modifiers with
  | some reason => trivial
  | none =>
    refine within_unlessRefused (fun t ht => h t ?_)
      (within_receiversAndParameters fun t ht => h t ?_)
    · simp [FunctionDecl.types, Option.some.inj ht]
    · exact FunctionDecl.mem_types_of_mem_signature ht

theorem within_ofConstructor {c : ConstructorDecl} (h : ∀ t ∈ c.types, P t) :
    (ofConstructor put c).Within P := by
  unfold ofConstructor
  cases callableGate c.visibility c.modifiers with
  | some reason => trivial
  | none => exact within_receiversAndParameters (by simpa [ConstructorDecl.types] using h)

theorem within_getterReceivers {getter : Option Getter} {next : Inquiry Verdict}
    (h : ∀ g, getter = some g → ∀ t ∈ g.types, P t) (hnext : next.Within P) :
    (getterReceivers put getter next).Within P := by
  cases getter with
  | none => exact hnext
  | some g =>
    refine within_unlessRefused (fun t ht => h g rfl t ?_)
      (within_unlessRefused (fun t ht => h g rfl t ?_) hnext)
    · simp [Getter.types, ht]
    · simp [Getter.types, ht]

theorem within_ofProperty {options : RuleOptions} {p : PropertyDecl} (h : ∀ t ∈ p.types, P t) :
    (ofProperty options put p).Within P := by
  unfold ofProperty
  split
  · trivial
  split
  · trivial
  refine within_getterReceivers (fun g hg t ht => h t (by simp [PropertyDecl.types, hg, ht])) ?_
  unfold PropertyDecl.valueType
  cases ht : p.valueType? with
  | none => exact ⟨p.name, rfl⟩
  | some t =>
    cases options.checkPropertyTypes with
    | false => trivial
    | true =>
      have hdone : Within P (pure Verdict.exportable) := trivial
      dsimp only
      rw [if_pos rfl]
      refine within_unlessRefused (fun u hu => ?_) hdone
      exact Option.some.inj hu ▸ h t (PropertyDecl.mem_types_of_valueType? ht)

theorem within_accepts {t : TypeRef} (h : ∀ u, t.element? = some u → P u) :
    (Builtin.accepts put t).Within P := by
  unfold Builtin.accepts
  unfold TypeRef.element? at h
  split
  · trivial
  split
  · trivial
  · rename_i hkind
    rw [hkind] at h
    cases hargs : t.arguments with
    | nil => trivial
    | cons a as =>
      rw [hargs] at h
      cases a with
      | star => trivial
      | type u => exact within_put (h u rfl)
  · trivial

theorem within_inheritedFromBuiltin {ancestor : Option TypeRef}
    (h : ∀ t u, ancestor = some t → t.element? = some u → P u) :
    (inheritedFromBuiltin put ancestor).Within P := by
  cases ancestor with
  | none => trivial
  | some t => exact within_accepts fun u hu => h t u rfl hu

/-- The rule of a class asks about types of its surface, and about the
elements of those that built-in ancestors stand for. -/
theorem within_ofClass (options : RuleOptions) (c : ClassDecl) :
    (ofClass options put c).Within c.Checks := by
  unfold ofClass
  split
  · trivial
  cases classGate c.toClassHeader with
  | some reason => trivial
  | none =>
    refine (within_refused fun t ht => within_put (Or.inl ?_)).bind fun _ =>
      within_unlessOffending ?_
    · exact ClassDecl.mem_surfaceTypes_of_supertype ht
    refine (within_refused fun k hk => (within_ofConstructor fun t ht => Or.inl ?_).map).bind
      fun _ => within_unlessOffending ?_
    · exact ClassDecl.mem_surfaceTypes_of_constructor hk ht
    refine (within_sift (fun p hp => within_inheritedFromBuiltin fun t u ht hu => Or.inr
      ⟨t, ClassDecl.mem_surfaceTypes_of_property hp (by simp [PropertyDecl.types, ht]), hu⟩)
      fun p hp => (within_ofProperty fun t ht => Or.inl ?_).map).bind fun _ =>
      within_unlessOffending ?_
    · exact ClassDecl.mem_surfaceTypes_of_property hp ht
    refine (within_sift (fun f hf => within_inheritedFromBuiltin fun t u ht hu => Or.inr
      ⟨t, ClassDecl.mem_surfaceTypes_of_method hf (by simp [FunctionDecl.types, ht]), hu⟩)
      fun f hf => (within_ofFunction fun t ht => Or.inl ?_).map).bind fun _ =>
      within_unlessOffending trivial
    exact ClassDecl.mem_surfaceTypes_of_method hf ht

end Rule

/-! ### No failing step is the criterion met -/

namespace Rule

variable {accept : TypeRef → Bool}

theorem offence_eq_nil_iff {reason : List String → Rejection} {offending : List String} :
    offence reason offending = [] ↔ offending = [] := by
  cases offending with
  | nil => simp [offence]
  | cons => simp [offence]

theorem offence_map_filter_eq_nil_iff {α : Type} {reason : List String → Rejection}
    {text : α → String} {value : α → Bool} {as : List α} :
    offence reason ((as.filter fun a => !value a).map text) = []
      ↔ ∀ a ∈ as, value a = true := by
  simp [offence_eq_nil_iff, List.filter_eq_nil_iff]

theorem refusal_eq_nil_iff {reason : String → Rejection} {type : Option TypeRef} :
    refusal accept reason type = [] ↔ ∀ t, type = some t → accept t = true := by
  cases type with
  | none => simp [refusal]
  | some t => simp [refusal, List.filter_eq_nil_iff]

theorem callableGate_eq_none_iff {visibility : Visibility} {modifiers : Modifiers} :
    callableGate visibility modifiers = none ↔ CallableAdmitted visibility modifiers := by
  unfold callableGate
  constructor
  · intro h
    split at h
    · cases h
    split at h
    · cases h
    split at h
    · cases h
    split at h
    · cases h
    rename_i hv he hx hi
    exact ⟨by simpa using hv, by simpa using he, by simpa using hx, by simpa using hi⟩
  · intro h
    simp [h.isPublic, h.notExpect, h.notExternal, h.notInline]

theorem signatureReasons_eq_nil_iff {dispatch extension : Option TypeRef}
    {parameters : List ValueParameter} :
    signatureReasons accept dispatch extension parameters = []
      ↔ SignatureAdmitted (accept · = true) dispatch extension parameters := by
  simp only [signatureReasons, List.append_eq_nil_iff, refusal_eq_nil_iff,
    offence_map_filter_eq_nil_iff]
  constructor
  · rintro ⟨⟨hd, he⟩, hp⟩
    exact ⟨hd, he, hp⟩
  · rintro ⟨hd, he, hp⟩
    exact ⟨⟨hd, he⟩, hp⟩

theorem functionReasons_eq_nil_iff {f : FunctionDecl} :
    functionReasons accept f = [] ↔ FunctionAdmitted (accept · = true) f := by
  simp only [functionReasons, List.append_eq_nil_iff, Option.toList_eq_nil_iff,
    callableGate_eq_none_iff, refusal_eq_nil_iff, signatureReasons_eq_nil_iff]
  constructor
  · rintro ⟨⟨hc, hr⟩, hs⟩
    exact ⟨hc, hr _ rfl, hs⟩
  · rintro ⟨hc, hr, hs⟩
    exact ⟨⟨hc, fun t ht => Option.some.inj ht ▸ hr⟩, hs⟩

theorem constructorReasons_eq_nil_iff {c : ConstructorDecl} :
    constructorReasons accept c = [] ↔ ConstructorAdmitted (accept · = true) c := by
  simp only [constructorReasons, List.append_eq_nil_iff, Option.toList_eq_nil_iff,
    callableGate_eq_none_iff, signatureReasons_eq_nil_iff]
  constructor
  · rintro ⟨hc, hs⟩
    exact ⟨hc, hs⟩
  · rintro ⟨hc, hs⟩
    exact ⟨hc, hs⟩

theorem propertyGate_eq_none_iff {modifiers : Modifiers} :
    propertyGate modifiers = none
      ↔ modifiers.expect = false ∧ modifiers.external = false := by
  unfold propertyGate
  cases modifiers.expect with
  | true => simp
  | false => cases modifiers.external with
    | true => simp
    | false => simp

theorem propertyReasons_eq_nil_iff {options : RuleOptions} {p : PropertyDecl} :
    propertyReasons options accept p = [] ↔ PropertyAdmitted options (accept · = true) p := by
  simp only [propertyReasons, List.append_eq_nil_iff, Option.toList_eq_nil_iff,
    propertyGate_eq_none_iff, refusal_eq_nil_iff]
  have hvalue : (if options.checkPropertyTypes then refusal accept .propertyType p.valueType?
      else []) = [] ↔ (options.checkPropertyTypes = true →
        ∀ t, p.valueType? = some t → accept t = true) := by
    cases options.checkPropertyTypes with
    | true => simp [refusal_eq_nil_iff]
    | false => simp
  rw [hvalue]
  constructor
  · rintro ⟨⟨⟨⟨he, hx⟩, hd⟩, hr⟩, hv⟩
    exact ⟨he, hx, hd, hr, hv⟩
  · rintro ⟨he, hx, hd, hr, hv⟩
    exact ⟨⟨⟨⟨he, hx⟩, hd⟩, hr⟩, hv⟩

theorem accepts_pure_eq_true_iff {t : TypeRef} :
    Id.run (Builtin.accepts (fun u => pure (accept u)) t) = true
      ↔ BuiltinAdmitted (accept · = true) t := by
  have hiff : BuiltinAdmitted (accept · = true) t ↔ t.hasStar = false ∧
      (Builtin.ofType? t).isSome = true ∧ ∀ u, t.element? = some u → accept u = true :=
    ⟨fun h => ⟨h.noStar, h.builtin, h.element⟩, fun ⟨hs, hb, he⟩ => ⟨hs, hb, he⟩⟩
  rw [hiff]
  unfold Builtin.accepts TypeRef.element?
  cases hs : t.hasStar with
  | true => simp
  | false =>
    cases Builtin.ofType? t with
    | none => simp
    | some kind =>
      cases kind with
      | array =>
        cases hargs : t.arguments with
        | nil => simp
        | cons a as =>
          cases a with
          | star => simp [TypeRef.hasStar_of_arguments_eq_star_cons hargs] at hs
          | type u => simp
      | _ => simp

theorem exempt_eq_true_iff {ancestor : Option TypeRef} :
    exempt accept ancestor = true ↔ Exempt (accept · = true) ancestor := by
  cases ancestor with
  | none => simp [exempt, inheritedFromBuiltin, Exempt]
  | some t =>
    simp only [exempt, inheritedFromBuiltin, accepts_pure_eq_true_iff, Exempt, Option.some.injEq,
      exists_eq_left']

theorem overloadedNames_eq_nil_iff {methods : List FunctionDecl} :
    overloadedNames methods = []
      ↔ methods.Pairwise fun f g => f.name.shortName ≠ g.name.shortName := by
  have hcount : overloadedNames methods = []
      ↔ ∀ n, (methods.map fun f => f.name.shortName).count n ≤ 1 := by
    simp only [overloadedNames, List.filter_eq_nil_iff, List.mem_eraseDups, decide_eq_true_eq,
      Nat.not_lt]
    constructor
    · intro h n
      by_cases hn : n ∈ methods.map fun f => f.name.shortName
      · exact h n hn
      · rw [List.count_eq_zero_of_not_mem hn]
        exact Nat.zero_le 1
    · intro h n _
      exact h n
  rw [hcount, ← List.nodup_iff_count, List.Nodup, List.pairwise_map]

theorem classFlag_eq_none_iff {h : ClassHeader} :
    classFlag h = none ↔
      h.modifiers.expect = false ∧ h.modifiers.external = false ∧ h.modifiers.value = false ∧
        h.modifiers.inline = false ∧ h.kind ≠ .annotationClass ∧
        h.modifiers.anonymous = false := by
  unfold classFlag
  constructor
  · intro hnone
    split at hnone
    · cases hnone
    split at hnone
    · cases hnone
    split at hnone
    · cases hnone
    split at hnone
    · cases hnone
    split at hnone
    · cases hnone
    rename_i he hx hv hk ha
    simp only [Bool.or_eq_true, not_or, Bool.not_eq_true] at he hx hv ha
    exact ⟨he, hx, hv.1, hv.2, hk, ha⟩
  · rintro ⟨he, hx, hv, hi, hk, ha⟩
    simp [he, hx, hv, hi, hk, ha]

theorem classGate_eq_none_iff {h : ClassHeader} :
    classGate h = none ↔
      (h.kind = .enumClass ∨ h.modifiers.expect = false ∧ h.modifiers.external = false ∧
        h.modifiers.value = false ∧ h.modifiers.inline = false ∧ h.kind ≠ .annotationClass ∧
        h.modifiers.anonymous = false) ∧ h.visibility = .pub := by
  rw [← classFlag_eq_none_iff]
  unfold classGate
  by_cases hk : h.kind = .enumClass
  · simp [hk]
  · cases hf : classFlag h with
    | none => simp [hk]
    | some flag => simp [hk]

theorem isPublic_iff {v : Visibility} : isPublic v = true ↔ v = .pub := by
  simp [isPublic]

theorem not_exempt_iff {ancestor : Option TypeRef} :
    (!exempt accept ancestor) = true ↔ ¬ Exempt (accept · = true) ancestor := by
  rw [← exempt_eq_true_iff]
  simp

theorem mem_publicConstructors {c : ClassDecl} {k : ConstructorDecl} :
    k ∈ publicConstructors c ↔ k ∈ c.constructors ∧ k.visibility = .pub := by
  rw [publicConstructors, List.mem_filter, isPublic_iff]

theorem mem_ownProperties {c : ClassDecl} {p : PropertyDecl} :
    p ∈ ownProperties accept c ↔
      (p ∈ c.properties ∧ p.visibility = .pub) ∧ ¬ Exempt (accept · = true) p.inheritedFrom := by
  rw [ownProperties, List.mem_filter, List.mem_filter, isPublic_iff, not_exempt_iff]

theorem mem_ownMethods {c : ClassDecl} {f : FunctionDecl} :
    f ∈ ownMethods accept c ↔
      (f ∈ c.methods ∧ f.visibility = .pub) ∧ ¬ Exempt (accept · = true) f.inheritedFrom := by
  rw [ownMethods, List.mem_filter, List.mem_filter, isPublic_iff, not_exempt_iff]

theorem overloadedNames_ownMethods_eq_nil_iff {c : ClassDecl} :
    overloadedNames (ownMethods accept c) = [] ↔
      c.methods.Pairwise fun f g => f.visibility = .pub → g.visibility = .pub →
        Exempt (accept · = true) f.inheritedFrom ∨ Exempt (accept · = true) g.inheritedFrom ∨
          f.name.shortName ≠ g.name.shortName := by
  rw [overloadedNames_eq_nil_iff, ownMethods, List.pairwise_filter, List.pairwise_filter]
  simp only [isPublic_iff, not_exempt_iff]
  constructor
  · refine List.Pairwise.imp fun {f g} hfg hf hg => ?_
    by_cases hef : Exempt (accept · = true) f.inheritedFrom
    · exact Or.inl hef
    by_cases heg : Exempt (accept · = true) g.inheritedFrom
    · exact Or.inr (Or.inl heg)
    exact Or.inr (Or.inr (hfg hf hg hef heg))
  · exact List.Pairwise.imp fun {f g} hfg hf hg hef heg =>
      ((hfg hf hg).resolve_left hef).resolve_left heg

/-- **A class has no failing step where it is marked or meets the criterion.** -/
theorem classReasons_eq_nil_iff {options : RuleOptions} {c : ClassDecl} :
    classReasons options accept c = []
      ↔ c.isExported = true ∨ ClassAdmitted options (accept · = true) c := by
  cases hmarked : c.isExported with
  | true => simp [classReasons, hmarked]
  | false =>
    rw [classReasons, hmarked, if_neg (by simp), memberReasons]
    simp only [List.append_eq_nil_iff, Option.toList_eq_nil_iff, offence_map_filter_eq_nil_iff]
    rw [classGate_eq_none_iff, offence_eq_nil_iff, overloadedNames_ownMethods_eq_nil_iff]
    simp only [List.isEmpty_iff, constructorReasons_eq_nil_iff, propertyReasons_eq_nil_iff,
      functionReasons_eq_nil_iff]
    constructor
    · rintro ⟨⟨hflag, hpublic⟩, htypes, hctors, hprops, hmethods, hnames⟩
      refine Or.inr ⟨hflag, hpublic, htypes, ?_, ?_, ?_, hnames⟩
      · exact fun k hk hv => hctors k (mem_publicConstructors.mpr ⟨hk, hv⟩)
      · intro p hp hv
        by_cases he : Exempt (accept · = true) p.inheritedFrom
        · exact Or.inl he
        · exact Or.inr (hprops p (mem_ownProperties.mpr ⟨⟨hp, hv⟩, he⟩))
      · intro f hf hv
        by_cases he : Exempt (accept · = true) f.inheritedFrom
        · exact Or.inl he
        · exact Or.inr (hmethods f (mem_ownMethods.mpr ⟨⟨hf, hv⟩, he⟩))
    · rintro (hm | h)
      · cases hm
      refine ⟨⟨h.unflagged, h.isPublic⟩, h.supertypes, ?_, ?_, ?_, h.distinct⟩
      · intro k hk
        obtain ⟨hmem, hv⟩ := mem_publicConstructors.mp hk
        exact h.constructors k hmem hv
      · intro p hp
        obtain ⟨⟨hmem, hv⟩, he⟩ := mem_ownProperties.mp hp
        exact (h.properties p hmem hv).resolve_left he
      · intro f hf
        obtain ⟨⟨hmem, hv⟩, he⟩ := mem_ownMethods.mp hf
        exact (h.methods f hmem hv).resolve_left he

end Rule

end ExportSurface
