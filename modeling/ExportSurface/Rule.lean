import ExportSurface.Builtin
import ExportSurface.ModuleError
import ExportSurface.Verdict
/-!
# The rules of exportability

When a function, a constructor, a property or a class can be exported, given
an answer to the question which types can. The rules do not say where the
answer comes from: `ask` may look it up, work it out, or be assumed. They only
fix what is asked, in which order, and that the first failing step gives the
reason, with all that is at fault in that step.
-/

namespace ExportSurface

/-- What the rules are told to look at. -/
structure RuleOptions where
  /-- Whether the type of a property's value has to be exportable, and not
  just the receivers of its getter. -/
  checkPropertyTypes : Bool := true
deriving DecidableEq, Repr, Inhabited

namespace Rule

variable {m : Type → Type} [Monad m]

/-! ## Asking about several things -/

/-- Those of a list that are not accepted, in order. -/
def refused (accept : α → m Bool) : List α → m (List α)
  | [] => pure []
  | a :: as => do
    let ok ← accept a
    let rest ← refused accept as
    pure (if ok then rest else a :: rest)

/-- Those of a list that are not exempt and, among them, those that are not
accepted, both in order. -/
def sift (exempt accept : α → m Bool) : List α → m (List α × List α)
  | [] => pure ([], [])
  | a :: as => do
    if ← exempt a then sift exempt accept as
    else do
      let ok ← accept a
      let (own, offending) ← sift exempt accept as
      pure (a :: own, if ok then offending else a :: offending)

/-- The next step where the type is absent or accepted, else a rejection. -/
def unlessRefused (ask : TypeRef → m Bool) (reason : String → Rejection) (type : Option TypeRef)
    (next : m Verdict) : m Verdict :=
  match type with
  | none => next
  | some t => do
    if ← ask t then next else pure (.rejected (reason t.text))

/-! ## Functions and constructors -/

/-- What keeps a callable off the surface whatever its types are. -/
def callableGate (visibility : Visibility) (modifiers : Modifiers) : Option Rejection :=
  if visibility ≠ .pub then some (.notPublic visibility)
  else if modifiers.expect then some (.platform .expect)
  else if modifiers.external then some (.platform .external)
  else if modifiers.inline then some (.platform .inline)
  else none

/-- A parameter at fault. -/
def parameterText (p : ValueParameter) : String := p.name ++ ": " ++ p.type.text

/-- Receivers first, then all parameters. -/
def receiversAndParameters (ask : TypeRef → m Bool) (dispatch extension : Option TypeRef)
    (parameters : List ValueParameter) : m Verdict :=
  unlessRefused ask .dispatchReceiver dispatch <|
    unlessRefused ask .extensionReceiver extension do
      let offending ← refused (fun p => ask p.type) parameters
      pure (.ofOffending .parameters (offending.map parameterText))

/-- A function is public, has its body here and not inlined, and every type
of its signature can be exported. -/
def ofFunction (ask : TypeRef → m Bool) (f : FunctionDecl) : m Verdict :=
  match callableGate f.visibility f.modifiers with
  | some reason => pure (.rejected reason)
  | none =>
    unlessRefused ask .returnType (some f.returnType)
      (receiversAndParameters ask f.dispatchReceiver f.extensionReceiver f.parameters)

/-- A constructor follows the rule of functions, without a return type. -/
def ofConstructor (ask : TypeRef → m Bool) (c : ConstructorDecl) : m Verdict :=
  match callableGate c.visibility c.modifiers with
  | some reason => pure (.rejected reason)
  | none => receiversAndParameters ask c.dispatchReceiver none c.parameters

/-! ## Properties -/

/-- The next step where a getter is absent or its receivers are accepted. -/
def getterReceivers (ask : TypeRef → m Bool) (getter : Option Getter) (next : m Verdict) :
    m Verdict :=
  match getter with
  | none => next
  | some g =>
    unlessRefused ask .dispatchReceiver g.dispatchReceiver
      (unlessRefused ask .extensionReceiver g.extensionReceiver next)

/-- A property has its getter here, and its receivers and, unless the options
say otherwise, its value type can be exported. A property without a type is
an error. -/
def ofProperty [MonadExceptOf ModuleError m] (options : RuleOptions) (ask : TypeRef → m Bool)
    (p : PropertyDecl) : m Verdict :=
  if p.modifiers.expect then pure (.rejected (.platform .expect))
  else if p.modifiers.external then pure (.rejected (.platform .external))
  else
    getterReceivers ask p.getter <|
      match p.valueType with
      | .error e => throw e
      | .ok t =>
        if options.checkPropertyTypes then
          unlessRefused ask .propertyType (some t) (pure .exportable)
        else pure .exportable

/-! ## Classes -/

/-- What keeps a class off the surface by its kind and modifiers. -/
def classFlag (h : ClassHeader) : Option PlatformFlag :=
  if h.modifiers.expect then some .expect
  else if h.modifiers.external then some .external
  else if h.modifiers.value || h.modifiers.inline then some .value
  else if h.kind = .annotationClass then some .annotationClass
  else if h.modifiers.anonymous then some .anonymous
  else none

/-- What keeps a class off the surface whatever its types are. The flags say
nothing about enumerations. -/
def classGate (h : ClassHeader) : Option Rejection :=
  match if h.kind = .enumClass then none else classFlag h with
  | some flag => some (.platform flag)
  | none => if h.visibility ≠ .pub then some (.notPublic h.visibility) else none

/-- Members inherited unchanged from a built-in ancestor are exempt. -/
def inheritedFromBuiltin (ask : TypeRef → m Bool) (ancestor : Option TypeRef) : m Bool :=
  match ancestor with
  | none => pure false
  | some t => Builtin.accepts ask t

/-- The names bound to more than one method, in order of first appearance. -/
def overloadedNames (methods : List FunctionDecl) : List String :=
  let names := methods.map (·.name.shortName)
  names.eraseDups.filter fun n => names.count n > 1

/-- The next step where nothing is at fault, else a rejection. -/
def unlessOffending (reason : List String → Rejection) (offending : List String)
    (next : m Verdict) : m Verdict :=
  match offending with
  | [] => next
  | _ :: _ => pure (.rejected (reason offending))

/-- Whether a member is public. -/
def isPublic (v : Visibility) : Bool := v = .pub

/-- A class can be exported when it is marked already. Otherwise it is public
and nothing else keeps it off the surface, its supertypes can be exported, and
so can its public constructors, its own public properties and its own public
methods, no two of which share a name. -/
def ofClass [MonadExceptOf ModuleError m] (options : RuleOptions) (ask : TypeRef → m Bool)
    (c : ClassDecl) : m Verdict :=
  if c.isExported then pure .exportable
  else
    match classGate c.toClassHeader with
    | some reason => pure (.rejected reason)
    | none => do
      let types ← refused ask c.supertypes
      unlessOffending .supertypes (types.map TypeRef.text) do
      let ctors ← refused (fun k => Verdict.isExportable <$> ofConstructor ask k)
        (c.constructors.filter fun k => isPublic k.visibility)
      unlessOffending .constructors (ctors.map (·.signature c.name)) do
      let (_, properties) ← sift (fun p => inheritedFromBuiltin ask p.inheritedFrom)
        (fun p => Verdict.isExportable <$> ofProperty options ask p)
        (c.properties.filter fun p => isPublic p.visibility)
      unlessOffending .properties (properties.map PropertyDecl.signature) do
      let (own, methods) ← sift (fun f => inheritedFromBuiltin ask f.inheritedFrom)
        (fun f => Verdict.isExportable <$> ofFunction ask f)
        (c.methods.filter fun f => isPublic f.visibility)
      unlessOffending .methods (methods.map FunctionDecl.signature) do
      pure (.ofOffending .overloadedMethods (overloadedNames own))

end Rule

end ExportSurface
