import ExportSurface.Declaration.Basic
/-!
# Declarations — assembling them step by step

A host that assembles declarations names them and adds to them one at a
time. The defaults are those of the source language: public, no modifiers,
`kotlin.Unit` as return type and, for an ordinary class, a public no-argument
primary constructor.

A class under construction (`ClassDraft`) remembers where the members stand
that it made itself. They have the class as dispatch receiver, and since type
parameters may still be added the receiver is filled in only by
`ClassDraft.build`.
-/

namespace ExportSurface

/-- Unnamed parameters, called `p0`, `p1` and so on. -/
def numberedParameters (types : List TypeRef) : List ValueParameter :=
  types.mapIdx fun i t => ⟨s!"p{i}", t⟩

/-! ## Functions -/

namespace FunctionDecl

/-- A public function that returns `kotlin.Unit`. -/
def named (name : QualifiedName) : FunctionDecl :=
  { name, returnType := .plain "kotlin.Unit" }

/-- One more parameter. -/
def addParameter (f : FunctionDecl) (name : String) (type : TypeRef) : FunctionDecl :=
  { f with parameters := f.parameters ++ [⟨name, type⟩] }

/-- The parameters, replaced by numbered ones. -/
def withParameters (f : FunctionDecl) (types : List TypeRef) : FunctionDecl :=
  { f with parameters := numberedParameters types }

/-- One more marker, whether there is one already or not. -/
def addMarker (f : FunctionDecl) : FunctionDecl :=
  { f with annotations := f.annotations ++ [exportMarker] }

end FunctionDecl

/-! ## Properties -/

namespace PropertyDecl

/-- A public read-only property with a getter. -/
def named (name : QualifiedName) (type : TypeRef) : PropertyDecl :=
  { name, getter := some { returnType := type } }

/-- The property with its type on the backing field only. -/
def fieldOnly (p : PropertyDecl) : PropertyDecl :=
  match p.getter with
  | some g => { p with getter := none, backingField := some g.returnType }
  | none => p

/-- The property with neither getter nor backing field. -/
def untyped (p : PropertyDecl) : PropertyDecl :=
  { p with getter := none, backingField := none }

/-- The property with a dispatch receiver on its getter, if it has one. -/
def withDispatchReceiver (p : PropertyDecl) (type : TypeRef) : PropertyDecl :=
  { p with getter := p.getter.map ({ · with dispatchReceiver := some type }) }

/-- The property with an extension receiver on its getter, if it has one. -/
def withExtensionReceiver (p : PropertyDecl) (type : TypeRef) : PropertyDecl :=
  { p with getter := p.getter.map ({ · with extensionReceiver := some type }) }

/-- One more marker, whether there is one already or not. -/
def addMarker (p : PropertyDecl) : PropertyDecl :=
  { p with annotations := p.annotations ++ [exportMarker] }

end PropertyDecl

/-! ## Classes -/

/-- The declaration with a dispatch receiver: a function has it itself, a
property on its getter. Classes and constructors stay as they are. -/
def Declaration.withDispatchReceiver (d : Declaration) (type : TypeRef) : Declaration :=
  match d with
  | .function f => .function { f with dispatchReceiver := some type }
  | .property p => .property (p.withDispatchReceiver type)
  | .classDecl .. | .constructor _ => d

/-- A class under construction. -/
structure ClassDraft where
  header : ClassHeader
  /-- The members in the order they were added. -/
  members : List Declaration := []
  /-- Whether a class without constructors gets one. -/
  defaultConstructor : Bool := true
  /-- The places of the members that await the class as dispatch receiver. -/
  awaiting : List Nat := []
  /-- No place is beyond the members. -/
  awaiting_lt : ∀ i ∈ awaiting, i < members.length := by simp

namespace ClassDraft

/-- An empty public class. -/
def named (name : QualifiedName) : ClassDraft := { header := { name } }

/-- The constructors added so far. -/
def constructors (d : ClassDraft) : List ConstructorDecl :=
  d.members.filterMap Declaration.constructor?

/-- One more member, taken as it is. -/
def add (d : ClassDraft) (m : Declaration) : ClassDraft :=
  { d with
    members := d.members ++ [m]
    awaiting_lt := fun i hi => by
      rw [List.length_append]
      exact Nat.lt_add_right _ (d.awaiting_lt i hi) }

/-- One more member that belongs to instances of the class. -/
def addOwn (d : ClassDraft) (m : Declaration) : ClassDraft :=
  { d with
    members := d.members ++ [m]
    awaiting := d.awaiting ++ [d.members.length]
    awaiting_lt := fun i hi => by
      rw [List.length_append, List.length_singleton, Nat.lt_succ_iff]
      rcases List.mem_append.mp hi with hi | hi
      · exact Nat.le_of_lt (d.awaiting_lt i hi)
      · exact Nat.le_of_eq (List.mem_singleton.mp hi) }

/-- A public read-only property. -/
def property (d : ClassDraft) (name : String) (type : TypeRef) : ClassDraft :=
  d.addOwn (.property (.named (d.header.name.child name) type))

/-- A property inherited unchanged from an ancestor. -/
def inheritedProperty (d : ClassDraft) (name : String) (type ancestor : TypeRef) : ClassDraft :=
  let p := PropertyDecl.named (d.header.name.child name) type
  d.addOwn (.property { p with inheritedFrom := some ancestor })

/-- A public function with numbered parameters, named as a member. -/
def memberFunction (d : ClassDraft) (name : String) (parameters : List TypeRef)
    (returnType : TypeRef) : FunctionDecl :=
  { (FunctionDecl.named (d.header.name.child name)).withParameters parameters with returnType }

/-- A public method with numbered parameters. -/
def method (d : ClassDraft) (name : String) (parameters : List TypeRef)
    (returnType : TypeRef) : ClassDraft :=
  d.addOwn (.function (d.memberFunction name parameters returnType))

/-- A method inherited unchanged from an ancestor. -/
def inheritedMethod (d : ClassDraft) (name : String) (parameters : List TypeRef)
    (returnType ancestor : TypeRef) : ClassDraft :=
  let f := d.memberFunction name parameters returnType
  d.addOwn (.function { f with inheritedFrom := some ancestor })

/-- A constructor with numbered parameters, primary when it is the first. -/
def constructorWith (d : ClassDraft) (visibility : Visibility)
    (parameters : List TypeRef) : ClassDraft :=
  let c : ConstructorDecl :=
    { visibility, primary := d.constructors.isEmpty, parameters := numberedParameters parameters }
  { d.add (.constructor c) with defaultConstructor := false }

/-- The class without a constructor of its own accord. -/
def noDefaultConstructor (d : ClassDraft) : ClassDraft :=
  { d with defaultConstructor := false }

/-- One more type parameter. -/
def typeParameter (d : ClassDraft) (name : String) : ClassDraft :=
  { d with header.typeParameters := d.header.typeParameters ++ [name] }

/-- One more supertype. -/
def supertype (d : ClassDraft) (type : TypeRef) : ClassDraft :=
  { d with header.supertypes := d.header.supertypes ++ [type] }

/-- One more marker, whether there is one already or not. -/
def addMarker (d : ClassDraft) : ClassDraft :=
  { d with header.annotations := d.header.annotations ++ [exportMarker] }

/-- Members with a type filled in as dispatch receiver at one place after another. -/
def fillIn (type : TypeRef) (places : List Nat) (ms : List Declaration) : List Declaration :=
  places.foldl (fun ms i => ms.modify i (·.withDispatchReceiver type)) ms

/-- The members with the dispatch receiver that they await. -/
def filled (d : ClassDraft) (type : TypeRef) : List Declaration :=
  fillIn type d.awaiting d.members

/-- The finished class. An ordinary class to which no constructor was added
starts with a public no-argument primary one, unless that was declined. -/
def build (d : ClassDraft) : ClassDecl :=
  let c : ClassDecl := { d.header with members := d.filled d.header.selfType }
  if d.defaultConstructor && c.kind = .plainClass && c.constructors.isEmpty then
    { c with members := .constructor { primary := true } :: c.members }
  else c

/-! ### Calls -/

/-- A call on a class under construction. -/
inductive Call where
  | kind (kind : ClassKind)
  | visibility (visibility : Visibility)
  | expect
  | external
  | value
  | anonymous
  | addMarker
  | typeParameter (name : String)
  | supertype (type : TypeRef)
  | property (name : String) (type : TypeRef)
  | inheritedProperty (name : String) (type ancestor : TypeRef)
  | method (name : String) (parameters : List TypeRef) (returnType : TypeRef)
  | inheritedMethod (name : String) (parameters : List TypeRef) (returnType ancestor : TypeRef)
  /-- A function all of which is given. -/
  | function (f : FunctionDecl)
  /-- A property all of which is given. -/
  | propertyDecl (p : PropertyDecl)
  | constructorWith (visibility : Visibility) (parameters : List TypeRef)
  | noDefaultConstructor
  /-- A class inside this one. -/
  | nested (c : ClassDecl)

namespace Call

/-- The class is to be an interface. -/
def interface : Call := .kind .interface

/-- The class is to be an object. -/
def object : Call := .kind .object

/-- The class is to be an enumeration. -/
def enumClass : Call := .kind .enumClass

/-- The class is to be an annotation. -/
def annotationClass : Call := .kind .annotationClass

/-- The class is to be private. -/
def makePrivate : Call := .visibility .priv

/-- A public constructor. -/
def constructor (parameters : List TypeRef) : Call := .constructorWith .pub parameters

end Call

/-- The class under construction after a call. -/
def afterCall (d : ClassDraft) : Call → ClassDraft
  | .kind kind => { d with header.kind := kind }
  | .visibility visibility => { d with header.visibility := visibility }
  | .expect => { d with header.modifiers.expect := true }
  | .external => { d with header.modifiers.external := true }
  | .value => { d with header.modifiers.value := true }
  | .anonymous => { d with header.modifiers.anonymous := true }
  | .addMarker => d.addMarker
  | .typeParameter name => d.typeParameter name
  | .supertype type => d.supertype type
  | .property name type => d.property name type
  | .inheritedProperty name type ancestor => d.inheritedProperty name type ancestor
  | .method name parameters returnType => d.method name parameters returnType
  | .inheritedMethod name parameters returnType ancestor =>
    d.inheritedMethod name parameters returnType ancestor
  | .function f => d.add (.function f)
  | .propertyDecl p => d.add (.property p)
  | .constructorWith visibility parameters => d.constructorWith visibility parameters
  | .noDefaultConstructor => d.noDefaultConstructor
  | .nested c => d.add c.toDeclaration

/-- The class under construction after calls one after another. -/
def afterCalls (d : ClassDraft) (calls : List Call) : ClassDraft := calls.foldl afterCall d

end ClassDraft

end ExportSurface
