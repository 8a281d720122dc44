import ExportSurface.Memo
import ExportSurface.Rule
/-!
# The evaluator

Works out which types and declarations of a module can be exported, in a
session that remembers the answers about classes and types. Before a class or
a class type is examined its memo entry is set in flight, so a class whose
members mention the class itself does not stand in its own way.

How deep the evaluation goes is bounded beforehand (`Evaluator.bound`): a
type is examined inside another only if its key is not in flight, or if it is
a part of the other.
-/

namespace ExportSurface

/-! ## What a declaration mentions -/

mutual

/-- The number of types in a type, itself included. -/
def TypeRef.size : TypeRef → Nat
  | .named _ args _ => TypeArgument.sizes args + 1
  | .parameter _ bounds _ => TypeRef.sizes bounds + 1
  | .dynamic => 1

/-- The number of types in an argument. -/
def TypeArgument.size : TypeArgument → Nat
  | .star => 0
  | .type t => t.size

/-- The number of types in a list of types. -/
def TypeRef.sizes : List TypeRef → Nat
  | [] => 0
  | t :: ts => t.size + TypeRef.sizes ts

/-- The number of types in a list of arguments. -/
def TypeArgument.sizes : List TypeArgument → Nat
  | [] => 0
  | a :: as => a.size + TypeArgument.sizes as

end

/-- The types a function mentions. -/
def FunctionDecl.types (f : FunctionDecl) : List TypeRef :=
  f.returnType :: f.dispatchReceiver.toList ++ f.extensionReceiver.toList
    ++ f.parameters.map (·.type) ++ f.inheritedFrom.toList

/-- The types a constructor mentions. -/
def ConstructorDecl.types (c : ConstructorDecl) : List TypeRef :=
  c.dispatchReceiver.toList ++ c.parameters.map (·.type)

/-- The types a getter mentions. -/
def Getter.types (g : Getter) : List TypeRef :=
  g.returnType :: g.dispatchReceiver.toList ++ g.extensionReceiver.toList

/-- The types a property mentions. -/
def PropertyDecl.types (p : PropertyDecl) : List TypeRef :=
  p.getter.toList.flatMap Getter.types ++ p.backingField.toList ++ p.inheritedFrom.toList

/-- The types a class mentions, those of nested classes apart. -/
def ClassDecl.types (c : ClassDecl) : List TypeRef :=
  c.supertypes ++ c.constructors.flatMap ConstructorDecl.types
    ++ c.properties.flatMap PropertyDecl.types ++ c.methods.flatMap FunctionDecl.types

/-! ## Sessions -/

/-- What an evaluator remembers. -/
structure Session where
  memo : Memo := {}
  /-- The verdicts on the classes whose answers were kept, the last one first. -/
  verdicts : List (QualifiedName × Verdict) := []
deriving Inhabited

/-- A question put in a session, which goes on whether the question has an
answer or fails. -/
abbrev Query := ExceptT ModuleError (StateM Session)

namespace Query

/-- Puts the question, from a session on. -/
def ask (q : Query α) (s : Session) : Except ModuleError α × Session :=
  (ExceptT.run q).run s

/-- What a question has for an answer, be it a failure. -/
def outcome (q : Query α) : Query (Except ModuleError α) :=
  ExceptT.mk do
    let r ← ExceptT.run q
    pure (.ok r)

/-- Looks a key up in the memo. -/
def lookup (key : MemoKey) : Query (Option Bool) :=
  modifyGet fun s =>
    let (answer, memo) := s.memo.lookup key
    (answer, { s with memo })

/-- Opens an evaluation in the memo. -/
def begin (key : MemoKey) : Query Unit :=
  modify fun s => { s with memo := s.memo.begin key }

/-- Closes an evaluation in the memo, and tells whether the answer was kept. -/
def resolve (key : MemoKey) (answer : Bool) : Query Bool :=
  modifyGet fun s =>
    let (kept, memo) := s.memo.resolve key answer
    (kept, { s with memo })

/-- Remembers the verdict on a class. -/
def remember (name : QualifiedName) (verdict : Verdict) : Query Unit :=
  modify fun s => { s with verdicts := (name, verdict) :: s.verdicts }

end Query

/-! ## The evaluator -/

/-- What an evaluation looks things up in. -/
structure Evaluator where
  /-- All classes, those that shadow others of their name first. -/
  classes : List ClassDecl
  options : RuleOptions := {}

namespace Evaluator

/-- An evaluator of a module's classes. -/
def ofModule (m : SourceModule) (options : RuleOptions) : Evaluator where
  classes := m.allClasses.reverse
  options

/-- The class of a name. -/
def classNamed? (e : Evaluator) (name : QualifiedName) : Option ClassDecl :=
  e.classes.find? (·.name = name)

variable (e : Evaluator)

/-- The memoised rule of classes. Only a kept answer leaves its verdict behind. -/
def examineClass (ask : TypeRef → Query Bool) (c : ClassDecl) : Query Bool := do
  let key := MemoKey.ofClass c.name.text
  match ← Query.lookup key with
  | some answer => pure answer
  | none => do
    Query.begin key
    match ← Query.outcome (Rule.ofClass e.options ask c) with
    | .error failure => do
      let _ ← Query.resolve key false
      throw failure
    | .ok verdict => do
      if ← Query.resolve key verdict.isExportable then
        Query.remember c.name verdict
      pure verdict.isExportable

/-- A class type: built in, or of a class that is marked or can be exported. -/
def examineNamed (ask : TypeRef → Query Bool) (t : TypeRef) : Query Bool :=
  if (Builtin.ofType? t).isSome then Builtin.accepts ask t
  else
    match t.className?.bind e.classNamed? with
    | none => pure false
    | some c => if c.isExported then pure true else examineClass e ask c

/-- Whether all types of a list are accepted, asking no further than needed. -/
def allAccepted (ask : TypeRef → Query Bool) : List TypeRef → Query Bool
  | [] => pure true
  | t :: ts => do
    if ← ask t then allAccepted ask ts else pure false

/-- One step of the question whether a type can be exported: a star projection
rules it out, `dynamic` is accepted, a type parameter needs all its bounds, and
the answer on a class type is remembered. -/
def examineType (ask : TypeRef → Query Bool) (t : TypeRef) : Query Bool :=
  if t.hasStar then pure false
  else
    match t with
    | .dynamic => pure true
    | .parameter _ bounds _ => allAccepted ask bounds
    | .named .. => do
      let key := MemoKey.ofType t.key
      match ← Query.lookup key with
      | some answer => pure answer
      | none => do
        Query.begin key
        match ← Query.outcome (examineNamed e ask t) with
        | .error failure => do
          let _ ← Query.resolve key false
          throw failure
        | .ok answer => do
          let _ ← Query.resolve key answer
          pure answer

/-- Whether a type can be exported, with at most `depth` types examined one
inside another. -/
def typeWithin : Nat → TypeRef → Query Bool
  | 0, _ => pure false
  | depth + 1, t => examineType e (typeWithin depth) t

/-- How many types may be examined one inside another, starting from types
that are not the evaluator's own: for each of the keys that can be in flight,
at most all types that stand inside one another. -/
def bound (types : List TypeRef) : Nat :=
  let n := TypeRef.sizes (e.classes.flatMap ClassDecl.types ++ types)
  (n + 1) * (n + 1)

/-! ## Questions -/

/-- Whether a type can be exported. -/
def typeExportable (t : TypeRef) : Query Bool :=
  typeWithin e (e.bound [t]) t

/-- Whether a class can be exported. -/
def classExportable (c : ClassDecl) : Query Bool :=
  examineClass e (typeWithin e (e.bound c.types)) c

/-- The verdict on a class. One still in flight counts as exportable. -/
def classVerdict (c : ClassDecl) : Query Verdict := do
  let _ ← classExportable e c
  let s ← get
  pure ((s.verdicts.lookup c.name).getD .exportable)

/-- The verdict on a function. -/
def functionVerdict (f : FunctionDecl) : Query Verdict :=
  Rule.ofFunction (typeWithin e (e.bound f.types)) f

/-- The verdict on a constructor. -/
def constructorVerdict (c : ConstructorDecl) : Query Verdict :=
  Rule.ofConstructor (typeWithin e (e.bound c.types)) c

/-- The verdict on a property. -/
def propertyVerdict (p : PropertyDecl) : Query Verdict :=
  Rule.ofProperty e.options (typeWithin e (e.bound p.types)) p

/-- The verdict on a declaration by the rule for its kind. -/
def verdict : Declaration → Query Verdict
  | .classDecl h ms => classVerdict e ⟨h, ms⟩
  | .function f => functionVerdict e f
  | .property p => propertyVerdict e p
  | .constructor c => constructorVerdict e c

end Evaluator

end ExportSurface
