import ExportSurface.Proofs.Rulings
import ExportSurface.Proofs.TypeTree
/-!
# Nullability erased in declarations

The erasure of a declaration, and of a module, is the same with the nullability of
every type in it erased at every level: signatures, receivers, getters, backing
fields, supertypes and the ancestors that members are inherited from. Modules of one
erasure (`m.erased = m'.erased`) are those that differ in nullable marks alone.
Classes, members, places and candidates of an erasure are the erasures of those of
the module (`SourceModule.allClasses_erased`, `SourceModule.candidates_erased`).
-/

namespace ExportSurface

/-! ## Erasures -/

/-- The parameter with its nullability erased. -/
def ValueParameter.erased (p : ValueParameter) : ValueParameter :=
  { p with type := p.type.erased }

/-- The function with its nullability erased. -/
def FunctionDecl.erased (f : FunctionDecl) : FunctionDecl :=
  { f with
    returnType := f.returnType.erased
    parameters := f.parameters.map ValueParameter.erased
    dispatchReceiver := f.dispatchReceiver.map TypeRef.erased
    extensionReceiver := f.extensionReceiver.map TypeRef.erased
    inheritedFrom := f.inheritedFrom.map TypeRef.erased }

/-- The constructor with its nullability erased. -/
def ConstructorDecl.erased (c : ConstructorDecl) : ConstructorDecl :=
  { c with
    parameters := c.parameters.map ValueParameter.erased
    dispatchReceiver := c.dispatchReceiver.map TypeRef.erased }

/-- The getter with its nullability erased. -/
def Getter.erased (g : Getter) : Getter where
  returnType := g.returnType.erased
  dispatchReceiver := g.dispatchReceiver.map TypeRef.erased
  extensionReceiver := g.extensionReceiver.map TypeRef.erased

/-- The property with its nullability erased. -/
def PropertyDecl.erased (p : PropertyDecl) : PropertyDecl :=
  { p with
    getter := p.getter.map Getter.erased
    backingField := p.backingField.map TypeRef.erased
    inheritedFrom := p.inheritedFrom.map TypeRef.erased }

/-- The header with its nullability erased. -/
def ClassHeader.erased (h : ClassHeader) : ClassHeader :=
  { h with supertypes := h.supertypes.map TypeRef.erased }

mutual

/-- The declaration with its nullability erased. -/
def Declaration.erased : Declaration → Declaration
  | .classDecl h ms => .classDecl h.erased (Declaration.erasedAll ms)
  | .function f => .function f.erased
  | .property p => .property p.erased
  | .constructor c => .constructor c.erased

/-- The declarations with their nullability erased. -/
def Declaration.erasedAll : List Declaration → List Declaration
  | [] => []
  | d :: ds => d.erased :: Declaration.erasedAll ds

end

/-- The class with its nullability erased. -/
def ClassDecl.erased (c : ClassDecl) : ClassDecl :=
  ⟨c.toClassHeader.erased, Declaration.erasedAll c.members⟩

/-- The file with its nullability erased. -/
def SourceFile.erased (file : SourceFile) : SourceFile :=
  { file with declarations := Declaration.erasedAll file.declarations }

/-- The module with its nullability erased. -/
def SourceModule.erased (m : SourceModule) : SourceModule :=
  { m with
    files := m.files.map SourceFile.erased
    dependencies := m.dependencies.map ClassDecl.erased }

/-- The candidate with its nullability erased. -/
def Candidate.erased : Candidate → Candidate
  | .ofClass c => .ofClass c.erased
  | .ofFunction f => .ofFunction f.erased
  | .ofProperty p => .ofProperty p.erased

/-! ## What an erasure consists of -/

theorem Declaration.erasedAll_eq_map (ds : List Declaration) :
    erasedAll ds = ds.map erased := by
  induction ds with
  | nil => rfl
  | cons d ds ih => rw [erasedAll, ih, List.map_cons]

/-- What is collected from an erasure is what is collected, erased. -/
theorem Declaration.filterMap_erasedAll {α : Type} {f : Declaration → Option α} {g : α → α}
    (h : ∀ d : Declaration, f d.erased = (f d).map g) (ds : List Declaration) :
    (erasedAll ds).filterMap f = (ds.filterMap f).map g := by
  rw [erasedAll_eq_map, List.filterMap_map, List.map_filterMap]
  exact List.filterMap_congr fun d _ => h d

namespace ClassDecl

variable (c : ClassDecl)

theorem constructors_erased : c.erased.constructors = c.constructors.map ConstructorDecl.erased :=
  Declaration.filterMap_erasedAll (fun d => by cases d <;> rfl) _

theorem properties_erased : c.erased.properties = c.properties.map PropertyDecl.erased :=
  Declaration.filterMap_erasedAll (fun d => by cases d <;> rfl) _

theorem methods_erased : c.erased.methods = c.methods.map FunctionDecl.erased :=
  Declaration.filterMap_erasedAll (fun d => by cases d <;> rfl) _

end ClassDecl

namespace Declaration

mutual

theorem classes_erased (d : Declaration) : d.erased.classes = d.classes.map ClassDecl.erased := by
  cases d with
  | classDecl h ms =>
    rw [erased, classes, classes, classesIn_erasedAll ms, List.map_cons]
    rfl
  | function f => rfl
  | property p => rfl
  | constructor c => rfl

theorem classesIn_erasedAll (ds : List Declaration) :
    classesIn (erasedAll ds) = (classesIn ds).map ClassDecl.erased := by
  cases ds with
  | nil => rfl
  | cons d ds =>
    rw [erasedAll, classesIn, classesIn, classes_erased d, classesIn_erasedAll ds, List.map_append]

end

mutual

theorem walkFrom_erased (here : List Nat) (d : Declaration) :
    walkFrom here d.erased = (walkFrom here d).map fun x => (x.1, x.2.erased) := by
  cases d with
  | classDecl h ms =>
    rw [erased, walkFrom, walkFrom, walkSiblings_erasedAll here 0 ms, List.map_cons, erased]
  | function f => rfl
  | property p => rfl
  | constructor c => rfl

theorem walkSiblings_erasedAll (parent : List Nat) (i : Nat) (ds : List Declaration) :
    walkSiblings parent i (erasedAll ds)
      = (walkSiblings parent i ds).map fun x => (x.1, x.2.erased) := by
  cases ds with
  | nil => rfl
  | cons d ds =>
    rw [erasedAll, walkSiblings, walkSiblings, walkFrom_erased _ d,
      walkSiblings_erasedAll parent (i + 1) ds, List.map_append]

end

end Declaration

theorem Candidate.of?_erased (topLevel : Bool) (d : Declaration) :
    of? topLevel d.erased = (of? topLevel d).map erased := by
  cases d with
  | classDecl h ms => rfl
  | function f => cases topLevel <;> rfl
  | property p => cases topLevel <;> rfl
  | constructor c => rfl

namespace SourceModule

variable (m : SourceModule)

/-- **The classes of an erasure** are the erasures of the classes. -/
theorem allClasses_erased : m.erased.allClasses = m.allClasses.map ClassDecl.erased := by
  rw [allClasses, allClasses, List.map_append, List.map_flatMap, List.map_flatMap]
  simp only [erased, List.flatMap_map, SourceFile.erased, Declaration.classesIn_erasedAll]
  congr 1
  exact List.flatMap_congr fun c _ => Declaration.classes_erased c.toDeclaration

theorem walk_erased : m.erased.walk = m.walk.map fun x => (x.1, x.2.erased) := by
  rw [walk, walk, List.map_flatten]
  refine congrArg List.flatten (List.ext_getElem? fun n => ?_)
  simp only [erased, List.getElem?_map, List.getElem?_mapIdx, Option.map_map]
  refine congrArg (Option.map · _) (funext fun file => ?_)
  simp [SourceFile.erased, Declaration.walkSiblings_erasedAll]

/-- **The candidates of an erasure** are the erasures of the candidates, at their
places. -/
theorem candidates_erased :
    m.erased.candidates = m.candidates.map fun x => (x.1, x.2.erased) := by
  rw [candidates, candidates, walk_erased, List.filterMap_map, List.map_filterMap]
  refine List.filterMap_congr fun x _ => ?_
  rw [Function.comp_apply, Candidate.ofWalked, Candidate.ofWalked, Candidate.of?_erased,
    Option.map_map, Option.map_map]
  rfl

end SourceModule

end ExportSurface
