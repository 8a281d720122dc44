import ExportSurface.Declaration.Basic
/-!
# Source modules

One compilation unit: its source files and the classes it refers to from
elsewhere. A declaration inside it is found in three ways, by walking the
files, by its path and, for a class, by its name.

* `SourceModule.walk` lists every declaration with its path, parents before
  children, in declaration order.
* `SourceModule.find?` follows a path, `SourceModule.adjustAt?` changes what it
  finds there, and `SourceModule.markAt?` marks it.
* `SourceModule.classNamed?` is the last class of that name in the order
  `SourceModule.allClasses`, so the module's own classes shadow those of its
  dependencies. `SourceModule.classIndex` has them all under their names.
-/

namespace ExportSurface

/-- A source file with its top-level declarations. -/
structure SourceFile where
  path : String
  package : String := ""
  declarations : List Declaration := []
deriving DecidableEq, Inhabited

/-- A compilation unit. -/
structure SourceModule where
  name : String
  files : List SourceFile := []
  /-- Classes of other modules, there to be looked up and never marked. -/
  dependencies : List ClassDecl := []
deriving DecidableEq, Inhabited

/-- The place of a declaration: the number of its file and, from the top
level inwards, its number among its siblings. -/
structure TreePath where
  file : Nat
  indices : List Nat
deriving DecidableEq, Repr, Inhabited

namespace TreePath

/-- Whether the place is directly in a file. -/
def isTopLevel (p : TreePath) : Bool := p.indices.length == 1

/-- `file#N/I/J`. -/
def text (p : TreePath) : String :=
  p.indices.foldl (fun s i => s ++ "/" ++ toString i) ("file#" ++ toString p.file)

instance : ToString TreePath := ⟨text⟩

end TreePath

/-! ## Walking -/

mutual

/-- A declaration and all that is inside it, each with its indices, given the
indices of the declaration itself. -/
def Declaration.walkFrom (here : List Nat) : Declaration → List (List Nat × Declaration)
  | .classDecl h ms => (here, .classDecl h ms) :: Declaration.walkSiblings here 0 ms
  | .function f => [(here, .function f)]
  | .property p => [(here, .property p)]
  | .constructor c => [(here, .constructor c)]

/-- The siblings from number `i` on and all that is inside them, given the
indices of their parent. -/
def Declaration.walkSiblings (parent : List Nat) (i : Nat) :
    List Declaration → List (List Nat × Declaration)
  | [] => []
  | d :: ds =>
    Declaration.walkFrom (parent ++ [i]) d ++ Declaration.walkSiblings parent (i + 1) ds

end

namespace SourceModule

/-- Every declaration of the module with its path, parents before children,
in declaration order. -/
def walk (m : SourceModule) : List (TreePath × Declaration) :=
  (m.files.mapIdx fun n file =>
    (Declaration.walkSiblings [] 0 file.declarations).map fun (is, d) => (⟨n, is⟩, d)).flatten

/-- The names of the declarations that carry the export marker, in the order
of the walk. -/
def exportedNames (m : SourceModule) : List QualifiedName :=
  m.walk.filterMap fun (_, d) => if d.isExported then d.name? else none

end SourceModule

/-! ## Paths -/

namespace Declaration

/-- The declaration that the indices lead to, from a list of siblings. -/
def follow? : List Nat → List Declaration → Option Declaration
  | [], _ => none
  | [i], ds => ds[i]?
  | i :: j :: is, ds => do
    match ← ds[i]? with
    | .classDecl _ ms => follow? (j :: is) ms
    | _ => none

/-- The siblings with the declaration that the indices lead to replaced. -/
def adjust? (f : Declaration → Declaration) :
    List Nat → List Declaration → Option (List Declaration)
  | [], _ => none
  | [i], ds => do
    let d ← ds[i]?
    return ds.set i (f d)
  | i :: j :: is, ds => do
    match ← ds[i]? with
    | .classDecl h ms => return ds.set i (.classDecl h (← adjust? f (j :: is) ms))
    | _ => none

end Declaration

namespace SourceModule

/-- The declaration at a path. -/
def find? (m : SourceModule) (p : TreePath) : Option Declaration := do
  let file ← m.files[p.file]?
  Declaration.follow? p.indices file.declarations

/-- The module with the declaration at a path changed; none when the path
leads nowhere. -/
def adjustAt? (m : SourceModule) (f : Declaration → Declaration) (p : TreePath) :
    Option SourceModule := do
  let file ← m.files[p.file]?
  let ds ← Declaration.adjust? f p.indices file.declarations
  return { m with files := m.files.set p.file { file with declarations := ds } }

/-- The module with the declaration at a path marked. -/
def markAt? (m : SourceModule) (p : TreePath) : Option SourceModule :=
  m.adjustAt? Declaration.markExported p

end SourceModule

/-! ## Classes by name -/

mutual

/-- The class a declaration is, followed by all classes nested in it. -/
def Declaration.classes : Declaration → List ClassDecl
  | .classDecl h ms => ⟨h, ms⟩ :: Declaration.classesIn ms
  | .function _ => []
  | .property _ => []
  | .constructor _ => []

/-- The classes among the declarations, each followed by those nested in it. -/
def Declaration.classesIn : List Declaration → List ClassDecl
  | [] => []
  | d :: ds => d.classes ++ Declaration.classesIn ds

end

namespace SourceModule

/-- The classes of the dependencies and then those of the module, each
followed by the classes nested in it. -/
def allClasses (m : SourceModule) : List ClassDecl :=
  m.dependencies.flatMap (fun c => c.toDeclaration.classes)
    ++ m.files.flatMap (fun file => Declaration.classesIn file.declarations)

end SourceModule

/-- Classes under their names, one under each. -/
structure ClassIndex where
  classes : List ClassDecl := []
  distinct : (classes.map (·.name)).Nodup := by simp

namespace ClassIndex

/-- The class under a name. -/
def get? (x : ClassIndex) (name : QualifiedName) : Option ClassDecl :=
  x.classes.find? (·.name = name)

/-- The number of names with a class. -/
def size (x : ClassIndex) : Nat := x.classes.length

/-- The index with a class put under its name, in place of the one that is there. -/
def insert (x : ClassIndex) (c : ClassDecl) : ClassIndex where
  classes := c :: x.classes.filter (·.name ≠ c.name)
  distinct := by
    refine List.nodup_cons.mpr ⟨fun hmem => ?_, x.distinct.sublist (List.filter_sublist.map _)⟩
    obtain ⟨d, hd, heq⟩ := List.mem_map.mp hmem
    exact of_decide_eq_true (List.mem_filter.mp hd).2 heq

mutual

/-- The index with the class that a declaration is, and all classes nested in it. -/
def enter (x : ClassIndex) : Declaration → ClassIndex
  | .classDecl h ms => enterAll (x.insert ⟨h, ms⟩) ms
  | .function _ => x
  | .property _ => x
  | .constructor _ => x

/-- The index with the classes among the declarations, and those nested in them. -/
def enterAll (x : ClassIndex) : List Declaration → ClassIndex
  | [] => x
  | d :: ds => enterAll (enter x d) ds

end

end ClassIndex

/-- The classes of the dependencies and those of the module under their names. -/
def SourceModule.classIndex (m : SourceModule) : ClassIndex :=
  m.files.foldl (fun x file => x.enterAll file.declarations)
    (m.dependencies.foldl (fun x c => x.enter c.toDeclaration) {})

/-- The number of different class names. -/
def SourceModule.classCount (m : SourceModule) : Nat := m.classIndex.size

end ExportSurface
