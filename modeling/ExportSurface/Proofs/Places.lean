import ExportSurface.Proofs.Judgement
import Mathlib.Data.List.Infix
/-!
# The places of a module

Where a declaration stands in a module is said by itself, on the tree of
declarations (`SourceModule.Holds`). The walk lists every place once, parents
before what is inside them (`SourceModule.mem_walk_iff_holds`,
`SourceModule.pairwise_walk`), and a path is followed to what stands there
(`SourceModule.find?_eq_some_iff`). What is changed at a path is the declaration
that stands there and no other, and where none does, nothing is
(`SourceModule.adjustAt_cases`). The index is filled class by class, a later
class in place of an earlier one of its name, so it has the last of all classes
under each name (`SourceModule.get?_classIndex`).
-/

namespace ExportSurface

/-! ## Standing at indices -/

namespace Declaration

/-- A declaration stands at indices among siblings: it is one of them, or it
stands inside a class that is. -/
inductive StandsAt : List Declaration → List Nat → Declaration → Prop
  | here {ds : List Declaration} {i : Nat} {d : Declaration} :
    ds[i]? = some d → StandsAt ds [i] d
  | inside {ds : List Declaration} {i : Nat} {h : ClassHeader} {ms : List Declaration}
    {is : List Nat} {d : Declaration} :
    ds[i]? = some (.classDecl h ms) → StandsAt ms is d → StandsAt ds (i :: is) d

variable {d d' x : Declaration} {ds ds' ms : List Declaration} {h : ClassHeader} {i k : Nat}
  {is js rest parent : List Nat} {f : Declaration → Declaration}

theorem StandsAt.ne_nil (hd : StandsAt ds is d) : is ≠ [] := by
  cases hd with
  | here _ => exact List.cons_ne_nil _ _
  | inside _ _ => exact List.cons_ne_nil _ _

theorem standsAt_singleton_iff : StandsAt ds [k] d ↔ ds[k]? = some d := by
  constructor
  · intro hd
    cases hd with
    | here hk => exact hk
    | inside _ hd => exact absurd rfl hd.ne_nil
  · exact .here

theorem standsAt_cons_iff (hrest : rest ≠ []) : StandsAt ds (k :: rest) d ↔
    ∃ h ms, ds[k]? = some (.classDecl h ms) ∧ StandsAt ms rest d := by
  constructor
  · intro hd
    cases hd with
    | here _ => exact absurd rfl hrest
    | inside hk hd => exact ⟨_, _, hk, hd⟩
  · rintro ⟨h, ms, hk, hd⟩
    exact .inside hk hd

theorem standsAt_cons_of_class (hk : ds[k]? = some (.classDecl h ms)) (hrest : rest ≠ []) :
    StandsAt ds (k :: rest) d ↔ StandsAt ms rest d := by
  rw [standsAt_cons_iff hrest]
  constructor
  · rintro ⟨h', ms', hk', hd⟩
    cases hk.symm.trans hk'
    exact hd
  · exact fun hd => ⟨h, ms, hk, hd⟩

/-- What stands at indices hangs on the sibling that they begin with. -/
theorem standsAt_congr (hk : ds'[k]? = ds[k]?) :
    StandsAt ds' (k :: rest) d ↔ StandsAt ds (k :: rest) d := by
  by_cases hrest : rest = []
  · rw [hrest, standsAt_singleton_iff, standsAt_singleton_iff, hk]
  · rw [standsAt_cons_iff hrest, standsAt_cons_iff hrest, hk]

/-- **Indices are followed to what stands there.** -/
theorem follow?_eq_some_iff : follow? is ds = some d ↔ StandsAt ds is d := by
  induction is generalizing ds with
  | nil => exact iff_of_false nofun fun hd => hd.ne_nil rfl
  | cons k rest ih =>
    by_cases hrest : rest = []
    · rw [hrest, follow?_singleton, standsAt_singleton_iff]
    · rw [standsAt_cons_iff hrest]
      constructor
      · intro hd
        obtain ⟨h, ms, hk, hd⟩ := exists_class_of_follow? hrest hd
        exact ⟨h, ms, hk, ih.mp hd⟩
      · rintro ⟨h, ms, hk, hd⟩
        rw [follow?_cons_of_class hk hrest]
        exact ih.mpr hd

/-! ## The walk -/

theorem mem_walkFrom_self (here : List Nat) (d : Declaration) : (here, d) ∈ walkFrom here d := by
  cases d with
  | classDecl header ms => exact List.mem_cons_self
  | function f => exact List.mem_cons_self
  | property p => exact List.mem_cons_self
  | constructor c => exact List.mem_cons_self

/-- What is listed of a sibling is listed of them all. -/
theorem mem_walkSiblings_of_getElem? {entry : List Nat × Declaration} (hk : ds[k]? = some d)
    (hentry : entry ∈ walkFrom (parent ++ [i + k]) d) : entry ∈ walkSiblings parent i ds := by
  induction ds generalizing i k with
  | nil => cases hk
  | cons d₀ ds ih =>
    rw [walkSiblings]
    cases k with
    | zero =>
      cases hk
      exact List.mem_append_left _ hentry
    | succ k =>
      rw [show i + (k + 1) = i + 1 + k by omega] at hentry
      exact List.mem_append_right _ (ih hk hentry)

theorem StandsAt.mem_walkSiblings (hd : StandsAt ds is d) (parent : List Nat) :
    (parent ++ is, d) ∈ walkSiblings parent 0 ds := by
  induction hd generalizing parent with
  | @here ds i d hi =>
    refine mem_walkSiblings_of_getElem? hi ?_
    rw [Nat.zero_add]
    exact mem_walkFrom_self _ d
  | @inside ds i h ms is d hi _ ih =>
    refine mem_walkSiblings_of_getElem? hi ?_
    rw [Nat.zero_add, walkFrom]
    refine List.mem_cons_of_mem _ ?_
    have hin := ih (parent ++ [i])
    rwa [List.append_assoc, List.singleton_append] at hin

/-- **The walk lists what stands somewhere.** -/
theorem mem_walkSiblings_iff : (is, d) ∈ walkSiblings [] 0 ds ↔ StandsAt ds is d := by
  constructor
  · intro hmem
    obtain ⟨k, rest, his, hd⟩ := Declaration.mem_walkSiblings hmem
    rw [List.nil_append, Nat.zero_add] at his
    exact follow?_eq_some_iff.mp (his ▸ hd)
  · exact fun hd => hd.mem_walkSiblings []

/-! ## Changing one declaration -/

/-- A declaration in place of the one at the indices, and nothing else: what
stands apart from it stays, and so do the headers of the classes around it. -/
structure Replaced (ds ds' : List Declaration) (is : List Nat) (d' : Declaration) : Prop where
  there : StandsAt ds' is d'
  apart : ∀ {js x}, ¬ js <+: is → ¬ is <+: js → (StandsAt ds' js x ↔ StandsAt ds js x)
  around : ∀ {js h}, js <+: is → js ≠ is →
    ((∃ ms, StandsAt ds' js (.classDecl h ms)) ↔ ∃ ms, StandsAt ds js (.classDecl h ms))

/-- No class is around siblings. -/
theorem around_nil : (∃ ms, StandsAt ds' [] (.classDecl h ms)) ↔
    ∃ ms, StandsAt ds [] (.classDecl h ms) :=
  iff_of_false (fun ⟨_, hnil⟩ => hnil.ne_nil rfl) fun ⟨_, hnil⟩ => hnil.ne_nil rfl

theorem replaced_set (hk : ds[k]? = some d) : Replaced ds (ds.set k d') [k] d' where
  there := .here (List.getElem?_set_self (List.getElem?_eq_some_iff.mp hk).1)
  apart {js x} hjs hk := by
    cases js with
    | nil => exact absurd List.nil_prefix hjs
    | cons j rest =>
      have hne : k ≠ j := fun heq => hk (heq ▸ List.prefix_append [k] rest)
      exact standsAt_congr (List.getElem?_set_ne hne)
  around {js h} hjs hne := by
    rcases List.prefix_cons_iff.mp hjs with rfl | ⟨rest, rfl, hrest⟩
    · exact around_nil
    · exact absurd (by rw [List.prefix_nil.mp hrest]) hne

/-- What is replaced inside a class is replaced among its siblings. -/
theorem Replaced.inside {ms ms' : List Declaration} (hk : ds[k]? = some (.classDecl h ms))
    (hr : Replaced ms ms' is d') :
    Replaced ds (ds.set k (.classDecl h ms')) (k :: is) d' := by
  have hk' : (ds.set k (.classDecl h ms'))[k]? = some (.classDecl h ms') :=
    List.getElem?_set_self (List.getElem?_eq_some_iff.mp hk).1
  refine ⟨.inside hk' hr.there, fun {js x} hjs hnot => ?_, fun {js header} hjs hne => ?_⟩
  · cases js with
    | nil => exact absurd List.nil_prefix hjs
    | cons j rest =>
      by_cases heq : k = j
      · subst heq
        rw [List.cons_prefix_cons] at hjs hnot
        have hrest : rest ≠ [] := fun hnil => hjs ⟨rfl, hnil ▸ List.nil_prefix⟩
        rw [standsAt_cons_of_class hk' hrest, standsAt_cons_of_class hk hrest]
        exact hr.apart (fun hpre => hjs ⟨rfl, hpre⟩) fun hpre => hnot ⟨rfl, hpre⟩
      · exact standsAt_congr (List.getElem?_set_ne heq)
  · cases js with
    | nil => exact around_nil
    | cons j rest =>
      obtain ⟨rfl, hrest⟩ := List.cons_prefix_cons.mp hjs
      -- the class itself keeps its header; those further in are around the same place in it
      by_cases hnil : rest = []
      · subst hnil
        simp [standsAt_singleton_iff, hk, hk']
      · simp only [standsAt_cons_of_class hk' hnil, standsAt_cons_of_class hk hnil]
        exact hr.around hrest fun heq => hne (heq ▸ rfl)

theorem adjust?_singleton (f : Declaration → Declaration) (hk : ds[k]? = some d) :
    adjust? f [k] ds = some (ds.set k (f d)) := by
  simp [adjust?, hk]

theorem adjust?_cons_of_class (f : Declaration → Declaration)
    (hk : ds[k]? = some (.classDecl h ms)) (hrest : rest ≠ []) :
    adjust? f (k :: rest) ds
      = (adjust? f rest ms).map fun ms' => ds.set k (.classDecl h ms') := by
  cases rest with
  | nil => exact absurd rfl hrest
  | cons j is =>
    cases hin : adjust? f (j :: is) ms with
    | none => simp [adjust?, hk, hin]
    | some ms' => simp [adjust?, hk, hin]

/-- **What stands at the indices is changed, and only that.** -/
theorem StandsAt.exists_replaced (hd : StandsAt ds is d) (f : Declaration → Declaration) :
    ∃ ds', adjust? f is ds = some ds' ∧ Replaced ds ds' is (f d) := by
  induction hd with
  | here hk => exact ⟨_, adjust?_singleton f hk, replaced_set hk⟩
  | inside hk hd ih =>
    obtain ⟨ms', hms', hr⟩ := ih
    refine ⟨_, ?_, hr.inside hk⟩
    rw [adjust?_cons_of_class f hk hd.ne_nil, hms']
    rfl

/-- Indices at which nothing stands change nothing. -/
theorem adjust?_eq_none (hnone : ∀ d, ¬ StandsAt ds is d) : adjust? f is ds = none := by
  induction is generalizing ds with
  | nil => rfl
  | cons k rest ih =>
    by_cases hrest : rest = []
    · subst hrest
      have hk : ds[k]? = none :=
        Option.eq_none_iff_forall_ne_some.mpr fun d hk => hnone d (.here hk)
      simp [adjust?, hk]
    · by_cases hclass : ∃ h ms, ds[k]? = some (.classDecl h ms)
      · obtain ⟨h, ms, hk⟩ := hclass
        rw [adjust?_cons_of_class f hk hrest, ih fun d hd => hnone d (.inside hk hd)]
        rfl
      · obtain ⟨j, is, rfl⟩ := List.exists_cons_of_ne_nil hrest
        rw [adjust?]
        cases hk : ds[k]? with
        | none => rfl
        | some d =>
          cases d with
          | classDecl h ms => exact absurd ⟨h, ms, hk⟩ hclass
          | function f => rfl
          | property p => rfl
          | constructor c => rfl

end Declaration

/-! ## The places of a module -/

namespace TreePath

/-- Whether a place is the other or lies in a class that the other is the place of. -/
def Encloses (p q : TreePath) : Prop := p.file = q.file ∧ p.indices <+: q.indices

end TreePath

namespace SourceModule

/-- A declaration stands at a place of the module. -/
def Holds (m : SourceModule) (p : TreePath) (d : Declaration) : Prop :=
  ∃ file, m.files[p.file]? = some file ∧ Declaration.StandsAt file.declarations p.indices d

variable {m m' : SourceModule} {p q : TreePath} {d d' : Declaration} {file : SourceFile}

/-- **The walk lists what stands somewhere.** -/
theorem mem_walk_iff_holds : (p, d) ∈ m.walk ↔ m.Holds p d := by
  simp only [mem_walk_iff, Declaration.mem_walkSiblings_iff, Holds]

/-- **A path is followed to what stands there.** -/
theorem find?_eq_some_iff : m.find? p = some d ↔ m.Holds p d := by
  unfold find? Holds
  cases hfile : m.files[p.file]? with
  | none => simp
  | some file => simpa using Declaration.follow?_eq_some_iff

/-- A module with a declaration in place of the one at a path, and nothing
else: what stands apart from it stays, and so do the headers of the classes
around it, the files and the dependencies. -/
structure Replaced (m m' : SourceModule) (p : TreePath) (d' : Declaration) : Prop where
  name : m'.name = m.name
  dependencies : m'.dependencies = m.dependencies
  files : m'.files.map (fun file => (file.path, file.package))
    = m.files.map fun file => (file.path, file.package)
  there : m'.Holds p d'
  apart : ∀ {q x}, ¬ q.Encloses p → ¬ p.Encloses q → (m'.Holds q x ↔ m.Holds q x)
  around : ∀ {q h}, q.Encloses p → q ≠ p →
    ((∃ ms, m'.Holds q (.classDecl h ms)) ↔ ∃ ms, m.Holds q (.classDecl h ms))

theorem holds_iff_of_file {n : Nat} {is : List Nat} (hfile : m.files[n]? = some file) :
    m.Holds ⟨n, is⟩ d ↔ Declaration.StandsAt file.declarations is d := by
  simp [Holds, hfile]

theorem holds_congr (hfile : m'.files[p.file]? = m.files[p.file]?) :
    m'.Holds p d ↔ m.Holds p d := by
  unfold Holds
  rw [hfile]

/-- What is replaced in a file is replaced in the module. -/
theorem replaced_of_file {ds' : List Declaration} {n : Nat} {is : List Nat}
    (hfile : m.files[n]? = some file) (hr : Declaration.Replaced file.declarations ds' is d') :
    m.Replaced { m with files := m.files.set n { file with declarations := ds' } } ⟨n, is⟩ d' := by
  set m' : SourceModule := { m with files := m.files.set n { file with declarations := ds' } }
  have hlt : n < m.files.length := (List.getElem?_eq_some_iff.mp hfile).1
  have hfile' : m'.files[n]? = some { file with declarations := ds' } := List.getElem?_set_self hlt
  refine ⟨rfl, rfl, ?_, (holds_iff_of_file hfile').mpr hr.there, ?_, ?_⟩
  · refine List.ext_getElem? fun k => ?_
    rw [List.getElem?_map, List.getElem?_map]
    by_cases heq : n = k
    · rw [← heq, hfile', hfile]
      rfl
    · rw [show m'.files[k]? = m.files[k]? from List.getElem?_set_ne heq]
  · rintro ⟨k, js⟩ x hqp hpq
    by_cases heq : n = k
    · subst heq
      rw [holds_iff_of_file hfile', holds_iff_of_file hfile]
      exact hr.apart (fun hpre => hqp ⟨rfl, hpre⟩) fun hpre => hpq ⟨rfl, hpre⟩
    · exact holds_congr (List.getElem?_set_ne heq)
  · rintro ⟨k, js⟩ h ⟨rfl, hpre⟩ hne
    simp only [holds_iff_of_file hfile', holds_iff_of_file hfile]
    exact hr.around hpre fun heq => hne (heq ▸ rfl)

/-- **A change at a path** is one of the declaration that stands there and
nothing else, and fails for that path where none does. -/
theorem adjustAt_cases (m : SourceModule) (f : Declaration → Declaration) (p : TreePath) :
    (∃ d m', m.Holds p d ∧ m.adjustAt f p = .ok m' ∧ m.Replaced m' p (f d)) ∨
      (∀ d, ¬ m.Holds p d) ∧ m.adjustAt f p = .error (.noDeclaration p) := by
  by_cases hholds : ∃ d, m.Holds p d
  · obtain ⟨d, file, hfile, hd⟩ := hholds
    obtain ⟨ds', hds', hr⟩ := hd.exists_replaced f
    refine Or.inl ⟨d, _, ⟨file, hfile, hd⟩, ?_, replaced_of_file hfile hr⟩
    simp [adjustAt, adjustAt?, hfile, hds']
  · have hnone : ∀ d, ¬ m.Holds p d := fun d hd => hholds ⟨d, hd⟩
    refine Or.inr ⟨hnone, ?_⟩
    cases hfile : m.files[p.file]? with
    | none => simp [adjustAt, adjustAt?, hfile]
    | some file =>
      have hds := Declaration.adjust?_eq_none (f := f) fun d hd => hnone d ⟨file, hfile, hd⟩
      simp [adjustAt, adjustAt?, hfile, hds]

end SourceModule

/-! ## Classes under their names -/

namespace ClassIndex

variable {x : ClassIndex} {c : ClassDecl} {cs : List ClassDecl} {name : QualifiedName}

theorem get?_insert : (x.insert c).get? name = if c.name = name then some c else x.get? name := by
  rw [get?, insert]
  by_cases h : c.name = name
  · rw [List.find?_cons_of_pos (by simpa using h), if_pos h]
  · rw [List.find?_cons_of_neg (by simpa using h), if_neg h, List.find?_filter, get?]
    -- a class of another name than the new one's is not taken out
    have hkept : ∀ d : ClassDecl,
        (decide (d.name ≠ c.name) = true ∧ decide (d.name = name) = true) ↔ d.name = name := by
      intro d
      simp only [decide_eq_true_eq, and_iff_right_iff_imp]
      exact fun hd heq => h (heq.symm.trans hd)
    simp only [hkept]

mutual

/-- Declarations are entered by their classes one after another. -/
theorem enter_eq_foldl (x : ClassIndex) (d : Declaration) :
    x.enter d = d.classes.foldl insert x := by
  cases d with
  | classDecl h ms =>
    rw [enter, Declaration.classes, List.foldl_cons, enterAll_eq_foldl]
  | function f => rfl
  | property p => rfl
  | constructor c => rfl

theorem enterAll_eq_foldl (x : ClassIndex) (ds : List Declaration) :
    x.enterAll ds = (Declaration.classesIn ds).foldl insert x := by
  cases ds with
  | nil => rfl
  | cons d ds =>
    rw [enterAll, Declaration.classesIn, List.foldl_append, enter_eq_foldl, enterAll_eq_foldl]

end

/-- **The last class of a name is the one under it**, and without any, the one
from before. -/
theorem get?_foldl_insert (cs : List ClassDecl) (x : ClassIndex) (name : QualifiedName) :
    (cs.foldl insert x).get? name = (cs.filter (·.name = name)).getLast?.or (x.get? name) := by
  induction cs generalizing x with
  | nil => rfl
  | cons c cs ih =>
    rw [List.foldl_cons, ih, get?_insert]
    by_cases h : c.name = name
    · rw [if_pos h, List.filter_cons_of_pos (by simpa using h), List.getLast?_cons]
      cases (cs.filter (·.name = name)).getLast? with
      | none => rfl
      | some d => rfl
    · rw [if_neg h, List.filter_cons_of_neg (by simpa using h)]

end ClassIndex

namespace SourceModule

variable {m : SourceModule} {p : TreePath} {name : QualifiedName}

theorem classIndex_eq_foldl (m : SourceModule) :
    m.classIndex = m.allClasses.foldl ClassIndex.insert {} := by
  simp only [classIndex, allClasses, ClassIndex.enter_eq_foldl, ClassIndex.enterAll_eq_foldl,
    List.foldl_append, List.foldl_flatMap]

/-- **The index has the last of all classes under each name.** -/
theorem get?_classIndex (m : SourceModule) (name : QualifiedName) :
    m.classIndex.get? name = (m.allClasses.filter (·.name = name)).getLast? := by
  rw [classIndex_eq_foldl, ClassIndex.get?_foldl_insert]
  exact Option.or_none

/-- **An evaluator finds what the index has under a name.** -/
theorem classNamed?_eq_get? (m : SourceModule) (options : RuleOptions) (name : QualifiedName) :
    (Evaluator.ofModule m options).classNamed? name = m.classIndex.get? name := by
  rw [get?_classIndex, List.getLast?_filter]
  rfl

/-- Every class of the walk is among all classes. -/
theorem mem_allClasses_of_mem_walk {h : ClassHeader} {ms : List Declaration}
    (hmem : (p, .classDecl h ms) ∈ m.walk) : ⟨h, ms⟩ ∈ m.allClasses := by
  obtain ⟨file, hfile, hin⟩ := mem_walk_iff.mp hmem
  exact List.mem_append_right _ (List.mem_flatMap.mpr ⟨file, List.mem_of_getElem? hfile,
    Declaration.mem_classesIn_of_mem_walkSiblings hin⟩)

/-- **The index has a class under the name of each class in the walk.** -/
theorem isSome_get?_classIndex {h : ClassHeader} {ms : List Declaration}
    (hmem : (p, .classDecl h ms) ∈ m.walk) : (m.classIndex.get? h.name).isSome := by
  have hin : ⟨h, ms⟩ ∈ m.allClasses.filter (·.name = h.name) :=
    List.mem_filter.mpr ⟨mem_allClasses_of_mem_walk hmem, decide_eq_true rfl⟩
  rw [get?_classIndex, List.getLast?_isSome]
  exact List.ne_nil_of_mem hin

/-- **Walking, following, changing and naming agree.** The walk lists what
stands in the module, each declaration once and in the order of places. A path
is followed to the declaration that the walk lists with it, and to nothing
where it lists none. A change at a path that the walk lists is one of the
declaration listed with it and nothing else, and at any other path it fails for
that path. The index has under each name the last class of that name, among the
dependencies and then the files, each class followed by those nested in it; so
it has one for every class of the walk. -/
theorem places_agree (m : SourceModule) :
    (m.walk.map Prod.fst).Nodup ∧ (m.walk.map Prod.fst).Pairwise TreePath.Precedes ∧
    (∀ p d, (p, d) ∈ m.walk ↔ m.Holds p d) ∧
    (∀ p d, m.find? p = some d ↔ (p, d) ∈ m.walk) ∧
    (∀ f p,
      (∃ d m', (p, d) ∈ m.walk ∧ m.adjustAt f p = .ok m' ∧ m.Replaced m' p (f d)) ∨
        (∀ d, (p, d) ∉ m.walk) ∧ m.adjustAt f p = .error (.noDeclaration p)) ∧
    (∀ name, m.classIndex.get? name = (m.allClasses.filter (·.name = name)).getLast?) ∧
    ∀ p h ms, (p, Declaration.classDecl h ms) ∈ m.walk → (m.classIndex.get? h.name).isSome := by
  refine ⟨m.nodup_walk, m.pairwise_walk, fun _ _ => mem_walk_iff_holds, fun _ _ => ?_,
    fun f p => ?_, m.get?_classIndex, fun _ _ _ => isSome_get?_classIndex⟩
  · rw [find?_eq_some_iff, mem_walk_iff_holds]
  · simp only [mem_walk_iff_holds]
    exact m.adjustAt_cases f p

end SourceModule

end ExportSurface
