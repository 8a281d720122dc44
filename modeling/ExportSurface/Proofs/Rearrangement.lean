import ExportSurface.Proofs.Outcomes
import Mathlib.Data.List.Perm.Basic
/-!
# Order and filters

What a module means does not hang on the order of its files, nor on that of the
declarations at the top level of a file (`SourceModule.Rearranged`): with
distinct class names the same classes are found, the surface is the same, and
the candidates are the same but for their order. So a pass marks, rejects and
skips the same declarations, and a filter takes from what is marked without it
just the names it selects (`Pass.run_independent`).
-/

namespace ExportSurface

/-- The same file but for the order of its declarations. -/
structure SourceFile.Rearranged (f f' : SourceFile) : Prop where
  path : f.path = f'.path
  package : f.package = f'.package
  declarations : f.declarations.Perm f'.declarations

/-- The same module but for the order of its files and of the declarations at
the top level of each. -/
structure SourceModule.Rearranged (m m' : SourceModule) : Prop where
  name : m.name = m'.name
  dependencies : m.dependencies = m'.dependencies
  files : ∃ files, m.files.Perm files ∧ List.Forall₂ SourceFile.Rearranged files m'.files

/-! ## Candidates by declaration -/

namespace Declaration

mutual

/-- How deep the walk is, and what it meets, does not hang on where it began. -/
theorem map_length_walkFrom {here here' : List Nat} (h : here.length = here'.length)
    (d : Declaration) : (walkFrom here d).map (fun x => (x.1.length, x.2))
      = (walkFrom here' d).map fun x => (x.1.length, x.2) := by
  cases d with
  | classDecl header ms =>
    rw [walkFrom, walkFrom, List.map_cons, List.map_cons, map_length_walkSiblings h 0 0 ms, h]
  | function f => simp only [walkFrom, List.map_singleton, h]
  | property p => simp only [walkFrom, List.map_singleton, h]
  | constructor c => simp only [walkFrom, List.map_singleton, h]

theorem map_length_walkSiblings {parent parent' : List Nat} (h : parent.length = parent'.length)
    (i i' : Nat) (ds : List Declaration) :
    (walkSiblings parent i ds).map (fun x => (x.1.length, x.2))
      = (walkSiblings parent' i' ds).map fun x => (x.1.length, x.2) := by
  cases ds with
  | nil => rfl
  | cons d ds =>
    have hhere : (parent ++ [i]).length = (parent' ++ [i']).length := by
      simp only [List.length_append, List.length_singleton, h]
    rw [walkSiblings, walkSiblings, List.map_append, List.map_append,
      map_length_walkFrom hhere d, map_length_walkSiblings h (i + 1) (i' + 1) ds]

end

/-- The candidates inside a declaration at the top level. -/
def candidates (d : Declaration) : List Candidate :=
  (walkFrom [0] d).filterMap fun x => Candidate.of? (x.1.length == 1) x.2

theorem filterMap_walkFrom (i : Nat) (d : Declaration) :
    (walkFrom [i] d).filterMap (fun x => Candidate.of? (x.1.length == 1) x.2) = d.candidates := by
  have hlength : [i].length = [0].length := rfl
  have hwalk := congrArg (List.filterMap fun x => Candidate.of? (x.1 == 1) x.2)
    (map_length_walkFrom hlength d)
  rw [List.filterMap_map, List.filterMap_map] at hwalk
  exact hwalk

theorem filterMap_walkSiblings (i : Nat) (ds : List Declaration) :
    (walkSiblings [] i ds).filterMap (fun x => Candidate.of? (x.1.length == 1) x.2)
      = ds.flatMap candidates := by
  induction ds generalizing i with
  | nil => rfl
  | cons d ds ih =>
    rw [walkSiblings, List.filterMap_append, ih, List.nil_append, filterMap_walkFrom,
      List.flatMap_cons]

mutual

/-- Below the top level the candidates are the classes. -/
theorem filterMap_of?_walkFrom {here : List Nat} (h : 1 < here.length) (d : Declaration) :
    (walkFrom here d).filterMap (fun x => Candidate.of? (x.1.length == 1) x.2)
      = d.classes.map Candidate.ofClass := by
  have hdeep : here.length ≠ 1 := h.ne'
  cases d with
  | classDecl header ms =>
    rw [walkFrom, List.filterMap_cons, classes, List.map_cons]
    exact congrArg (List.cons _) (filterMap_of?_walkSiblings (Nat.lt_of_succ_lt h) 0 ms)
  | function f => simp [walkFrom, Candidate.of?, classes, hdeep]
  | property p => simp [walkFrom, Candidate.of?, classes, hdeep]
  | constructor c => simp [walkFrom, Candidate.of?, classes]

theorem filterMap_of?_walkSiblings {parent : List Nat} (h : 0 < parent.length) (i : Nat)
    (ds : List Declaration) :
    (walkSiblings parent i ds).filterMap (fun x => Candidate.of? (x.1.length == 1) x.2)
      = (classesIn ds).map Candidate.ofClass := by
  cases ds with
  | nil => rfl
  | cons d ds =>
    have hdeep : 1 < (parent ++ [i]).length := by simpa using h
    rw [walkSiblings, List.filterMap_append, filterMap_of?_walkFrom hdeep d,
      filterMap_of?_walkSiblings h (i + 1) ds, classesIn, List.map_append]

end

/-- What can be marked in a declaration at the top level: a class and every class
inside it, or the function or property itself. -/
def markable : Declaration → List Candidate
  | .classDecl h ms => (classDecl h ms).classes.map .ofClass
  | .function f => [.ofFunction f]
  | .property p => [.ofProperty p]
  | .constructor _ => []

/-- **The candidates of a declaration at the top level** are what can be marked in it,
and nothing else. -/
theorem candidates_eq (d : Declaration) : d.candidates = d.markable := by
  cases d with
  | classDecl h ms =>
    have hparent : 0 < [0].length := Nat.one_pos
    rw [candidates, markable, walkFrom, List.filterMap_cons, classes, List.map_cons]
    exact congrArg (List.cons _) (filterMap_of?_walkSiblings hparent 0 ms)
  | function f => rfl
  | property p => rfl
  | constructor c => rfl

theorem classesIn_eq_flatMap (ds : List Declaration) : classesIn ds = ds.flatMap classes := by
  induction ds with
  | nil => rfl
  | cons d ds ih => rw [classesIn, ih, List.flatMap_cons]

end Declaration

namespace SourceModule

variable {m m' : SourceModule} {options : RuleOptions}

/-- **The candidates of a module** are those of its declarations, file by file. -/
theorem map_snd_candidates (m : SourceModule) :
    m.candidates.map Prod.snd
      = m.files.flatMap fun file => file.declarations.flatMap Declaration.candidates := by
  have hof : ∀ x : TreePath × Declaration, (Candidate.ofWalked x).map Prod.snd
      = Candidate.of? (x.1.indices.length == 1) x.2 := by
    intro x
    rw [Candidate.ofWalked, Option.map_map]
    exact Option.map_id'
  have hfile : ∀ n (file : SourceFile),
      ((Declaration.walkSiblings [] 0 file.declarations).map fun y =>
          ((⟨n, y.1⟩, y.2) : TreePath × Declaration)).filterMap
        (fun x => Candidate.of? (x.1.indices.length == 1) x.2)
        = file.declarations.flatMap Declaration.candidates := by
    intro n file
    rw [List.filterMap_map, ← Declaration.filterMap_walkSiblings 0]
    rfl
  rw [candidates, List.map_filterMap, funext hof, walk, List.filterMap_flatten, List.flatMap_def]
  refine congrArg List.flatten (List.ext_getElem? fun n => ?_)
  rw [List.getElem?_map, List.getElem?_mapIdx, List.getElem?_map, Option.map_map]
  exact congrArg (Option.map · _) (funext fun file => hfile n file)

/-! ## Modules rearranged -/

/-- **What is collected from the declarations at the top level** is rearranged
with them. -/
theorem Rearranged.perm_flatMap {α : Type} (h : m.Rearranged m') (f : Declaration → List α) :
    (m.files.flatMap fun file => file.declarations.flatMap f).Perm
      (m'.files.flatMap fun file => file.declarations.flatMap f) := by
  -- first the files are put in order, then the declarations of each
  obtain ⟨files, hperm, hfiles⟩ := h.files
  refine (hperm.flatMap_right _).trans ?_
  rw [List.flatMap_def, List.flatMap_def]
  refine List.Perm.flatten_congr ?_
  rw [List.forall₂_map_left_iff, List.forall₂_map_right_iff]
  exact hfiles.imp fun file file' hfile => hfile.declarations.flatMap_right f

theorem Rearranged.perm_candidates (h : m.Rearranged m') :
    (m.candidates.map Prod.snd).Perm (m'.candidates.map Prod.snd) := by
  rw [map_snd_candidates, map_snd_candidates]
  exact h.perm_flatMap Declaration.candidates

theorem Rearranged.perm_ownClasses (h : m.Rearranged m') : m.ownClasses.Perm m'.ownClasses := by
  simp only [ownClasses, Declaration.classesIn_eq_flatMap]
  exact h.perm_flatMap Declaration.classes

theorem Rearranged.perm_allClasses (h : m.Rearranged m') : m.allClasses.Perm m'.allClasses := by
  rw [allClasses, allClasses, h.dependencies]
  exact h.perm_ownClasses.append_left _

theorem Rearranged.perm_mentioned (h : m.Rearranged m') : m.mentioned.Perm m'.mentioned := by
  have hcandidates : ∀ m : SourceModule, (m.candidates.flatMap fun x => x.2.question.mentioned)
      = (m.candidates.map Prod.snd).flatMap fun c => c.question.mentioned := fun m => by
    rw [List.flatMap_map]
  rw [mentioned, mentioned, hcandidates m, hcandidates m']
  exact ((h.perm_allClasses.flatMap_right _).append
    (h.perm_candidates.flatMap_right _)).flatMap_right _

theorem Regular.of_rearranged (h : m.Regular) (hm : m.Rearranged m') : m'.Regular where
  distinct := (hm.perm_ownClasses.map _).nodup_iff.mp h.distinct
  typed c hc := h.typed c (hm.perm_allClasses.mem_iff.mpr hc)
  typedTopLevel path p hp := by
    have hmem : Candidate.ofProperty p ∈ m.candidates.map Prod.snd :=
      hm.perm_candidates.mem_iff.mpr (List.mem_map.mpr ⟨_, hp, rfl⟩)
    obtain ⟨⟨path', c⟩, hc, rfl⟩ := List.mem_map.mp hmem
    exact h.typedTopLevel path' p hc
  faithful t ht u hu :=
    h.faithful t (hm.perm_mentioned.mem_iff.mpr ht) u (hm.perm_mentioned.mem_iff.mpr hu)

/-- Where no two elements have one name, the order does not matter to what is
found by name. -/
theorem find?_name_of_perm {cs cs' : List ClassDecl} (hnodup : (cs.map (·.name)).Nodup)
    (hperm : cs.Perm cs') (name : QualifiedName) :
    cs.find? (·.name = name) = cs'.find? (·.name = name) := by
  have hnodup' : (cs'.map (·.name)).Nodup := (hperm.map _).nodup_iff.mp hnodup
  cases hfind : cs.find? (·.name = name) with
  | some c =>
    have hmem : c ∈ cs' := hperm.subset (List.mem_of_find?_eq_some hfind)
    obtain rfl : c.name = name := by simpa using List.find?_some hfind
    exact (find?_name_of_nodup hnodup' hmem).symm
  | none =>
    rw [List.find?_eq_none] at hfind
    exact (List.find?_eq_none.mpr fun c hc => hfind c (hperm.mem_iff.mpr hc)).symm

/-- **The same classes are found** in a module rearranged. -/
theorem Rearranged.classNamed?_eq (hm : m.Rearranged m')
    (h : (m.ownClasses.map (·.name)).Nodup) (name : QualifiedName) :
    (Evaluator.ofModule m options).classNamed? name
      = (Evaluator.ofModule m' options).classNamed? name := by
  have hown : m.ownClasses.reverse.find? (·.name = name)
      = m'.ownClasses.reverse.find? (·.name = name) := by
    -- with distinct names the last class of a name is the only one, wherever it stands
    have hperm : m.ownClasses.reverse.Perm m'.ownClasses.reverse :=
      (List.reverse_perm _).trans (hm.perm_ownClasses.trans (List.reverse_perm _).symm)
    refine find?_name_of_perm ?_ hperm name
    rw [List.map_reverse, List.nodup_reverse]
    exact h
  rw [classNamed?_ofModule, classNamed?_ofModule, hown, hm.dependencies]

/-- The export surface is that of the module rearranged. -/
theorem Rearranged.surface_eq (hm : m.Rearranged m') (h : m.Regular) :
    Evaluator.surface (.ofModule m options) = Evaluator.surface (.ofModule m' options) :=
  Evaluator.surface_congr rfl (hm.classNamed?_eq h.distinct)

theorem Rearranged.accepted_iff (hm : m.Rearranged m') (h : m.Regular) (c : Candidate) :
    c.question.Accepted (.ofModule m options) ↔ c.question.Accepted (.ofModule m' options) := by
  cases c with
  | ofClass c =>
    change Subject.ofClass c ∈ _ ↔ Subject.ofClass c ∈ _
    rw [hm.surface_eq h]
  | ofFunction f =>
    change FunctionAdmitted _ f ↔ FunctionAdmitted _ f
    rw [hm.surface_eq h]
  | ofProperty p =>
    change PropertyAdmitted options _ p ↔ PropertyAdmitted options _ p
    rw [hm.surface_eq h]

end SourceModule

/-! ## Passes over modules rearranged -/

namespace Pass

variable {p : Pass} {m m' : SourceModule} {e e' : Evaluator} {c : Candidate}
  {cs cs' : List Candidate} {report report' : Report}

theorem marks_congr (h : c.question.Accepted e ↔ c.question.Accepted e') :
    Marks p e c ↔ Marks p e' c :=
  ⟨fun hc => ⟨hc.isExported, hc.selects, hc.gate, h.mp hc.accepted⟩,
    fun hc => ⟨hc.isExported, hc.selects, hc.gate, h.mpr hc.accepted⟩⟩

theorem rejects_congr (h : c.question.Accepted e ↔ c.question.Accepted e') :
    Rejects p e c ↔ Rejects p e' c :=
  ⟨fun hc => ⟨hc.isExported, hc.selects, hc.gate, mt h.mpr hc.notAccepted⟩,
    fun hc => ⟨hc.isExported, hc.selects, hc.gate, mt h.mp hc.notAccepted⟩⟩

/-- A filter takes from what is marked without it. -/
theorem marks_iff_of_filter :
    Marks p e c ↔ Marks { p with filter := .all } e c ∧ p.filter.selects c.name.text = true :=
  ⟨fun hc => ⟨⟨hc.isExported, rfl, hc.gate, hc.accepted⟩, hc.selects⟩,
    fun ⟨hc, hselects⟩ => ⟨hc.isExported, hselects, hc.gate, hc.accepted⟩⟩

/-- **The outcome of a pass depends neither on the order nor on what else is
selected.** With the files of a regular module and the declarations at the top
level of each in another order, a pass newly marks the same candidates, and
rejects and skips the same. And what it newly marks is what it would without a
filter, of the names that the filter selects. -/
theorem run_independent (p : Pass) (m m' : SourceModule) (h : m.Regular) (hm : m.Rearranged m') :
    ∃ report report', (p.run m).report = .ok report ∧ (p.run m').report = .ok report' ∧
      ((m.newlyMarked (p.run m).result).map Prod.snd).Perm
        ((m'.newlyMarked (p.run m').result).map Prod.snd) ∧
      (report.rejected.map fun x => (x.name, x.kind)).Perm
        (report'.rejected.map fun x => (x.name, x.kind)) ∧
      report.skipped.Perm report'.skipped ∧
      m.newlyMarked (p.run m).result
        = (m.newlyMarked (({ p with filter := .all } : Pass).run m).result).filter
          fun x => p.filter.selects x.2.name.text := by
  classical
  obtain ⟨report, hreport, hreports, hmarks⟩ := run_of_regular p h
  obtain ⟨report', hreport', hreports', hmarks'⟩ := run_of_regular p (h.of_rearranged hm)
  obtain ⟨_, -, -, hall⟩ := run_of_regular { p with filter := .all } h
  have hsame : ∀ c : Candidate, c.question.Accepted (.ofModule m p.options)
      ↔ c.question.Accepted (.ofModule m' p.options) := hm.accepted_iff h
  refine ⟨report, report', hreport, hreport', ?_, ?_, ?_, ?_⟩
  · have hproj : ∀ m₁ : SourceModule,
        (m₁.candidates.filter fun x => Marks p (.ofModule m p.options) x.2).map Prod.snd
          = (m₁.candidates.map Prod.snd).filter fun c => Marks p (.ofModule m p.options) c :=
      fun m₁ => by rw [List.filter_map]; rfl
    simp only [hmarks', ← marks_congr (hsame _)]
    rw [hmarks, hproj, hproj]
    exact hm.perm_candidates.filter _
  · rw [hreports.rejected, hreports'.rejected]
    simp only [← rejects_congr (hsame _)]
    exact (hm.perm_candidates.filter _).map _
  · rw [hreports.skipped, hreports'.skipped]
    exact hm.perm_candidates.filterMap _
  · rw [hmarks, hall, List.filter_filter]
    refine List.filter_congr fun x _ => ?_
    rw [Bool.eq_iff_iff, Bool.and_eq_true, decide_eq_true_eq, decide_eq_true_eq, and_comm]
    exact marks_iff_of_filter

/-- A class that can be exported. -/
def plainClass : ClassDecl where
  name := ⟨"test.C"⟩
  members := [.property { name := ⟨"test.C.text"⟩, backingField := some (.plain "kotlin.String") }]

/-- A module of two files. -/
def twoFiles : SourceModule where
  name := "test"
  files :=
    [{ path := "A.kt", declarations := [base.toDeclaration, derived.toDeclaration] },
      { path := "B.kt", declarations := [plainClass.toDeclaration] }]

/-- The module with its files, and the classes of the first, the other way
round. -/
def twoFilesTurned : SourceModule where
  name := "test"
  files :=
    [{ path := "B.kt", declarations := [plainClass.toDeclaration] },
      { path := "A.kt", declarations := [derived.toDeclaration, base.toDeclaration] }]

/-- A pass with a filter. -/
def filteredPass : Pass where
  filter := { globs := (Glob.compile .byLength "*.C" '.').toOption.toList }

/-- A module and a pass with a filter, in two orders. -/
theorem run_independent_twoFiles :
    twoFiles.Regular ∧ twoFiles.Rearranged twoFilesTurned ∧
    ∃ report report', (filteredPass.run twoFiles).report = .ok report ∧
      (filteredPass.run twoFilesTurned).report = .ok report' ∧
      ((twoFiles.newlyMarked (filteredPass.run twoFiles).result).map Prod.snd).Perm
        ((twoFilesTurned.newlyMarked (filteredPass.run twoFilesTurned).result).map Prod.snd) ∧
      (report.rejected.map fun x => (x.name, x.kind)).Perm
        (report'.rejected.map fun x => (x.name, x.kind)) ∧
      report.skipped.Perm report'.skipped ∧
      twoFiles.newlyMarked (filteredPass.run twoFiles).result
        = (twoFiles.newlyMarked
            (({ filteredPass with filter := .all } : Pass).run twoFiles).result).filter
          fun x => filteredPass.filter.selects x.2.name.text := by
  have hregular : twoFiles.Regular := by
    have hclasses : twoFiles.allClasses = [base, derived, plainClass] := rfl
    have hcandidates : twoFiles.candidates = [(⟨0, [0]⟩, .ofClass base),
        (⟨0, [1]⟩, .ofClass derived), (⟨1, [0]⟩, .ofClass plainClass)] := rfl
    have hmentioned : twoFiles.mentioned = [.plain "test.A", .plain "kotlin.Long",
        .plain "test.B", .plain "kotlin.Long", .plain "kotlin.String", .plain "test.A",
        .plain "kotlin.Long", .plain "test.B", .plain "kotlin.Long", .plain "kotlin.String"] := rfl
    refine SourceModule.regular_of_plain (by decide) ?_ ?_ ?_
    · rw [hclasses]
      decide
    · simp [hcandidates]
    · simp [hmentioned]
  have hrearranged : twoFiles.Rearranged twoFilesTurned := by
    refine ⟨rfl, rfl, _, List.Perm.swap _ _ [], ?_⟩
    exact .cons ⟨rfl, rfl, List.Perm.refl _⟩ (.cons ⟨rfl, rfl, List.Perm.swap _ _ []⟩ .nil)
  exact ⟨hregular, hrearranged,
    run_independent filteredPass twoFiles twoFilesTurned hregular hrearranged⟩

/-- The filter lets through what can be exported. -/
example : (twoFiles.newlyMarked (filteredPass.run twoFiles).result).map (·.2.name.text)
    = ["test.C"] := by
  decide +kernel

end Pass

end ExportSurface
