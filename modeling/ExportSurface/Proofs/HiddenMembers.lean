import ExportSurface.Proofs.ParallelRuns
import ExportSurface.Proofs.Rearrangement
/-!
# Members that are not public

Take from the classes of a module, nested ones and those of dependencies as well,
some of their constructors, functions and properties that are not public
(`SourceModule.StrippedTo`). The rules look at the public members of a class only, so
they are the very same questions with the same ends (`Rule.ofClass_eq`), and the
signatures that are listed are those of public members. A pass over the module and
a pass over what is left of it therefore run in parallel and say the same, to the
last number of the memo (`Pass.run_of_strippedTo`). The members that remain have
other places than before, which nothing in a report or a diagnostic tells.
-/

namespace ExportSurface

/-! ## Members taken away -/

namespace Declaration

/-- Whether a declaration is a constructor, a function or a property that is not
public. -/
def isHidden : Declaration → Bool
  | .classDecl .. => false
  | .function f => !Rule.isPublic f.visibility
  | .property p => !Rule.isPublic p.visibility
  | .constructor c => !Rule.isPublic c.visibility

mutual

/-- The same declaration but for hidden members taken from the classes in it, itself
included. -/
inductive StrippedTo : Declaration → Declaration → Prop
  /-- All is as it was. -/
  | same (d : Declaration) : StrippedTo d d
  /-- A class with the same header and with what is left of its members. -/
  | classDecl {h : ClassHeader} {ms ms' : List Declaration} :
      MembersStrippedTo ms ms' → StrippedTo (.classDecl h ms) (.classDecl h ms')

/-- What is left of the members of a class. -/
inductive MembersStrippedTo : List Declaration → List Declaration → Prop
  | nil : MembersStrippedTo [] []
  /-- A member that stays, and may lose hidden members of its own. -/
  | kept {d d' : Declaration} {ds ds' : List Declaration} :
      StrippedTo d d' → MembersStrippedTo ds ds' → MembersStrippedTo (d :: ds) (d' :: ds')
  /-- A hidden member that goes. -/
  | removed {d : Declaration} {ds ds' : List Declaration} :
      d.isHidden = true → MembersStrippedTo ds ds' → MembersStrippedTo (d :: ds) ds'

end

end Declaration

/-- The same module but for hidden members taken from its classes, those of the
dependencies and nested ones among them. -/
structure SourceModule.StrippedTo (m m' : SourceModule) : Prop where
  name : m.name = m'.name
  files : List.Forall₂ (fun file file' => ∃ declarations,
    List.Forall₂ Declaration.StrippedTo file.declarations declarations ∧
      file' = { file with declarations }) m.files m'.files
  dependencies : List.Forall₂ (fun c c' => c.toDeclaration.StrippedTo c'.toDeclaration)
    m.dependencies m'.dependencies

/-! ## What is left of a class -/

/-- Classes with one header and the same public members. -/
structure ClassDecl.SamePublic (c c' : ClassDecl) : Prop where
  header : c.toClassHeader = c'.toClassHeader
  constructors : (c.constructors.filter fun k => Rule.isPublic k.visibility)
    = c'.constructors.filter fun k => Rule.isPublic k.visibility
  properties : (c.properties.filter fun p => Rule.isPublic p.visibility)
    = c'.properties.filter fun p => Rule.isPublic p.visibility
  methods : (c.methods.filter fun f => Rule.isPublic f.visibility)
    = c'.methods.filter fun f => Rule.isPublic f.visibility

theorem ClassDecl.SamePublic.refl (c : ClassDecl) : c.SamePublic c := ⟨rfl, rfl, rfl, rfl⟩

namespace Declaration

/-- What is collected from members of a kind that is not that of classes, nothing
from hidden ones, is collected from what is left. -/
theorem filterMap_of_membersStrippedTo {α : Type} {f : Declaration → Option α}
    {ms ms' : List Declaration} (hclass : ∀ h ms, f (.classDecl h ms) = none)
    (hhidden : ∀ d, d.isHidden = true → f d = none) (hms : MembersStrippedTo ms ms') :
    ms.filterMap f = ms'.filterMap f := by
  induction ms generalizing ms' with
  | nil =>
    cases hms
    rfl
  | cons d ds ih =>
    cases hms with
    | kept hd hds =>
      cases hd with
      | same => rw [List.filterMap_cons, List.filterMap_cons, ih hds]
      | classDecl _ =>
        rw [List.filterMap_cons_none (hclass _ _), List.filterMap_cons_none (hclass _ _), ih hds]
    | removed hd hds => rw [List.filterMap_cons_none (hhidden d hd), ih hds]

/-- **What is left of a class** has all its public members. -/
theorem samePublic_of_membersStrippedTo {h : ClassHeader} {ms ms' : List Declaration}
    (hms : MembersStrippedTo ms ms') : ClassDecl.SamePublic ⟨h, ms⟩ ⟨h, ms'⟩ := by
  refine ⟨rfl, ?_, ?_, ?_⟩
  all_goals
    simp only [ClassDecl.constructors, ClassDecl.properties, ClassDecl.methods,
      List.filter_filterMap]
    refine filterMap_of_membersStrippedTo (fun _ _ => rfl) (fun d hd => ?_) hms
    cases d <;> simp_all [isHidden, constructor?, property?, function?]

mutual

/-- The classes inside a declaration keep their public members. -/
theorem forall₂_classes_of_strippedTo {d d' : Declaration} (hd : d.StrippedTo d') :
    List.Forall₂ ClassDecl.SamePublic d.classes d'.classes := by
  cases hd with
  | same => exact List.forall₂_same.mpr fun c _ => .refl c
  | classDecl hms =>
    exact .cons (samePublic_of_membersStrippedTo hms) (forall₂_classesIn_of_strippedTo hms)

theorem forall₂_classesIn_of_strippedTo {ds ds' : List Declaration}
    (hds : MembersStrippedTo ds ds') :
    List.Forall₂ ClassDecl.SamePublic (classesIn ds) (classesIn ds') := by
  cases hds with
  | nil => exact .nil
  | kept hd hds =>
    exact List.rel_append (forall₂_classes_of_strippedTo hd) (forall₂_classesIn_of_strippedTo hds)
  | @removed d ds ds' hd hds =>
    -- what is hidden is no class
    have hnone : d.classes = [] := by
      cases d with
      | classDecl => cases hd
      | function => rfl
      | property => rfl
      | constructor => rfl
    rw [classesIn, hnone, List.nil_append]
    exact forall₂_classesIn_of_strippedTo hds

end

end Declaration

/-- **The rule of classes** is about their headers and public members. -/
theorem Rule.ofClass_eq {m : Type → Type} [Monad m] [MonadExceptOf ModuleError m] {c c' : ClassDecl}
    (h : c.SamePublic c') (options : RuleOptions) (ask : TypeRef → m Bool) :
    Rule.ofClass options ask c = Rule.ofClass options ask c' := by
  simp only [Rule.ofClass, h.header, h.constructors, h.properties, h.methods]

/-! ## What is left of a candidate -/

/-- The same candidate, but for what is hidden in a class. -/
inductive Candidate.SamePublic : Candidate → Candidate → Prop
  | ofClass {c c' : ClassDecl} : c.SamePublic c' → SamePublic (.ofClass c) (.ofClass c')
  | same (c : Candidate) : SamePublic c c

namespace Candidate.SamePublic

variable {c c' : Candidate}

theorem name_eq (h : c.SamePublic c') : c.name = c'.name := by
  cases h with
  | ofClass hc => exact congrArg ClassHeader.name hc.header
  | same => rfl

theorem kindText_eq (h : c.SamePublic c') : c.kindText = c'.kindText := by
  cases h with
  | ofClass => rfl
  | same => rfl

theorem isExported_eq (h : c.SamePublic c') : c.isExported = c'.isExported := by
  cases h with
  | ofClass hc => exact congrArg ClassHeader.isExported hc.header
  | same => rfl

theorem gate_eq (h : c.SamePublic c') : c.gate = c'.gate := by
  cases h with
  | @ofClass c c' hc =>
    obtain ⟨header, _⟩ := c
    obtain ⟨header', _⟩ := c'
    cases hc.header
    rfl
  | same => rfl

/-- **The signatures that are listed** are those of public members. -/
theorem conversionSites_eq (h : c.SamePublic c') : c.conversionSites = c'.conversionSites := by
  cases h with
  | @ofClass c c' hc =>
    -- a member is public and its values are converted: the first of the two filters first
    have hsplit : ∀ {α : Type} (p q : α → Bool) (as : List α),
        as.filter (fun a => p a && q a) = (as.filter p).filter q := fun p q as => by
      rw [List.filter_filter]
      exact List.filter_congr fun a _ => Bool.and_comm _ _
    simp only [conversionSites, hsplit, hc.constructors, hc.properties, hc.methods, hc.header]
  | same => rfl

/-- What is reported about a decision does not tell what is hidden. -/
theorem diagnostics_eq (h : c.SamePublic c') (d : Decision) :
    d.diagnostics c = d.diagnostics c' := by
  cases d <;> simp only [Decision.diagnostics, h.name_eq, h.conversionSites_eq]

theorem add_eq (h : c.SamePublic c') (d : Decision) (report : Report) :
    report.add c d = report.add c' d := by
  cases d <;> simp only [Report.add, h.name_eq, h.kindText_eq, h.conversionSites_eq]

end Candidate.SamePublic

namespace SourceModule.StrippedTo

variable {m m' : SourceModule}

theorem forall₂_allClasses (h : m.StrippedTo m') :
    List.Forall₂ ClassDecl.SamePublic m.allClasses m'.allClasses := by
  refine List.rel_append ?_ ?_
  · exact List.rel_flatMap h.dependencies fun _ _ hc => Declaration.forall₂_classes_of_strippedTo hc
  · refine List.rel_flatMap h.files ?_
    rintro file _ ⟨declarations, hds, rfl⟩
    simp only [Declaration.classesIn_eq_flatMap]
    exact List.rel_flatMap hds fun _ _ => Declaration.forall₂_classes_of_strippedTo

/-- **The candidates of what is left** are those of the module, one by one. Only the
places inside a class differ. -/
theorem forall₂_candidates (h : m.StrippedTo m') :
    List.Forall₂ (fun x y => x.2.SamePublic y.2) m.candidates m'.candidates := by
  suffices hwhat : List.Forall₂ Candidate.SamePublic (m.candidates.map Prod.snd)
      (m'.candidates.map Prod.snd) by
    rwa [List.forall₂_map_left_iff, List.forall₂_map_right_iff] at hwhat
  rw [map_snd_candidates, map_snd_candidates]
  refine List.rel_flatMap h.files ?_
  rintro file _ ⟨declarations, hds, rfl⟩
  refine List.rel_flatMap hds fun d d' hd => ?_
  cases hd with
  | same => exact List.forall₂_same.mpr fun c _ => .same c
  | classDecl hms =>
    rw [Declaration.candidates_eq, Declaration.candidates_eq]
    exact List.rel_map (fun _ _ => .ofClass)
      (Declaration.forall₂_classes_of_strippedTo (.classDecl hms))

end SourceModule.StrippedTo

/-! ## Runs -/

namespace Evaluator

variable {e e' : Evaluator} {c c' : ClassDecl}

theorem twins_of_samePublic (h : c.SamePublic c') (hoptions : e.options = e'.options) :
    Twins Eq e e' c c' where
  name := congrArg ClassHeader.name h.header
  isExported := congrArg ClassHeader.isExported h.header
  rule := by
    rw [Rule.ofClass_eq h, hoptions]
    exact .refl (Verdict.Paired.refl fun _ => rfl) _

/-- The evaluators of a module and of what is left of it go in step. -/
theorem inStep_of_strippedTo {m m' : SourceModule} (h : m.StrippedTo m') (options : RuleOptions) :
    InStep Eq (.ofModule m options) (.ofModule m' options) := by
  refine inStep_ofModule (h.forall₂_allClasses.imp fun c c' hc => ?_)
  exact twins_of_samePublic hc rfl

/-- Candidates that differ in what is hidden stand for one another. -/
theorem twins_of_candidate_samePublic {c c' : Candidate} (he : InStep Eq e e')
    (hoptions : e.options = e'.options) (h : c.SamePublic c') : c.Twins Eq e e' c' where
  name := h.name_eq
  kindText := h.kindText_eq
  isExported := h.isExported_eq
  gate := h.gate_eq
  verdict := by
    have hrefl := Verdict.Paired.refl fun _ => rfl
    cases h with
    | ofClass hc => exact inStep_classVerdict he (twins_of_samePublic hc hoptions)
    | same =>
      cases c with
      | ofClass c => exact inStep_classVerdict he (twins_of_samePublic (.refl c) hoptions)
      | ofFunction f => exact inStep_functionVerdict he (.refl hrefl _)
      | ofProperty p => exact inStep_propertyVerdict he (hoptions ▸ .refl hrefl _)

end Evaluator

namespace Pass

variable {rs rs' : List Ruling}

/-- **Paired rulings on candidates that differ in what is hidden** say the same. -/
theorem say_same (h : List.Forall₂ (Ruling.Paired Eq fun x y => x.2.SamePublic y.2) rs rs')
    (report : Report) :
    rulingDiagnostics rs = rulingDiagnostics rs' ∧ reportAll report rs = reportAll report rs' := by
  induction h generalizing report with
  | nil => exact ⟨rfl, rfl⟩
  | @cons r r' rs rs' hr _ ih =>
    have hdecision : r.decision = r'.decision := hr.decision.eq
    have hcandidate : r.candidate.SamePublic r'.candidate := hr.candidates
    obtain ⟨hdiagnostics, hreport⟩ := ih (report.add r.candidate r.decision)
    constructor
    · rw [rulingDiagnostics, List.flatMap_cons, ← rulingDiagnostics, hdiagnostics, hdecision,
        hcandidate.diagnostics_eq]
      rfl
    · rw [reportAll, List.foldl_cons, ← reportAll, hreport, hdecision, hcandidate.add_eq]
      rfl

/-- **Members that are not public are invisible.** A pass over a module and a pass over
what is left of it without some of its hidden members end in the same report, or fail
for the same property, and say the same, in the same order. -/
theorem run_of_strippedTo (p : Pass) {m m' : SourceModule} (h : m.StrippedTo m') :
    (p.run m').report = (p.run m).report ∧ (p.run m').diagnostics = (p.run m).diagnostics := by
  have he := Evaluator.inStep_of_strippedTo h p.options
  rcases run_in_step (p := p)
      (fun _ _ hxy => Evaluator.twins_of_candidate_samePublic he rfl hxy) h.forall₂_candidates with
    ⟨rs, rs', s, s', hdecides, hdecides', hrs, hs⟩ | ⟨rs, rs', failure, last, hrs, hrun, hrun'⟩
  · obtain ⟨hdiagnostics, hreport⟩ := say_same hrs { moduleName := m.name }
    rw [run_of_decides hdecides, run_of_decides hdecides', hdiagnostics, hreport, h.name, hs.memo]
    exact ⟨rfl, rfl⟩
  · rw [hrun, hrun', (say_same hrs { moduleName := m.name }).1]
    exact ⟨rfl, rfl⟩

/-- A class that hides an overload of its public method and a property without a type,
with a class inside it that hides a method. -/
def vault : Declaration :=
  .classDecl { name := ⟨"test.Vault"⟩, supertypes := [.plain "lib.Base"] }
    [.function { name := ⟨"test.Vault.open"⟩, returnType := .plain "kotlin.Unit" },
     .function
      { name := ⟨"test.Vault.open"⟩, visibility := .priv, returnType := .plain "test.Gone" },
     .property { name := ⟨"test.Vault.secret"⟩, visibility := .internal },
     .classDecl { name := ⟨"test.Vault.Drawer"⟩ }
      [.function
        { name := ⟨"test.Vault.Drawer.all"⟩, visibility := .prot
          returnType := .plain "kotlin.collections.List" }]]

/-- What is left of it without all that. -/
def emptiedVault : Declaration :=
  .classDecl { name := ⟨"test.Vault"⟩, supertypes := [.plain "lib.Base"] }
    [.function { name := ⟨"test.Vault.open"⟩, returnType := .plain "kotlin.Unit" },
     .classDecl { name := ⟨"test.Vault.Drawer"⟩ } []]

/-- The class that it extends, with a hidden constructor. -/
def vaultBase : ClassDecl where
  name := ⟨"lib.Base"⟩
  members := [.constructor { visibility := .priv, parameters := [⟨"x", .plain "lib.Gone"⟩] }]

/-- A module with a vault. -/
def vaultModule : SourceModule where
  name := "vault"
  files := [{ path := "vault.kt", package := "test", declarations := [vault] }]
  dependencies := [vaultBase]

/-- The module without what is hidden in it. -/
def emptiedVaultModule : SourceModule where
  name := "vault"
  files := [{ path := "vault.kt", package := "test", declarations := [emptiedVault] }]
  dependencies := [{ vaultBase with members := [] }]

theorem run_of_strippedTo_vault :
    vaultModule.StrippedTo emptiedVaultModule ∧
      (Pass.run {} emptiedVaultModule).report = (Pass.run {} vaultModule).report ∧
        (Pass.run {} emptiedVaultModule).diagnostics = (Pass.run {} vaultModule).diagnostics := by
  have hvault : vault.StrippedTo emptiedVault :=
    .classDecl <| .kept (.same _) <| .removed rfl <| .removed rfl <|
      .kept (.classDecl (.removed rfl .nil)) .nil
  have h : vaultModule.StrippedTo emptiedVaultModule :=
    ⟨rfl, .cons ⟨_, .cons hvault .nil, rfl⟩ .nil, .cons (.classDecl (.removed rfl .nil)) .nil⟩
  exact ⟨h, run_of_strippedTo {} h⟩

end Pass

end ExportSurface
