import ExportSurface.Proofs.Failures
import ExportSurface.Proofs.Marking
/-!
# Runs of a pass

A pass decides on the candidates of a module one after another, in the order
of the walk and in one session (`Pass.Decides`). Either it comes to the end, or
a decision fails (`Pass.decides_or_fails`), and what a run reports, marks and
leaves behind is a function of the rulings made until then
(`Pass.run_of_decides`, `Pass.run_of_failure`). A run is therefore atomic
(`Pass.run_atomic`): it fails and leaves the module as it was, or it appends
the marker to the candidates it reports, each at its own place, and touches
nothing else.
-/

namespace ExportSurface

/-! ## Candidates of a module -/

/-- The declaration that a candidate is. -/
def Candidate.toDeclaration : Candidate → Declaration
  | .ofClass c => c.toDeclaration
  | .ofFunction f => .function f
  | .ofProperty p => .property p

/-- The candidate that a walked declaration is. -/
def Candidate.ofWalked (x : TreePath × Declaration) : Option (TreePath × Candidate) :=
  (Candidate.of? x.1.isTopLevel x.2).map fun c => (x.1, c)

/-- The candidates of a module with their places, in the order of the walk. -/
def SourceModule.candidates (m : SourceModule) : List (TreePath × Candidate) :=
  m.walk.filterMap Candidate.ofWalked

theorem Candidate.toDeclaration_of? {topLevel : Bool} {d : Declaration} {c : Candidate}
    (h : Candidate.of? topLevel d = some c) : c.toDeclaration = d := by
  cases d with
  | classDecl header ms =>
    rw [← Option.some.inj h]
    rfl
  | function f =>
    cases topLevel with
    | true =>
      rw [← Option.some.inj h]
      rfl
    | false => cases h
  | property p =>
    cases topLevel with
    | true =>
      rw [← Option.some.inj h]
      rfl
    | false => cases h
  | constructor k => cases h

theorem Candidate.isExported_toDeclaration (c : Candidate) :
    c.toDeclaration.isExported = c.isExported := by
  cases c with
  | ofClass c => rfl
  | ofFunction f => rfl
  | ofProperty p => rfl

namespace SourceModule

variable {m : SourceModule} {path : TreePath} {c : Candidate}

theorem mem_candidates_iff :
    (path, c) ∈ m.candidates ↔
      ∃ d, (path, d) ∈ m.walk ∧ Candidate.of? path.isTopLevel d = some c := by
  rw [candidates, List.mem_filterMap]
  constructor
  · rintro ⟨⟨p, d⟩, hmem, h⟩
    obtain ⟨c', hc', heq⟩ := Option.map_eq_some_iff.mp h
    cases heq
    exact ⟨d, hmem, hc'⟩
  · rintro ⟨d, hmem, h⟩
    exact ⟨(path, d), hmem, by rw [Candidate.ofWalked, h]; rfl⟩

/-- The place of a candidate leads to it. -/
theorem find?_of_mem_candidates (h : (path, c) ∈ m.candidates) :
    m.find? path = some c.toDeclaration := by
  obtain ⟨d, hmem, hof⟩ := mem_candidates_iff.mp h
  rw [Candidate.toDeclaration_of? hof]
  exact find?_of_mem_walk hmem

theorem map_fst_candidates_sublist (m : SourceModule) :
    (m.candidates.map Prod.fst).Sublist (m.walk.map Prod.fst) := by
  rw [candidates]
  induction m.walk with
  | nil => exact List.Sublist.refl _
  | cons x xs ih =>
    cases hof : Candidate.ofWalked x with
    | none =>
      rw [List.filterMap_cons_none hof]
      exact ih.cons _
    | some y =>
      obtain ⟨c, -, rfl⟩ := Option.map_eq_some_iff.mp hof
      rw [List.filterMap_cons_some hof]
      exact ih.cons_cons _

/-- No two candidates have the same place. -/
theorem nodup_candidates (m : SourceModule) : (m.candidates.map Prod.fst).Nodup :=
  (nodup_walk m).sublist (map_fst_candidates_sublist m)

end SourceModule

/-! ## One decision -/

/-- The verdict on a candidate. -/
def Candidate.verdict (e : Evaluator) : Candidate → Query Verdict
  | .ofClass c => e.classVerdict c
  | .ofFunction f => e.functionVerdict f
  | .ofProperty p => e.propertyVerdict p

/-- The decision that follows from a verdict. -/
def Decision.ofVerdict : Verdict → Decision
  | .exportable => .mark
  | .rejected reason => .reject reason

/-- What was decided about the candidate at a place. -/
structure Ruling where
  path : TreePath
  candidate : Candidate
  decision : Decision

/-- The report entry of a ruling that rejects. -/
def Ruling.rejected? (r : Ruling) : Option (Excluded Rejection) :=
  match r.decision with
  | .reject reason => some ⟨r.candidate.name.text, r.candidate.kindText, reason⟩
  | _ => none

/-- The report entry of a ruling that skips. -/
def Ruling.skipped? (r : Ruling) : Option (Excluded SkipReason) :=
  match r.decision with
  | .skip reason => some ⟨r.candidate.name.text, r.candidate.kindText, reason⟩
  | _ => none

namespace Pass

variable {p : Pass} {e : Evaluator} {c : Candidate}

theorem decide_of_isExported (h : c.isExported = true) : p.decide e c = pure .alreadyExported := by
  rw [Pass.decide, h]
  rfl

theorem decide_of_not_selects (h : c.isExported = false)
    (hfilter : p.filter.selects c.name.text = false) :
    p.decide e c = pure (.skip .filtered) := by
  rw [Pass.decide, h, hfilter]
  rfl

theorem decide_of_gate {reason : SkipReason} (h : c.isExported = false)
    (hfilter : p.filter.selects c.name.text = true) (hgate : c.gate = some reason) :
    p.decide e c = pure (.skip reason) := by
  rw [Pass.decide, h, hfilter, hgate]
  rfl

/-- Past the gate, the verdict decides. -/
theorem decide_of_gate_none (h : c.isExported = false)
    (hfilter : p.filter.selects c.name.text = true) (hgate : c.gate = none) :
    p.decide e c = Decision.ofVerdict <$> c.verdict e := by
  have hbind : ∀ (q : Query Verdict) (f g : Verdict → Query Decision),
      f .exportable = g .exportable → (∀ reason, f (.rejected reason) = g (.rejected reason)) →
        q >>= f = q >>= g := by
    intro q f g hex hrej
    refine congrArg (q >>= ·) (funext fun v => ?_)
    cases v with
    | exportable => exact hex
    | rejected reason => exact hrej reason
  rw [Pass.decide, h, hfilter, hgate, map_eq_pure_bind]
  cases c with
  | ofClass c => exact hbind _ _ _ rfl fun _ => rfl
  | ofFunction f => exact hbind _ _ _ rfl fun _ => rfl
  | ofProperty q => exact hbind _ _ _ rfl fun _ => rfl

/-- **How a decision is come to**: without the evaluator, and then nothing is
marked, or by the verdict on a candidate that got past the filter and the
gate. -/
theorem decide_cases (p : Pass) (e : Evaluator) (c : Candidate) :
    (∃ d, d ≠ .mark ∧ p.decide e c = pure d) ∨
      c.isExported = false ∧ p.filter.selects c.name.text = true ∧ c.gate = none ∧
        p.decide e c = Decision.ofVerdict <$> c.verdict e := by
  cases h : c.isExported with
  | true => exact Or.inl ⟨.alreadyExported, by simp, decide_of_isExported h⟩
  | false =>
    cases hfilter : p.filter.selects c.name.text with
    | false => exact Or.inl ⟨.skip .filtered, by simp, decide_of_not_selects h hfilter⟩
    | true =>
      cases hgate : c.gate with
      | some reason => exact Or.inl ⟨.skip reason, by simp, decide_of_gate h hfilter hgate⟩
      | none => exact Or.inr ⟨rfl, rfl, rfl, decide_of_gate_none h hfilter hgate⟩

/-- **A decision fails for nothing but a property without a type.** -/
theorem failsUntyped_decide (p : Pass) (e : Evaluator) (c : Candidate) :
    (p.decide e c).FailsUntyped := by
  rcases decide_cases p e c with ⟨d, -, hd⟩ | ⟨-, -, -, hd⟩
  · rw [hd]
    exact Query.failsOnly_pure d
  · rw [hd]
    have hclass : ∀ d : ClassDecl, Evaluator.FailsIn
        (fun failure => ∃ name, failure = .untypedProperty name) d := fun d q _ _ => ⟨q.name, rfl⟩
    refine Query.failsOnly_map _ ?_
    cases c with
    | ofClass c => exact Evaluator.failsOnly_classVerdict (fun d _ => hclass d) (hclass c)
    | ofFunction f => exact Evaluator.failsOnly_functionVerdict (fun d _ => hclass d) f
    | ofProperty q =>
      exact Evaluator.failsOnly_propertyVerdict (fun d _ => hclass d) fun _ => ⟨q.name, rfl⟩

/-- Only what is not marked and gets past the filter and the gate is marked. -/
theorem admitted_of_mark {s s' : Session} (h : (p.decide e c).ask s = (.ok .mark, s')) :
    c.isExported = false ∧ p.filter.selects c.name.text = true ∧ c.gate = none := by
  rcases decide_cases p e c with ⟨d, hne, hd⟩ | ⟨hmarked, hfilter, hgate, -⟩
  · rw [hd] at h
    cases h
    exact absurd rfl hne
  · exact ⟨hmarked, hfilter, hgate⟩

/-! ## All decisions -/

variable (p e) in
/-- Candidates decided on one after another in a session. -/
inductive Decides : Session → List (TreePath × Candidate) → List Ruling → Session → Prop
  | nil (s : Session) : Decides s [] [] s
  | cons {s s₁ s' : Session} {path : TreePath} {c : Candidate} {d : Decision}
      {cs : List (TreePath × Candidate)} {rs : List Ruling} :
      (p.decide e c).ask s = (.ok d, s₁) → Decides s₁ cs rs s' →
      Decides s ((path, c) :: cs) (⟨path, c, d⟩ :: rs) s'

variable {s s' : Session} {cs : List (TreePath × Candidate)} {rs : List Ruling}

theorem Decides.candidates (h : Decides p e s cs rs s') :
    rs.map (fun r => (r.path, r.candidate)) = cs := by
  induction h with
  | nil => rfl
  | cons _ _ ih => rw [List.map_cons, ih]

/-- Each ruling was made in some session. -/
theorem Decides.exists_ask (h : Decides p e s cs rs s') {r : Ruling} (hr : r ∈ rs) :
    ∃ s₁ s₂, (p.decide e r.candidate).ask s₁ = (.ok r.decision, s₂) := by
  induction h with
  | nil => cases hr
  | @cons s s₁ s' path c d cs rs hask _ ih =>
    rcases List.mem_cons.mp hr with rfl | hin
    · exact ⟨s, s₁, hask⟩
    · exact ih hin

theorem Decides.admitted_of_mark (h : Decides p e s cs rs s') {r : Ruling} (hr : r ∈ rs)
    (hmark : r.decision = .mark) :
    r.candidate.isExported = false ∧ p.filter.selects r.candidate.name.text = true ∧
      r.candidate.gate = none := by
  obtain ⟨s₁, s₂, hask⟩ := h.exists_ask hr
  rw [hmark] at hask
  exact Pass.admitted_of_mark hask

variable (p e) in
/-- **Decisions come to the end, or one of them fails.** -/
theorem decides_or_fails (s : Session) (cs : List (TreePath × Candidate)) :
    (∃ rs s', Decides p e s cs rs s') ∨
      ∃ before path c after rs s₁ failure s₂, cs = before ++ (path, c) :: after ∧
        Decides p e s before rs s₁ ∧ (p.decide e c).ask s₁ = (.error failure, s₂) := by
  induction cs generalizing s with
  | nil => exact Or.inl ⟨[], s, .nil s⟩
  | cons x cs ih =>
    obtain ⟨path, c⟩ := x
    cases hask : (p.decide e c).ask s with
    | mk result s₁ =>
      cases result with
      | error failure => exact Or.inr ⟨[], path, c, cs, [], s, failure, s₁, rfl, .nil s, hask⟩
      | ok d =>
        rcases ih s₁ with ⟨rs, s', hrest⟩ | ⟨before, path', c', after, rs, s₂, f, s₃, hcs, hd, hf⟩
        · exact Or.inl ⟨_, s', .cons hask hrest⟩
        · refine Or.inr ⟨(path, c) :: before, path', c', after, _, s₂, f, s₃, ?_, .cons hask hd, hf⟩
          rw [hcs]
          rfl

/-! ## What rulings come to -/

/-- The rulings that mark. -/
def marking (rs : List Ruling) : List Ruling := rs.filter fun r => r.decision = .mark

/-- What is reported about rulings, in order. -/
def rulingDiagnostics (rs : List Ruling) : List Diagnostic :=
  rs.flatMap fun r => r.decision.diagnostics r.candidate

/-- The report with more rulings. -/
def reportAll (report : Report) (rs : List Ruling) : Report :=
  rs.foldl (fun report r => report.add r.candidate r.decision) report

/-- Where a pass has come to after more rulings. -/
def advance (g : Progress) (rs : List Ruling) (s : Session) : Progress where
  report := reportAll g.report rs
  plan := g.plan ++ (marking rs).map Ruling.path
  diagnostics := g.diagnostics ++ rulingDiagnostics rs
  session := s

theorem marking_cons (r : Ruling) (rs : List Ruling) :
    marking (r :: rs) = (if r.decision = .mark then [r] else []) ++ marking rs := by
  rw [marking, List.filter_cons]
  by_cases h : r.decision = .mark
  · simp [h, marking]
  · simp [h, marking]

theorem advance_cons (g : Progress) (r : Ruling) (rs : List Ruling) (s₁ s : Session) :
    advance { report := g.report.add r.candidate r.decision
              plan := if r.decision = .mark then g.plan ++ [r.path] else g.plan
              diagnostics := g.diagnostics ++ r.decision.diagnostics r.candidate
              session := s₁ } rs s = advance g (r :: rs) s := by
  rw [advance, advance, marking_cons, rulingDiagnostics, rulingDiagnostics, List.flatMap_cons,
    reportAll, reportAll, List.foldl_cons]
  by_cases h : r.decision = .mark
  · simp [h]
  · simp [h]

/-- Decisions that come to the end. -/
theorem decideAll_of_decides {g : Progress} {ds : List (TreePath × Declaration)}
    (h : Decides p e g.session (ds.filterMap Candidate.ofWalked) rs s') :
    p.decideAll e g ds = .ok (advance g rs s') := by
  induction ds generalizing g rs with
  | nil =>
    cases h
    simp [decideAll, advance, reportAll, marking, rulingDiagnostics]
  | cons x ds ih =>
    obtain ⟨path, d⟩ := x
    cases hof : Candidate.of? path.isTopLevel d with
    | none =>
      rw [List.filterMap_cons_none (by rw [Candidate.ofWalked, hof]; rfl)] at h
      rw [decideAll, hof]
      exact ih h
    | some c =>
      have hsome : Candidate.ofWalked (path, d) = some (path, c) := by
        rw [Candidate.ofWalked, hof]
        rfl
      rw [List.filterMap_cons_some hsome] at h
      cases h with
      | cons hask hrest =>
        rw [decideAll, hof]
        simp only [hask]
        rw [ih hrest]
        exact congrArg Except.ok (advance_cons g ⟨path, c, _⟩ _ _ s')

/-- Decisions one of which fails: the last thing reported. -/
theorem decideAll_of_failure {g : Progress} {ds : List (TreePath × Declaration)}
    {before after : List (TreePath × Candidate)} {path : TreePath} {c : Candidate} {s₁ s₂ : Session}
    {failure : ModuleError} (hds : ds.filterMap Candidate.ofWalked = before ++ (path, c) :: after)
    (h : Decides p e g.session before rs s₁)
    (hfail : (p.decide e c).ask s₁ = (.error failure, s₂)) :
    p.decideAll e g ds = .error (failure, g.diagnostics ++ rulingDiagnostics rs ++
      [⟨.error, "Cannot decide whether to export " ++ c.name.text ++ ": "
        ++ failure.passMessage⟩]) := by
  induction ds generalizing g rs before with
  | nil => simp at hds
  | cons x ds ih =>
    obtain ⟨path', d⟩ := x
    cases hof : Candidate.of? path'.isTopLevel d with
    | none =>
      rw [List.filterMap_cons_none (by rw [Candidate.ofWalked, hof]; rfl)] at hds
      rw [decideAll, hof]
      exact ih hds h
    | some c' =>
      have hsome : Candidate.ofWalked (path', d) = some (path', c') := by
        rw [Candidate.ofWalked, hof]
        rfl
      rw [List.filterMap_cons_some hsome] at hds
      cases h with
      | nil =>
        obtain ⟨heq, -⟩ := List.cons.inj hds
        cases heq
        rw [decideAll, hof]
        simp only [hfail]
        simp [rulingDiagnostics]
      | cons hask hrest =>
        obtain ⟨heq, hafter⟩ := List.cons.inj hds
        cases heq
        rw [decideAll, hof]
        simp only [hask]
        rw [ih hafter hrest]
        simp [rulingDiagnostics]

/-! ## The report -/

/-- **The report after more rulings**, list by list. -/
theorem reportAll_eq (report : Report) (rs : List Ruling) :
    reportAll report rs =
      { report with
        exported := report.exported ++ (marking rs).map fun r => r.candidate.name.text
        alreadyExported := report.alreadyExported
          ++ (rs.filter fun r => r.decision = .alreadyExported).map fun r => r.candidate.name.text
        rejected := report.rejected ++ rs.filterMap Ruling.rejected?
        skipped := report.skipped ++ rs.filterMap Ruling.skipped?
        needsConversion := report.needsConversion
          ++ (marking rs).flatMap fun r => r.candidate.conversionSites } := by
  induction rs generalizing report with
  | nil => simp [reportAll, marking]
  | cons r rs ih =>
    rw [reportAll, List.foldl_cons, ← reportAll, ih, marking_cons]
    cases hd : r.decision with
    | mark => simp [Report.add, Ruling.rejected?, Ruling.skipped?, hd]
    | alreadyExported => simp [Report.add, Ruling.rejected?, Ruling.skipped?, hd]
    | skip reason => simp [Report.add, Ruling.rejected?, Ruling.skipped?, hd]
    | reject reason => simp [Report.add, Ruling.rejected?, Ruling.skipped?, hd]

/-! ### Severities -/

theorem severity_ne_error_of_skip (name : String) (reason : SkipReason) :
    (reason.diagnostic name).severity ≠ .error := by
  cases reason with
  | filtered => simp [SkipReason.diagnostic, SkipReason.severity]
  | notPublic v => simp [SkipReason.diagnostic, SkipReason.severity]
  | platform flag =>
    cases flag <;> simp [SkipReason.diagnostic, SkipReason.severity, PlatformFlag.skipSeverity]

/-- What is reported about a decision is no error. -/
theorem severity_ne_error_of_decision {d : Decision} :
    ∀ x ∈ d.diagnostics c, x.severity ≠ .error := by
  cases d with
  | mark => simp [Decision.diagnostics, conversionDiagnostic]
  | alreadyExported => simp [Decision.diagnostics]
  | skip reason =>
    intro x hx
    rw [List.mem_singleton.mp hx]
    exact severity_ne_error_of_skip _ reason
  | reject reason => simp [Decision.diagnostics]

theorem severity_ne_error_of_rulings :
    ∀ x ∈ p.banner :: rulingDiagnostics rs, x.severity ≠ .error := by
  intro x hx
  rcases List.mem_cons.mp hx with rfl | hin
  · simp [Pass.banner]
  · obtain ⟨r, -, hr⟩ := List.mem_flatMap.mp hin
    exact severity_ne_error_of_decision x hr

/-! ## Whole runs -/

variable {m : SourceModule}

/-- The places that rulings on the candidates of a module mark. -/
def markedPlaces (rs : List Ruling) : List TreePath := (marking rs).map Ruling.path

theorem marking_sublist (h : Decides p e s m.candidates rs s') :
    ((marking rs).map fun r => (r.path, r.candidate)).Sublist m.candidates := by
  rw [← h.candidates]
  exact List.filter_sublist.map _

theorem isExported_of_mem_marking (h : Decides p e s cs rs s') {r : Ruling} (hr : r ∈ marking rs) :
    r.candidate.isExported = false := by
  obtain ⟨hmem, hmark⟩ := List.mem_filter.mp hr
  exact (h.admitted_of_mark hmem (by simpa using hmark)).1

/-- **Rulings to the end make a run**: the marker is appended at the marked
places, and the report and the diagnostics follow the rulings. -/
theorem run_of_decides (h : Decides p (.ofModule m p.options) {} m.candidates rs s') :
    p.run m =
      { result := m.appendMarkers fun path => (markedPlaces rs).contains path
        report := .ok { reportAll { moduleName := m.name } rs with memo := s'.memo.stats }
        diagnostics := p.banner :: rulingDiagnostics rs } := by
  have hdecide := decideAll_of_decides (g :=
    { report := { moduleName := m.name }, diagnostics := [p.banner] }) h
  -- marking in turn is marking at once: the places differ and none is marked yet
  have hnodup : (markedPlaces rs).Nodup := by
    have hsub := (marking_sublist h).map Prod.fst
    rw [List.map_map] at hsub
    exact (SourceModule.nodup_candidates m).sublist hsub
  have hfind : ∀ path ∈ markedPlaces rs, ∃ d, m.find? path = some d ∧ d.isExported = false := by
    intro path hpath
    obtain ⟨r, hr, rfl⟩ := List.mem_map.mp hpath
    have hmem : (r.path, r.candidate) ∈ m.candidates :=
      (marking_sublist h).subset (List.mem_map.mpr ⟨r, hr, rfl⟩)
    refine ⟨_, SourceModule.find?_of_mem_candidates hmem, ?_⟩
    rw [Candidate.isExported_toDeclaration]
    exact isExported_of_mem_marking h hr
  have hmark : markAll m (advance { report := { moduleName := m.name }, diagnostics := [p.banner] }
      rs s').plan = (.ok (), m.appendMarkers fun path => (markedPlaces rs).contains path) :=
    markAll_eq hnodup hfind
  rw [Pass.run]
  simp only [hdecide, hmark]
  rfl

/-- **A decision that fails ends the run**: the module stays as it was. -/
theorem run_of_failure {before after : List (TreePath × Candidate)} {path : TreePath}
    {s₁ s₂ : Session} {failure : ModuleError}
    (hcs : m.candidates = before ++ (path, c) :: after)
    (h : Decides p (.ofModule m p.options) {} before rs s₁)
    (hfail : (p.decide (.ofModule m p.options) c).ask s₁ = (.error failure, s₂)) :
    p.run m =
      { result := m
        report := .error failure
        diagnostics := (p.banner :: rulingDiagnostics rs) ++
          [⟨.error, "Cannot decide whether to export " ++ c.name.text ++ ": "
            ++ failure.passMessage⟩] } := by
  have hdecide := decideAll_of_failure (g :=
    { report := { moduleName := m.name }, diagnostics := [p.banner] }) hcs h hfail
  rw [Pass.run]
  simp only [hdecide]
  rfl

/-- A run that succeeds has come to the end of its decisions, and reports its rulings. -/
theorem exists_decides_of_ok {report : Report} (h : (p.run m).report = .ok report) :
    ∃ rs s', Decides p (.ofModule m p.options) {} m.candidates rs s' ∧
      report = { reportAll { moduleName := m.name } rs with memo := s'.memo.stats } := by
  rcases decides_or_fails p (.ofModule m p.options) {} m.candidates with
    ⟨rs, s', hdecides⟩ | ⟨before, path, c, after, rs, s₁, failure, s₂, hcs, hdecides, hfail⟩
  · rw [run_of_decides hdecides] at h
    exact ⟨rs, s', hdecides, (Except.ok.inj h).symm⟩
  · rw [run_of_failure hcs hdecides hfail] at h
    cases h

/-- **A pass is atomic and touches only markers.** It fails for a property
without a type, leaves the module as it was, and reports one error, the last
thing it reports; or it reports the candidates that it marked, in the order of
the walk, and the module is as it was but for the marker at the end of the
annotations of each of those, which did not carry it before. -/
theorem run_atomic (p : Pass) (m : SourceModule) :
    (∃ name before last,
      p.run m = ⟨m, .error (.untypedProperty name), before ++ [last]⟩ ∧
        last.severity = .error ∧ ∀ d ∈ before, d.severity ≠ .error) ∨
    ∃ (marks : List (TreePath × Candidate)) (report : Report) (diagnostics : List Diagnostic),
      p.run m = ⟨m.appendMarkers fun path => (marks.map Prod.fst).contains path, .ok report,
        diagnostics⟩ ∧
        marks.Sublist m.candidates ∧ (marks.map Prod.fst).Nodup ∧
        (∀ x ∈ marks, m.find? x.1 = some x.2.toDeclaration ∧ x.2.isExported = false) ∧
        report.exported = marks.map fun x => x.2.name.text := by
  rcases decides_or_fails p (.ofModule m p.options) {} m.candidates with
    ⟨rs, s', h⟩ | ⟨before, path, c, after, rs, s₁, failure, s₂, hcs, h, hfail⟩
  · right
    refine ⟨(marking rs).map fun r => (r.path, r.candidate),
      { reportAll { moduleName := m.name } rs with memo := s'.memo.stats },
      p.banner :: rulingDiagnostics rs, ?_, marking_sublist h, ?_, ?_, ?_⟩
    · rw [run_of_decides h, List.map_map]
      rfl
    · exact (SourceModule.nodup_candidates m).sublist ((marking_sublist h).map _)
    · intro x hx
      refine ⟨SourceModule.find?_of_mem_candidates ((marking_sublist h).subset hx), ?_⟩
      obtain ⟨r, hr, rfl⟩ := List.mem_map.mp hx
      exact isExported_of_mem_marking h hr
    · rw [reportAll_eq, List.map_map]
      rfl
  · left
    obtain ⟨name, rfl⟩ := failsUntyped_decide p _ c s₁ failure s₂ hfail
    exact ⟨name, _, _, run_of_failure hcs h hfail, rfl, severity_ne_error_of_rulings⟩

end Pass

end ExportSurface
