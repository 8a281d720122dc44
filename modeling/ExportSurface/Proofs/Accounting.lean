import ExportSurface.Proofs.Rearrangement
/-!
# What a run accounts for

A run that succeeds rules on every candidate of the module once, in the order of the
walk, and everything that it says can be read off those rulings
(`Pass.run_accounted`). Each list of the report is that of the rulings of one outcome,
and between them the lists name every candidate as often as the module has it
(`Pass.perm_names`). The diagnostics after the banner tell one ruling after another: a
message that names the candidate, and behind it one message for each signature that
the ruling adds to the report (`Told`).
-/

namespace ExportSurface

/-- Everything that can be marked in a module: classes at any depth and functions and
properties at the top level, in the order of their files and declarations. -/
def SourceModule.markable (m : SourceModule) : List Candidate :=
  m.files.flatMap fun file => file.declarations.flatMap Declaration.markable

/-- The names in the four lists of a report. -/
def Report.names (r : Report) : List String :=
  r.exported ++ r.alreadyExported ++ r.rejected.map Excluded.name ++ r.skipped.map Excluded.name

/-! ## How rulings are told -/

/-- A diagnostic of a severity that mentions a text. -/
def Diagnostic.Says (d : Diagnostic) (severity : Severity) (text : String) : Prop :=
  d.severity = severity ∧ ∃ before after, d.message = before ++ text ++ after

/-- How loud a decision is told. -/
def Decision.severity : Decision → Severity
  | .mark => .info
  | .alreadyExported => .trace
  | .skip reason => reason.severity
  | .reject _ => .warning

/-- The signatures that a ruling adds to the report. -/
def Ruling.conversions (r : Ruling) : List String :=
  if r.decision = .mark then r.candidate.conversionSites else []

/-- Diagnostics that tell rulings in turn: the decision in one message that names the
candidate, and at once each signature that it adds to the report in one more. -/
inductive Told : List Ruling → List Diagnostic → Prop
  | nil : Told [] []
  | cons {r : Ruling} {rs : List Ruling} {decision : Diagnostic} {sites rest : List Diagnostic} :
      decision.Says r.decision.severity r.candidate.name.text →
      List.Forall₂ (fun d site => d.Says .trace site) sites r.conversions →
      Told rs rest → Told (r :: rs) (decision :: sites ++ rest)

/-- What is reported about a decision: first the decision itself. -/
theorem Ruling.diagnostics_eq (r : Ruling) :
    ∃ decision : Diagnostic, decision.Says r.decision.severity r.candidate.name.text ∧
      r.decision.diagnostics r.candidate
        = decision :: r.conversions.map conversionDiagnostic := by
  obtain ⟨path, c, d⟩ := r
  cases d with
  | mark => exact ⟨_, ⟨rfl, "Exporting ", "", by simp⟩, rfl⟩
  | alreadyExported => exact ⟨_, ⟨rfl, "", " is already exported", by simp⟩, rfl⟩
  | skip reason =>
    refine ⟨reason.diagnostic c.name.text, ⟨rfl, ?_⟩, rfl⟩
    cases reason with
    | filtered => exact ⟨"Skipping ", _, String.append_assoc⟩
    | notPublic visibility => exact ⟨"Not exporting ", _, String.append_assoc⟩
    | platform flag => exact ⟨"Not exporting ", _, String.append_assoc⟩
  | reject reason => exact ⟨_, ⟨rfl, "Will not export ", _, String.append_assoc⟩, rfl⟩

theorem says_conversionDiagnostic (site : String) :
    (conversionDiagnostic site).Says .trace site :=
  ⟨rfl, "", " needs a runtime collection conversion", by simp [conversionDiagnostic]⟩

/-- **Rulings are told one after another.** -/
theorem told_rulingDiagnostics (rs : List Ruling) : Told rs (Pass.rulingDiagnostics rs) := by
  induction rs with
  | nil => exact .nil
  | cons r rs ih =>
    obtain ⟨decision, hsays, hdiagnostics⟩ := r.diagnostics_eq
    rw [Pass.rulingDiagnostics, List.flatMap_cons, hdiagnostics, ← Pass.rulingDiagnostics]
    refine .cons hsays ?_ ih
    rw [List.forall₂_map_left_iff]
    exact List.forall₂_same.mpr fun site _ => says_conversionDiagnostic site

/-! ## What becomes of a candidate -/

namespace Pass

variable {p : Pass} {e : Evaluator} {m : SourceModule} {c : Candidate} {d : Decision}
  {s s' : Session} {cs : List (TreePath × Candidate)} {rs : List Ruling}

/-- **One decision**: on a candidate that is marked already, on one that is skipped, or by
a verdict on one that is neither. -/
theorem decision_cases (h : (p.decide e c).ask s = (.ok d, s')) :
    (c.isExported = true ∧ p.skips? c = none ∧ d = .alreadyExported) ∨
      (∃ reason, c.isExported = false ∧ p.skips? c = some reason ∧ d = .skip reason) ∨
        ∃ v, c.isExported = false ∧ p.skips? c = none ∧ d = .ofVerdict v := by
  cases hexported : c.isExported with
  | true =>
    rw [decide_of_isExported hexported] at h
    cases h
    exact Or.inl ⟨rfl, by simp [skips?, hexported], rfl⟩
  | false =>
    right
    cases hfilter : p.filter.selects c.name.text with
    | false =>
      rw [decide_of_not_selects hexported hfilter] at h
      cases h
      exact Or.inl ⟨.filtered, rfl, by simp [skips?, hexported, hfilter], rfl⟩
    | true =>
      have hskips : p.skips? c = c.gate := by simp [skips?, hexported, hfilter]
      cases hgate : c.gate with
      | some reason =>
        rw [decide_of_gate hexported hfilter hgate] at h
        cases h
        exact Or.inl ⟨reason, rfl, hskips.trans hgate, rfl⟩
      | none =>
        rw [decide_of_gate_none hexported hfilter hgate, map_eq_pure_bind, Query.ask_bind] at h
        cases hverdict : (c.verdict e).ask s with
        | mk result s₁ =>
          rw [hverdict] at h
          cases result with
          | error failure => cases h
          | ok v =>
            cases h
            exact Or.inr ⟨v, rfl, hskips.trans hgate, rfl⟩

theorem decision_alreadyExported_iff (h : (p.decide e c).ask s = (.ok d, s')) :
    d = .alreadyExported ↔ c.isExported = true := by
  rcases decision_cases h with ⟨hc, -, rfl⟩ | ⟨reason, hc, -, rfl⟩ | ⟨v, hc, -, rfl⟩
  · simp [hc]
  · simp [hc]
  · cases v <;> simp [hc, Decision.ofVerdict]

theorem decision_skip_iff (h : (p.decide e c).ask s = (.ok d, s')) (reason : SkipReason) :
    d = .skip reason ↔ p.skips? c = some reason := by
  rcases decision_cases h with ⟨-, hc, rfl⟩ | ⟨other, -, hc, rfl⟩ | ⟨v, -, hc, rfl⟩
  · simp [hc]
  · simp [hc]
  · cases v <;> simp [hc, Decision.ofVerdict]

/-- A ruling marks just what is newly marked. -/
theorem decision_mark_iff (h : Decides p (.ofModule m p.options) {} m.candidates rs s')
    {r : Ruling} (hr : r ∈ rs) :
    r.decision = .mark ↔ (r.path, r.candidate) ∈ m.newlyMarked (p.run m).result := by
  rw [newlyMarked_of_decides h]
  constructor
  · intro hmark
    exact List.mem_map_of_mem (List.mem_filter.mpr ⟨hr, by simpa using hmark⟩)
  · intro hmem
    obtain ⟨r', hr', heq⟩ := List.mem_map.mp hmem
    obtain ⟨hin, hmark⟩ := List.mem_filter.mp hr'
    rw [← List.inj_on_of_nodup_map h.nodup_paths hin hr (congrArg Prod.fst heq)]
    simpa using hmark

/-! ## The account of a run -/

/-- A run of which each candidate of the module is ruled on once, and that says what
those rulings come to. -/
structure Accounted (p : Pass) (m : SourceModule) (report : Report) (rs : List Ruling) : Prop where
  /-- The candidates, in the order of the walk. -/
  candidates : rs.map Ruling.candidate = m.markable
  inOrder : (rs.map Ruling.path).Sublist (m.walk.map Prod.fst)
  /-- Each stands at its own place. -/
  nodup : (rs.map Ruling.path).Nodup
  find : ∀ r ∈ rs, m.find? r.path = some r.candidate.toDeclaration
  /-- What became of a candidate. -/
  mark : ∀ r ∈ rs,
    (r.decision = .mark ↔ (r.path, r.candidate) ∈ m.newlyMarked (p.run m).result)
  already : ∀ r ∈ rs, (r.decision = .alreadyExported ↔ r.candidate.isExported = true)
  skip : ∀ r ∈ rs, ∀ reason, (r.decision = .skip reason ↔ p.skips? r.candidate = some reason)
  /-- The lists of the report, one for each outcome. -/
  exported : report.exported
    = (rs.filter fun r => r.decision = .mark).map fun r => r.candidate.name.text
  alreadyExported : report.alreadyExported
    = (rs.filter fun r => r.decision = .alreadyExported).map fun r => r.candidate.name.text
  rejected : report.rejected = rs.filterMap Ruling.rejected?
  skipped : report.skipped = rs.filterMap Ruling.skipped?
  needsConversion : report.needsConversion = rs.flatMap Ruling.conversions
  /-- What is told, after the banner. -/
  told : ∃ told, (p.run m).diagnostics = p.banner :: told ∧ Told rs told

theorem flatMap_conversions (rs : List Ruling) :
    rs.flatMap Ruling.conversions = (marking rs).flatMap fun r => r.candidate.conversionSites := by
  induction rs with
  | nil => rfl
  | cons r rs ih =>
    rw [List.flatMap_cons, ih, marking_cons, Ruling.conversions]
    by_cases hmark : r.decision = .mark
    · simp [hmark]
    · simp [hmark]

/-- Rulings to the end are the account of a run. -/
theorem accounted_of_decides (h : Decides p (.ofModule m p.options) {} m.candidates rs s') :
    Accounted p m { reportAll { moduleName := m.name } rs with memo := s'.memo.stats } rs := by
  have hpaths : rs.map Ruling.path = m.candidates.map Prod.fst := by
    rw [← h.candidates, List.map_map]
    rfl
  have hcandidates : rs.map Ruling.candidate = m.candidates.map Prod.snd := by
    rw [← h.candidates, List.map_map]
    rfl
  rw [reportAll_eq]
  refine
    { candidates := ?_, inOrder := ?_, nodup := h.nodup_paths, find := fun r hr => ?_
      mark := fun r hr => decision_mark_iff h hr, already := fun r hr => ?_
      skip := fun r hr reason => ?_, exported := List.nil_append _
      alreadyExported := List.nil_append _, rejected := List.nil_append _
      skipped := List.nil_append _, needsConversion := ?_, told := ?_ }
  · rw [hcandidates, SourceModule.map_snd_candidates, SourceModule.markable]
    simp only [funext Declaration.candidates_eq]
  · exact hpaths ▸ SourceModule.map_fst_candidates_sublist m
  · exact SourceModule.find?_of_mem_candidates (h.candidates ▸ List.mem_map_of_mem hr)
  · obtain ⟨s₁, s₂, hask⟩ := h.exists_ask hr
    exact decision_alreadyExported_iff hask
  · obtain ⟨s₁, s₂, hask⟩ := h.exists_ask hr
    exact decision_skip_iff hask reason
  · rw [flatMap_conversions]
    exact List.nil_append _
  · rw [run_of_decides h]
    exact ⟨_, rfl, told_rulingDiagnostics rs⟩

/-- **No candidate is lost or doubled.** The lists of the outcomes name every ruling's
candidate once. -/
theorem perm_names {report : Report} (h : Accounted p m report rs) :
    report.names.Perm (m.markable.map fun c => c.name.text) := by
  rw [Report.names, h.exported, h.alreadyExported, h.rejected, h.skipped, ← h.candidates,
    List.map_map]
  clear h
  simp only [List.append_assoc]
  induction rs with
  | nil => exact .refl _
  | cons r rs ih =>
    obtain ⟨path, c, d⟩ := r
    -- the name comes first in its own list, and is moved to the front past the others
    cases d with
    | mark => simpa [List.filterMap_cons, Ruling.rejected?, Ruling.skipped?] using ih
    | alreadyExported =>
      have hmoved := List.perm_middle.trans (ih.cons c.name.text)
      simpa [List.filterMap_cons, Ruling.rejected?, Ruling.skipped?] using hmoved
    | reject reason =>
      have hmoved := (List.perm_middle.append_left _).trans
        (List.perm_middle.trans (ih.cons c.name.text))
      simpa [List.filterMap_cons, Ruling.rejected?, Ruling.skipped?] using hmoved
    | skip reason =>
      have hmoved := ((List.perm_middle.append_left _).append_left _).trans
        ((List.perm_middle.append_left _).trans (List.perm_middle.trans (ih.cons c.name.text)))
      simpa [List.filterMap_cons, Ruling.rejected?, Ruling.skipped?] using hmoved

/-- **Every candidate is accounted for exactly once.** A run that succeeds rules on the
candidates of the module in the order of the walk, its report is that of the rulings,
outcome by outcome, and its diagnostics after the banner tell them in turn. -/
theorem run_accounted (p : Pass) {m : SourceModule} {report : Report}
    (h : (p.run m).report = .ok report) :
    ∃ rs, Accounted p m report rs ∧ report.names.Perm (m.markable.map fun c => c.name.text) := by
  obtain ⟨rs, s', hdecides, rfl⟩ := exists_decides_of_ok h
  exact ⟨rs, accounted_of_decides hdecides, perm_names (accounted_of_decides hdecides)⟩

/-- A module with a candidate for each outcome, one of them inside another. -/
def ledger : SourceModule where
  name := "ledger"
  files := [
    { path := "shelf.kt"
      package := "test"
      declarations := [
        .classDecl { name := ⟨"test.Shelf"⟩ }
          [.property
            { name := ⟨"test.Shelf.items"⟩
              backingField := some (.plain "kotlin.collections.List") },
           .classDecl { name := ⟨"test.Shelf.Slot"⟩, annotations := [exportMarker] } []],
        .function
          { name := ⟨"test.own"⟩, visibility := .priv, returnType := .plain "kotlin.Unit" }] },
    { path := "lost.kt"
      package := "test"
      declarations := [
        .function { name := ⟨"test.lost"⟩, returnType := .plain "test.Gone" }] }]

/-- The report of a pass over it. -/
def ledgerReport : Report where
  moduleName := "ledger"
  exported := ["test.Shelf"]
  alreadyExported := ["test.Shelf.Slot"]
  rejected := [⟨"test.lost", "function", .returnType "test.Gone"⟩]
  skipped := [⟨"test.own", "function", .notPublic .priv⟩]
  needsConversion := ["test.Shelf::items: kotlin.collections.List"]
  memo := { misses := 3, entries := 3 }

theorem run_accounted_ledger :
    (Pass.run {} ledger).report = .ok ledgerReport ∧
      ∃ rs, Accounted {} ledger ledgerReport rs ∧
        ledgerReport.names.Perm (ledger.markable.map fun c => c.name.text) := by
  have h : (Pass.run {} ledger).report = .ok ledgerReport := by decide +kernel
  exact ⟨h, run_accounted {} h⟩

end Pass

end ExportSurface
