import ExportSurface.Proofs.Remarking
/-!
# A second run

A run marks candidates that are on the surface, or meet their criterion on it.
In the module that comes of it classes are marked that the evaluator had to
look into before, and the surface is the same nonetheless
(`SourceModule.marked_appendMarkers`). So a second run accepts what the first
accepted, finds all of it marked, and has nothing left to do: running a pass is
idempotent (`Pass.run_idempotent`).
-/

namespace ExportSurface

namespace Candidate

variable {e e' : Evaluator} {c c' : Candidate}

/-- Where classes of the surface are marked, the right answer about a candidate
stays what it was. -/
theorem Alike.accepted_iff (h : c.Alike c') (hm : Evaluator.Marked e e')
    (hclass : ∀ d d', c = .ofClass d → c' = .ofClass d' → Evaluator.Becomes e d d') :
    c'.question.Accepted e' ↔ c.question.Accepted e := by
  have htypes : (fun t => Subject.ofType t ∈ Evaluator.surface e')
      = fun t => Subject.ofType t ∈ Evaluator.surface e :=
    funext fun t => propext (hm.mem_surface_ofType_iff t).symm
  cases h with
  | @ofClass d d' halike => exact (hm.mem_surface_iff (.ofClass (hclass d d' rfl rfl))).symm
  | ofFunction f annotations =>
    change FunctionAdmitted _ _ ↔ FunctionAdmitted _ f
    rw [htypes]
    exact ⟨fun h => ⟨h.callable, h.returned, h.signature⟩,
      fun h => ⟨h.callable, h.returned, h.signature⟩⟩
  | ofProperty p annotations =>
    change PropertyAdmitted _ _ _ ↔ PropertyAdmitted _ _ p
    rw [htypes, hm.options]
    exact ⟨fun h => ⟨h.notExpect, h.notExternal, h.dispatch, h.extension, h.value⟩,
      fun h => ⟨h.notExpect, h.notExternal, h.dispatch, h.extension, h.value⟩⟩

end Candidate

namespace Pass

/-! ## Fates of what was marked -/

variable {p : Pass} {e e' : Evaluator} {c c' : Candidate}

/-- A candidate that a pass marks, or leaves as it is, and what comes of it. -/
structure Settles (p : Pass) (e e' : Evaluator) (c c' : Candidate) : Prop where
  alike : c.Alike c'
  isExported_iff : c'.isExported = true ↔ c.isExported = true ∨ Marks p e c
  accepted_iff : c'.question.Accepted e' ↔ c.question.Accepted e

namespace Settles

variable (h : Settles p e e' c c')

include h

theorem isExported_eq_false_iff : c'.isExported = false ↔ c.isExported = false ∧ ¬ Marks p e c := by
  rw [← Bool.not_eq_true, ← Bool.not_eq_true, h.isExported_iff, not_or]

/-- **Nothing is left to mark.** -/
theorem not_marks : ¬ Marks p e' c' := by
  intro hc
  obtain ⟨hexported, hnot⟩ := h.isExported_eq_false_iff.mp hc.isExported
  refine hnot ⟨hexported, ?_, ?_, h.accepted_iff.mp hc.accepted⟩
  · rw [← h.alike.name_eq]
    exact hc.selects
  · rw [← h.alike.gate_eq]
    exact hc.gate

/-- What was rejected is rejected again, and nothing else. -/
theorem rejects_iff : Rejects p e' c' ↔ Rejects p e c := by
  constructor
  · intro hc
    refine ⟨(h.isExported_eq_false_iff.mp hc.isExported).1, ?_, ?_, mt h.accepted_iff.mpr
      hc.notAccepted⟩
    · rw [← h.alike.name_eq]
      exact hc.selects
    · rw [← h.alike.gate_eq]
      exact hc.gate
  · intro hc
    refine ⟨h.isExported_eq_false_iff.mpr ⟨hc.isExported, fun hm => hc.notAccepted hm.accepted⟩,
      ?_, ?_, mt h.accepted_iff.mp hc.notAccepted⟩
    · rw [h.alike.name_eq]
      exact hc.selects
    · rw [h.alike.gate_eq]
      exact hc.gate

/-- What was skipped is skipped again, for the same reason, and nothing else. -/
theorem skips?_eq : p.skips? c' = p.skips? c := by
  by_cases hm : Marks p e c
  · have hexported : c'.isExported = true := h.isExported_iff.mpr (Or.inr hm)
    simp [skips?, hexported, hm.isExported, hm.selects, hm.gate]
  · have hexported : c'.isExported = c.isExported := by
      rw [Bool.eq_iff_iff, h.isExported_iff, or_iff_left hm]
    rw [skips?, skips?, hexported, h.alike.name_eq, h.alike.gate_eq]

end Settles

variable {m : SourceModule} {path : TreePath}

/-- **What becomes of a candidate** when those are marked that a pass marks. -/
theorem settles_of_mem_candidates (hc : (path, c) ∈ m.candidates) :
    let chosen := m.placesOf fun c => Marks p (.ofModule m p.options) c
    Settles p (.ofModule m p.options) (.ofModule (m.appendMarkers chosen) p.options) c
      (c.appendWhere (SourceModule.within chosen path)) := by
  intro chosen
  have hchosen : ∀ path, chosen path = true → ∃ c, (path, c) ∈ m.candidates :=
    fun path h => (SourceModule.placesOf_eq_true_iff.mp h).imp fun _ => And.left
  have hsurface : ∀ path c, (path, .ofClass c) ∈ m.candidates → chosen path = true →
      Subject.ofClass c ∈ Evaluator.surface (.ofModule m p.options) :=
    fun path c hc h => ((SourceModule.placesOf_iff_of_mem hc).mp h).accepted
  have halike := SourceModule.alike_of_mem_candidates hchosen hc
  refine ⟨halike, ?_, halike.accepted_iff (SourceModule.marked_appendMarkers hchosen hsurface) ?_⟩
  · rw [Candidate.isExported_appendWhere, SourceModule.within_nil, Bool.or_eq_true,
      SourceModule.placesOf_iff_of_mem hc]
  · rintro d d' rfl hd'
    cases hd'
    exact SourceModule.becomes_of_mem_candidates hchosen hsurface hc

/-! ## Idempotence -/

open Classical in
/-- **A second report** says that nothing was left to mark, finds marked what
was marked before or by the first run, and agrees with the first report on
everything else. -/
theorem Reports.second {cs : List (TreePath × Candidate)} {f : TreePath × Candidate → Candidate}
    {report : Report} (hf : ∀ x ∈ cs, Settles p e e' x.2 (f x))
    (h : Reports p e' (cs.map f) report) :
    report.exported = [] ∧
      report.alreadyExported
        = (cs.filter fun x => x.2.isExported ∨ Marks p e x.2).map (·.2.name.text) ∧
      report.rejected.map (fun x => (x.name, x.kind))
        = ((cs.map Prod.snd).filter fun c => Rejects p e c).map (fun c =>
            (c.name.text, c.kindText)) ∧
      report.skipped = (cs.map Prod.snd).filterMap fun c =>
        (p.skips? c).map fun reason => ⟨c.name.text, c.kindText, reason⟩ := by
  have hname : ∀ x ∈ cs, (f x).name.text = x.2.name.text :=
    fun x hx => congrArg QualifiedName.text (hf x hx).alike.name_eq
  refine ⟨?_, ?_, ?_, ?_⟩
  · rw [h.exported, List.map_eq_nil_iff, List.filter_eq_nil_iff]
    intro c' hc'
    obtain ⟨x, hx, rfl⟩ := List.mem_map.mp hc'
    simpa using (hf x hx).not_marks
  · rw [h.alreadyExported, List.filter_map, List.map_map]
    have hfilter : cs.filter ((·.isExported) ∘ f)
        = cs.filter fun x => x.2.isExported ∨ Marks p e x.2 :=
      List.filter_congr fun x hx => by
        rw [Function.comp_apply, Bool.eq_iff_iff, decide_eq_true_eq]
        exact (hf x hx).isExported_iff
    rw [hfilter]
    exact List.map_congr_left fun x hx => hname x (List.mem_of_mem_filter hx)
  · rw [h.rejected, List.filter_map, List.filter_map, List.map_map, List.map_map]
    have hfilter : cs.filter ((fun c => Decidable.decide (Rejects p e' c)) ∘ f)
        = cs.filter ((fun c => Decidable.decide (Rejects p e c)) ∘ Prod.snd) :=
      List.filter_congr fun x hx => decide_eq_decide.mpr (hf x hx).rejects_iff
    rw [hfilter]
    refine List.map_congr_left fun x hx => ?_
    have hx := List.mem_of_mem_filter hx
    exact Prod.ext (hname x hx) (hf x hx).alike.kindText_eq
  · rw [h.skipped, List.filterMap_map, List.filterMap_map]
    refine List.filterMap_congr fun x hx => ?_
    rw [Function.comp_apply, Function.comp_apply, (hf x hx).skips?_eq, hname x hx,
      (hf x hx).alike.kindText_eq]

open Classical in
/-- **Running a pass is idempotent.** Over a regular module a second run
succeeds and leaves the module as the first left it. It marks nothing, finds
marked what the first marked or found marked, in the order of the walk, and
rejects and skips the same. -/
theorem run_idempotent (p : Pass) (m : SourceModule) (h : m.Regular) :
    ∃ report report', (p.run m).report = .ok report ∧
      (p.run (p.run m).result).report = .ok report' ∧
      (p.run (p.run m).result).result = (p.run m).result ∧
      report'.exported = [] ∧
      report.exported = (m.newlyMarked (p.run m).result).map (·.2.name.text) ∧
      report.alreadyExported = (m.candidates.filter (·.2.isExported)).map (·.2.name.text) ∧
      report'.alreadyExported = (m.candidates.filter fun x =>
        x.2.isExported ∨ x ∈ m.newlyMarked (p.run m).result).map (·.2.name.text) ∧
      (report'.rejected.map fun x => (x.name, x.kind))
        = (report.rejected.map fun x => (x.name, x.kind)) ∧
      report'.skipped = report.skipped := by
  obtain ⟨report, hreport, hreports, hresult⟩ := result_of_regular p h
  obtain ⟨report₁, hreport₁, -, hnewly⟩ := run_of_regular p h
  obtain rfl : report = report₁ := Except.ok.inj (hreport.symm.trans hreport₁)
  -- the first run leaves a regular module
  let chosen := m.placesOf fun c => Marks p (.ofModule m p.options) c
  have hregular : (m.appendMarkers chosen).Regular :=
    h.appendMarkers fun path hp => (SourceModule.placesOf_eq_true_iff.mp hp).imp fun _ => And.left
  obtain ⟨report', hreport', hreports', hresult'⟩ := result_of_regular p hregular
  have hcandidates : (m.appendMarkers chosen).candidates.map Prod.snd
      = m.candidates.map fun x => x.2.appendWhere (SourceModule.within chosen x.1) := by
    rw [SourceModule.candidates_appendMarkers, List.map_map]
    rfl
  rw [hcandidates] at hreports'
  obtain ⟨hexported, halready, hrejected, hskipped⟩ :=
    hreports'.second fun x hx => settles_of_mem_candidates hx
  have hnowhere : ((m.appendMarkers chosen).placesOf fun c =>
      Marks p (.ofModule (m.appendMarkers chosen) p.options) c) = fun _ => false := by
    funext path
    rw [Bool.eq_false_iff, ne_eq, SourceModule.placesOf_eq_true_iff,
      SourceModule.candidates_appendMarkers]
    rintro ⟨c', hc', hmarks⟩
    obtain ⟨x, hx, heq⟩ := List.mem_map.mp hc'
    cases heq
    exact (settles_of_mem_candidates hx).not_marks hmarks
  have hsecond : (p.run (p.run m).result).result = (p.run m).result := by
    rw [hresult, hresult', hnowhere]
    exact SourceModule.appendMarkers_none _
  refine ⟨report, report', hreport, hresult ▸ hreport', hsecond, hexported, ?_, ?_, ?_, ?_, ?_⟩
  · rw [hreports.exported, hnewly, List.filter_map, List.map_map]
    rfl
  · rw [hreports.alreadyExported, List.filter_map, List.map_map]
    rfl
  · rw [halready]
    refine congrArg _ (List.filter_congr fun x hx => ?_)
    rw [decide_eq_decide, hnewly, List.mem_filter, decide_eq_true_eq, and_iff_right hx]
  · rw [hrejected, hreports.rejected]
  · rw [hskipped, hreports.skipped]

/-- A class that holds its holder. -/
def heldBack : ClassDecl where
  name := ⟨"test.B"⟩
  members := [.property { name := ⟨"test.B.a"⟩, backingField := some (.plain "test.A") }]

/-- A marked class with a property that cannot be exported. -/
def markedAlready : ClassDecl where
  name := ⟨"test.C"⟩
  annotations := [exportMarker]
  members := [.property (longProperty "test.C.bad")]

/-- A function that mentions a class. -/
def maker : FunctionDecl where
  name := ⟨"test.make"⟩
  returnType := .plain "test.A"

/-- An internal class. -/
def hidden : ClassDecl where
  name := ⟨"test.D"⟩
  visibility := .internal

/-- A module with declarations of every fate. -/
def mixed : SourceModule :=
  moduleOf [Evaluator.holder.toDeclaration, heldBack.toDeclaration, markedAlready.toDeclaration,
    .function maker, .property (longProperty "test.bad"), hidden.toDeclaration]

open Classical in
/-- A pass over a module with declarations of every fate, run twice. -/
theorem run_idempotent_mixed :
    mixed.Regular ∧ ∃ report report', (({} : Pass).run mixed).report = .ok report ∧
      (({} : Pass).run (({} : Pass).run mixed).result).report = .ok report' ∧
      (({} : Pass).run (({} : Pass).run mixed).result).result = (({} : Pass).run mixed).result ∧
      report'.exported = [] ∧
      report.exported = (mixed.newlyMarked (({} : Pass).run mixed).result).map (·.2.name.text) ∧
      report.alreadyExported = (mixed.candidates.filter (·.2.isExported)).map (·.2.name.text) ∧
      report'.alreadyExported = (mixed.candidates.filter fun x =>
        x.2.isExported ∨ x ∈ mixed.newlyMarked (({} : Pass).run mixed).result).map
          (·.2.name.text) ∧
      (report'.rejected.map fun x => (x.name, x.kind))
        = (report.rejected.map fun x => (x.name, x.kind)) ∧
      report'.skipped = report.skipped := by
  have hregular : mixed.Regular := by
    have hclasses : mixed.allClasses
        = [Evaluator.holder, heldBack, markedAlready, hidden] := rfl
    have hcandidates : mixed.candidates = [(⟨0, [0]⟩, .ofClass Evaluator.holder),
        (⟨0, [1]⟩, .ofClass heldBack), (⟨0, [2]⟩, .ofClass markedAlready),
        (⟨0, [3]⟩, .ofFunction maker), (⟨0, [4]⟩, .ofProperty (longProperty "test.bad")),
        (⟨0, [5]⟩, .ofClass hidden)] := rfl
    have hmentioned : mixed.mentioned = [.plain "test.B", .plain "test.A", .plain "kotlin.Long",
        .plain "test.B", .plain "test.A", .plain "kotlin.Long", .plain "test.A",
        .plain "kotlin.Long"] := rfl
    refine SourceModule.regular_of_plain (by decide) ?_ ?_ ?_
    · rw [hclasses]
      decide
    · simp [hcandidates, longProperty, PropertyDecl.valueType?]
    · simp [hmentioned]
  exact ⟨hregular, run_idempotent {} mixed hregular⟩

/-- What the second run finds marked. -/
example : (({} : Pass).run (({} : Pass).run mixed).result).report.toOption.map (·.alreadyExported)
    = some ["test.A", "test.B", "test.C", "test.make"] := by
  decide +kernel

end Pass

end ExportSurface
