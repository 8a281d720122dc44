import ExportSurface.Proofs.Lockstep
import ExportSurface.Proofs.Remarking
/-!
# Parallel runs

A pass over two modules whose candidates stand for one another, one by one and in
the order of the walk (`Candidate.Twins`), goes the same way: it comes to the end
over both, with paired rulings and one memo, or it fails over both for the same
property (`Pass.run_in_step`). Rulings that are paired are reported alike
(`Pass.paired_reportAll`), up to the reasons of rejections and to the signatures.
-/

namespace ExportSurface

section Paired

variable (R : Rejection → Rejection → Prop)

/-- Decisions that agree, the reasons of rejections being related. -/
inductive Decision.Paired : Decision → Decision → Prop
  | mark : Paired .mark .mark
  | alreadyExported : Paired .alreadyExported .alreadyExported
  | skip (reason : SkipReason) : Paired (.skip reason) (.skip reason)
  | reject {reason reason' : Rejection} :
      R reason reason' → Paired (.reject reason) (.reject reason')

/-- Candidates that stand for one another: a pass sees the same of both before it
asks for a verdict, and the verdicts go in step. -/
structure Candidate.Twins (e e' : Evaluator) (c c' : Candidate) : Prop where
  name : c.name = c'.name
  kindText : c.kindText = c'.kindText
  isExported : c.isExported = c'.isExported
  gate : c.gate = c'.gate
  verdict : Query.InStep R (Verdict.Paired R) (c.verdict e) (c'.verdict e')

/-- Rulings that agree on candidates that are related. -/
structure Ruling.Paired (K : TreePath × Candidate → TreePath × Candidate → Prop)
    (r r' : Ruling) : Prop where
  candidates : K (r.path, r.candidate) (r'.path, r'.candidate)
  decision : Decision.Paired R r.decision r'.decision

/-- Reports that agree, the reasons of rejections being related and the signatures
not being compared. -/
structure Report.Paired (r r' : Report) : Prop where
  moduleName : r.moduleName = r'.moduleName
  exported : r.exported = r'.exported
  alreadyExported : r.alreadyExported = r'.alreadyExported
  rejected : List.Forall₂ (fun x y => x.name = y.name ∧ x.kind = y.kind ∧ R x.reason y.reason)
    r.rejected r'.rejected
  skipped : r.skipped = r'.skipped
  memo : r.memo = r'.memo

end Paired

theorem Decision.Paired.mark_iff {R : Rejection → Rejection → Prop} {d d' : Decision}
    (h : d.Paired R d') : d = .mark ↔ d' = .mark := by
  cases h with
  | mark => exact Iff.rfl
  | alreadyExported => exact Iff.rfl
  | skip reason => exact Iff.rfl
  | reject _ => exact ⟨fun h => (nomatch h), fun h => (nomatch h)⟩

theorem Decision.Paired.ofVerdict {R : Rejection → Rejection → Prop} {v w : Verdict}
    (h : v.Paired R w) : (Decision.ofVerdict v).Paired R (Decision.ofVerdict w) := by
  cases h with
  | exportable => exact .mark
  | rejected hreason => exact .reject hreason

theorem Decision.Paired.eq {d d' : Decision} (h : d.Paired Eq d') : d = d' := by
  cases h with
  | mark => rfl
  | alreadyExported => rfl
  | skip reason => rfl
  | reject hreason => rw [hreason]

/-- **One decision reported**: candidates that look alike are added alike. -/
theorem Report.Paired.add {R : Rejection → Rejection → Prop} {r r' : Report} {c c' : Candidate}
    {d d' : Decision} (h : r.Paired R r') (hname : c.name = c'.name)
    (hkind : c.kindText = c'.kindText) (hd : d.Paired R d') :
    (r.add c d).Paired R (r'.add c' d') := by
  cases hd with
  | mark => exact { h with exported := by simp [Report.add, h.exported, hname] }
  | alreadyExported =>
    exact { h with alreadyExported := by simp [Report.add, h.alreadyExported, hname] }
  | skip reason => exact { h with skipped := by simp [Report.add, h.skipped, hname, hkind] }
  | reject hreason =>
    have hname : c.name.text = c'.name.text := congrArg QualifiedName.text hname
    exact { h with
      rejected := List.rel_append h.rejected (.cons ⟨hname, hkind, hreason⟩ .nil) }

/-- Evaluators of modules whose classes stand for one another go in step. -/
theorem Evaluator.inStep_ofModule {R : Rejection → Rejection → Prop} {m m' : SourceModule}
    {options options' : RuleOptions}
    (h : List.Forall₂ (Twins R (.ofModule m options) (.ofModule m' options'))
      m.allClasses m'.allClasses) :
    InStep R (.ofModule m options) (.ofModule m' options') :=
  SourceModule.rel_find?_name (fun _ _ hc => hc.name) (List.forall₂_reverse_iff.mpr h)

namespace Pass

variable {R : Rejection → Rejection → Prop} {p : Pass} {e e' : Evaluator}
  {K : TreePath × Candidate → TreePath × Candidate → Prop}

/-- **One decision**: a pass decides in step on candidates that stand for one
another. -/
theorem inStep_decide {c c' : Candidate} (h : c.Twins R e e' c') :
    Query.InStep R (Decision.Paired R) (p.decide e c) (p.decide e' c') := by
  cases hexported : c.isExported with
  | true =>
    rw [decide_of_isExported hexported, decide_of_isExported (h.isExported ▸ hexported)]
    exact Query.inStep_pure .alreadyExported
  | false =>
    have hexported' : c'.isExported = false := h.isExported ▸ hexported
    cases hfilter : p.filter.selects c.name.text with
    | false =>
      rw [decide_of_not_selects hexported hfilter,
        decide_of_not_selects hexported' (h.name ▸ hfilter)]
      exact Query.inStep_pure (.skip .filtered)
    | true =>
      cases hgate : c.gate with
      | some reason =>
        rw [decide_of_gate hexported hfilter hgate,
          decide_of_gate hexported' (h.name ▸ hfilter) (h.gate ▸ hgate)]
        exact Query.inStep_pure (.skip reason)
      | none =>
        rw [decide_of_gate_none hexported hfilter hgate,
          decide_of_gate_none hexported' (h.name ▸ hfilter) (h.gate ▸ hgate)]
        exact Query.inStep_map h.verdict fun _ _ => .ofVerdict

section Candidates

variable (hK : ∀ x y, K x y → x.2.Twins R e e' y.2) {s s' s₁ : Session}
  {cs cs' : List (TreePath × Candidate)} {rs : List Ruling}
include hK

/-- **All decisions**: where candidates stand for one another, one by one, a pass
that comes to the end over the one list comes to the end over the other. -/
theorem Decides.inStep (h : Decides p e s cs rs s₁) (hcs : List.Forall₂ K cs cs')
    (hs : s.Paired R s') :
    ∃ rs' s₁', Decides p e' s' cs' rs' s₁' ∧ List.Forall₂ (Ruling.Paired R K) rs rs' ∧
      s₁.Paired R s₁' := by
  induction h generalizing cs' s' with
  | nil s =>
    cases hcs
    exact ⟨[], s', .nil s', .nil, hs⟩
  | @cons s s₀ s₁ path c d cs rs hask _ ih =>
    cases hcs with
    | @cons _ y _ cs' hc hcs =>
      obtain ⟨path', c'⟩ := y
      have hstep := inStep_decide (p := p) (hK _ _ hc) s s' hs
      rw [hask] at hstep
      cases hask' : (p.decide e' c').ask s' with
      | mk result s₀' =>
        rw [hask'] at hstep
        cases hstep with
        | answered hd hs₀ =>
          obtain ⟨rs', s₁', hdecides, hrs, hs₁⟩ := ih hcs hs₀
          exact ⟨⟨path', c', _⟩ :: rs', s₁', .cons hask' hdecides, .cons ⟨hc, hd⟩ hrs, hs₁⟩

end Candidates

/-! ## What paired rulings come to -/

/-- Paired rulings mark in the same places. -/
theorem forall₂_marking {rs rs' : List Ruling} (h : List.Forall₂ (Ruling.Paired R K) rs rs') :
    List.Forall₂ (Ruling.Paired R K) (marking rs) (marking rs') := by
  refine List.rel_filter (fun r r' hr => ?_) h
  simpa using hr.decision.mark_iff

/-- **Paired rulings are reported alike.** -/
theorem paired_reportAll {report report' : Report}
    (hK : ∀ x y, K x y → x.2.Twins R e e' y.2) {rs rs' : List Ruling}
    (h : List.Forall₂ (Ruling.Paired R K) rs rs') (hreport : report.Paired R report') :
    (reportAll report rs).Paired R (reportAll report' rs') := by
  induction h generalizing report report' with
  | nil => exact hreport
  | cons hr _ ih =>
    have htwins := hK _ _ hr.candidates
    exact ih (hreport.add htwins.name htwins.kindText hr.decision)

/-! ## Whole runs -/

/-- **Runs over candidates that stand for one another go in step.** Either both come to
the end, with paired rulings and sessions, or both fail alike, after paired rulings. -/
theorem run_in_step {m m' : SourceModule}
    (hK : ∀ x y, K x y →
      x.2.Twins R (.ofModule m p.options) (.ofModule m' p.options) y.2)
    (hcs : List.Forall₂ K m.candidates m'.candidates) :
    (∃ rs rs' s s', Decides p (.ofModule m p.options) {} m.candidates rs s ∧
      Decides p (.ofModule m' p.options) {} m'.candidates rs' s' ∧
      List.Forall₂ (Ruling.Paired R K) rs rs' ∧ s.Paired R s') ∨
    ∃ rs rs' failure last, List.Forall₂ (Ruling.Paired R K) rs rs' ∧
      p.run m = ⟨m, .error failure, (p.banner :: rulingDiagnostics rs) ++ [last]⟩ ∧
      p.run m' = ⟨m', .error failure, (p.banner :: rulingDiagnostics rs') ++ [last]⟩ := by
  have hstart : Session.Paired R {} {} := ⟨rfl, .nil⟩
  rcases decides_or_fails p (.ofModule m p.options) {} m.candidates with
    ⟨rs, s, h⟩ | ⟨before, path, c, after, rs, s₁, failure, s₂, hsplit, h, hfail⟩
  · left
    obtain ⟨rs', s', h', hrs, hs⟩ := h.inStep hK hcs hstart
    exact ⟨rs, rs', s, s', h, h', hrs, hs⟩
  · right
    -- the other list has a candidate that stands for the one whose decision fails
    have hflip : List.Forall₂ (flip K) m'.candidates (before ++ (path, c) :: after) :=
      hsplit ▸ List.Forall₂.flip hcs
    obtain ⟨⟨path', c'⟩, after', hc, -, hdrop⟩ :=
      List.forall₂_cons_right_iff.mp (List.forall₂_drop_append _ _ _ hflip)
    have hbefore : List.Forall₂ K before (m'.candidates.take before.length) :=
      (List.forall₂_take_append _ _ _ hflip).flip
    have hsplit' : m'.candidates = m'.candidates.take before.length ++ (path', c') :: after' := by
      rw [← hdrop, List.take_append_drop]
    obtain ⟨rs', s₁', h', hrs, hs₁⟩ := h.inStep hK hbefore hstart
    have hstep := inStep_decide (p := p) (hK _ _ hc) s₁ s₁' hs₁
    rw [hfail] at hstep
    cases hask' : (p.decide (.ofModule m' p.options) c').ask s₁' with
    | mk result s₂' =>
      rw [hask'] at hstep
      cases hstep with
      | failed failure _ =>
        refine ⟨rs, rs', failure, _, hrs, run_of_failure hsplit h hfail, ?_⟩
        rw [run_of_failure hsplit' h' hask', (hK _ _ hc).name]

end Pass

end ExportSurface
