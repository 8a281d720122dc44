import ExportSurface.Proofs.Rejections
/-!
# What a run comes to

Over a regular module the outcome of a pass is a function of the candidates and
of the export surface (`Pass.run_of_regular`): newly marked are the candidates
that get past the filter and the gate and are accepted (`Pass.Marks`), rejected
those that get as far and are not (`Pass.Rejects`), skipped those that are
stopped before (`Pass.skips?`). The session in which the pass decided leaves no
trace in it, but for the reasons that are given for rejected classes.
-/

namespace ExportSurface

/-! ## Newly marked candidates -/

namespace SourceModule

/-- The candidates of a module that are not marked in it, but are in what
became of it. -/
def newlyMarked (m result : SourceModule) : List (TreePath × Candidate) :=
  m.candidates.filter fun x =>
    !x.2.isExported && (result.find? x.1).any Declaration.isExported

variable {m : SourceModule} {chosen : TreePath → Bool} {path : TreePath} {c : Candidate}

/-- A candidate that is not marked is afterwards where its place is chosen. -/
theorem any_isExported_appendMarkers (hc : (path, c) ∈ m.candidates)
    (hmarked : c.isExported = false) :
    ((m.appendMarkers chosen).find? path).any Declaration.isExported = chosen path := by
  rw [find?_appendMarkers (find?_of_mem_candidates hc), Option.any_some]
  cases hchosen : chosen path with
  | true =>
    refine Declaration.isExported_appendWhere_of_chosen (by simpa using hchosen) fun k => ?_
    cases c with
    | ofClass c => exact fun h => nomatch h
    | ofFunction f => exact fun h => nomatch h
    | ofProperty p => exact fun h => nomatch h
  | false =>
    rw [Declaration.isExported_appendWhere (by simpa using hchosen),
      Candidate.isExported_toDeclaration, hmarked]

open Classical in
/-- Whether a place is that of a candidate of a kind. -/
noncomputable def placesOf (m : SourceModule) (P : Candidate → Prop) (path : TreePath) : Bool :=
  ((m.candidates.filter fun x => P x.2).map Prod.fst).contains path

variable {P : Candidate → Prop}

theorem placesOf_eq_true_iff :
    m.placesOf P path = true ↔ ∃ c, (path, c) ∈ m.candidates ∧ P c := by
  simp [placesOf]

/-- No two candidates have one place. -/
theorem placesOf_iff_of_mem (hc : (path, c) ∈ m.candidates) : m.placesOf P path = true ↔ P c := by
  rw [placesOf_eq_true_iff]
  constructor
  · rintro ⟨c', hc', hP⟩
    have hsame := List.inj_on_of_nodup_map (nodup_candidates m) hc' hc rfl
    cases hsame
    exact hP
  · exact fun h => ⟨c, hc, h⟩

open Classical in
/-- **Candidates chosen by what they are** are those newly marked, if they were
not marked. -/
theorem newlyMarked_appendMarkers (hP : ∀ c, P c → c.isExported = false) :
    m.newlyMarked (m.appendMarkers (m.placesOf P)) = m.candidates.filter fun x => P x.2 := by
  refine List.filter_congr fun x hx => ?_
  obtain ⟨path, c⟩ := x
  cases hmarked : c.isExported with
  | true =>
    have hnot : ¬ P c := fun h => by simp [hP c h] at hmarked
    simp [hnot]
  | false =>
    rw [any_isExported_appendMarkers hx hmarked, Bool.eq_iff_iff, Bool.not_false, Bool.true_and,
      decide_eq_true_eq]
    exact placesOf_iff_of_mem hx

end SourceModule

namespace Pass

variable {p : Pass} {e : Evaluator} {m : SourceModule} {s s' : Session} {rs : List Ruling}

/-- No two rulings on the candidates of a module are about one place. -/
theorem Decides.nodup_paths (h : Decides p e s m.candidates rs s') :
    (rs.map Ruling.path).Nodup := by
  have hplaces := SourceModule.nodup_candidates m
  rwa [← h.candidates, List.map_map] at hplaces

/-- **Newly marked are the candidates that the rulings of a run mark**, in order. -/
theorem newlyMarked_of_decides (h : Decides p (.ofModule m p.options) {} m.candidates rs s') :
    m.newlyMarked (p.run m).result = (marking rs).map fun r => (r.path, r.candidate) := by
  rw [SourceModule.newlyMarked, run_of_decides h, ← h.candidates, List.filter_map, marking]
  refine congrArg _ (List.filter_congr fun r hr => ?_)
  have hmem : (r.path, r.candidate) ∈ m.candidates := h.candidates ▸ List.mem_map_of_mem hr
  cases hmarked : r.candidate.isExported with
  | true =>
    have hnot : r.decision ≠ .mark := fun hmark => by
      rw [(h.admitted_of_mark hr hmark).1] at hmarked
      cases hmarked
    simp [hmarked, hnot]
  | false =>
    rw [Function.comp_apply, SourceModule.any_isExported_appendMarkers hmem hmarked, hmarked,
      Bool.not_false, Bool.true_and, Bool.eq_iff_iff, List.contains_iff_mem, decide_eq_true_eq]
    constructor
    · intro hplace
      obtain ⟨r', hr', hpath⟩ := List.mem_map.mp hplace
      obtain ⟨hin, hmark⟩ := List.mem_filter.mp hr'
      -- no two candidates have one place, so the ruling that marks there is this one
      rw [← List.inj_on_of_nodup_map h.nodup_paths hin hr hpath]
      simpa using hmark
    · exact fun hmark => List.mem_map_of_mem (List.mem_filter.mpr ⟨hr, by simpa using hmark⟩)

/-! ## Fates of candidates -/

/-- Whether a candidate comes before the evaluator and is accepted on the
surface. -/
structure Marks (p : Pass) (e : Evaluator) (c : Candidate) : Prop where
  isExported : c.isExported = false
  selects : p.filter.selects c.name.text = true
  gate : c.gate = none
  accepted : c.question.Accepted e

/-- Why a candidate that is not marked does not come before the evaluator. -/
def skips? (p : Pass) (c : Candidate) : Option SkipReason :=
  if c.isExported then none
  else if p.filter.selects c.name.text then c.gate
  else some .filtered

variable {r : Ruling}

theorem ruled_mark_iff (h : Ruled p e r.candidate r.decision) :
    r.decision = .mark ↔ Marks p e r.candidate := by
  obtain ⟨path, c, d⟩ := r
  change Ruled p e c d at h
  change d = .mark ↔ Marks p e c
  cases h with
  | alreadyExported hmarked =>
    refine ⟨fun hd => (nomatch hd), fun hm => ?_⟩
    rw [hm.isExported] at hmarked
    cases hmarked
  | filtered _ hfilter =>
    refine ⟨fun hd => (nomatch hd), fun hm => ?_⟩
    rw [hm.selects] at hfilter
    cases hfilter
  | gated _ _ hgate =>
    refine ⟨fun hd => (nomatch hd), fun hm => ?_⟩
    rw [hm.gate] at hgate
    cases hgate
  | @judged v hmarked hfilter hgate hv _ =>
    cases v with
    | exportable => exact ⟨fun _ => ⟨hmarked, hfilter, hgate, hv.mp rfl⟩, fun _ => rfl⟩
    | rejected reason =>
      refine ⟨fun hd => (nomatch hd), fun hm => ?_⟩
      cases hv.mpr hm.accepted

theorem ruled_alreadyExported_iff (h : Ruled p e r.candidate r.decision) :
    r.decision = .alreadyExported ↔ r.candidate.isExported = true := by
  obtain ⟨path, c, d⟩ := r
  change Ruled p e c d at h
  change d = .alreadyExported ↔ c.isExported = true
  cases h with
  | alreadyExported hmarked => exact ⟨fun _ => hmarked, fun _ => rfl⟩
  | filtered hmarked _ => simp [hmarked]
  | gated hmarked _ _ => simp [hmarked]
  | @judged v hmarked _ _ _ _ =>
    cases v with
    | exportable => simp [hmarked, Decision.ofVerdict]
    | rejected reason => simp [hmarked, Decision.ofVerdict]

theorem ruled_skipped (h : Ruled p e r.candidate r.decision) :
    r.skipped? = (p.skips? r.candidate).map fun reason =>
      ⟨r.candidate.name.text, r.candidate.kindText, reason⟩ := by
  obtain ⟨path, c, d⟩ := r
  change Ruled p e c d at h
  cases h with
  | alreadyExported hmarked => simp [skips?, hmarked, Ruling.skipped?]
  | filtered hmarked hfilter => simp [skips?, hmarked, hfilter, Ruling.skipped?]
  | gated hmarked hfilter hgate => simp [skips?, hmarked, hfilter, hgate, Ruling.skipped?]
  | @judged v hmarked hfilter hgate _ _ =>
    cases v with
    | exportable =>
      simp [skips?, hmarked, hfilter, hgate, Ruling.skipped?, Decision.ofVerdict]
    | rejected reason =>
      simp [skips?, hmarked, hfilter, hgate, Ruling.skipped?, Decision.ofVerdict]

/-! ## The outcome -/

open Classical in
/-- What a report says, but for the reasons it gives for rejections. -/
structure Reports (p : Pass) (e : Evaluator) (cs : List Candidate) (report : Report) : Prop where
  exported : report.exported = (cs.filter fun c => Marks p e c).map (·.name.text)
  alreadyExported : report.alreadyExported = (cs.filter (·.isExported)).map (·.name.text)
  rejected : report.rejected.map (fun x => (x.name, x.kind))
    = (cs.filter fun c => Rejects p e c).map fun c => (c.name.text, c.kindText)
  skipped : report.skipped = cs.filterMap fun c =>
    (p.skips? c).map fun reason => ⟨c.name.text, c.kindText, reason⟩

open Classical in
theorem marking_of_ruled (h : ∀ r ∈ rs, Ruled p e r.candidate r.decision) :
    marking rs = rs.filter fun r => Marks p e r.candidate :=
  List.filter_congr fun r hr => by
    rw [Bool.eq_iff_iff, decide_eq_true_eq, decide_eq_true_eq]
    exact ruled_mark_iff (h r hr)

theorem reports_of_ruled (name : String) (memo : MemoStats)
    (h : ∀ r ∈ rs, Ruled p e r.candidate r.decision) :
    Reports p e (rs.map Ruling.candidate)
      { reportAll { moduleName := name } rs with memo := memo } := by
  classical
  rw [reportAll_eq]
  constructor
  · rw [marking_of_ruled h, List.filter_map, List.map_map]
    rfl
  · have hfilter : (rs.filter fun r => r.decision = .alreadyExported)
        = rs.filter fun r => r.candidate.isExported :=
      List.filter_congr fun r hr => by
        rw [Bool.eq_iff_iff, decide_eq_true_eq]
        exact ruled_alreadyExported_iff (h r hr)
    rw [hfilter, List.filter_map, List.map_map]
    rfl
  · have hpairs : List.Forall₂ Eq
        (((rs.map Ruling.candidate).filter fun c => Rejects p e c).map
          fun c => (c.name.text, c.kindText))
        ((rs.filterMap Ruling.rejected?).map fun x => (x.name, x.kind)) := by
      rw [List.forall₂_map_left_iff, List.forall₂_map_right_iff]
      exact (forall₂_rejected h).imp fun c x hx => Prod.ext hx.1.symm hx.2.1.symm
    rw [List.forall₂_eq_eq_eq] at hpairs
    exact hpairs.symm
  · rw [List.filterMap_map]
    exact List.filterMap_congr fun r hr => ruled_skipped (h r hr)

/-- **What a pass makes of a regular module**: the candidates that it marks are
marked, and the report follows from the candidates and the export surface. -/
theorem result_of_regular (p : Pass) {m : SourceModule} (h : m.Regular) :
    ∃ report, (p.run m).report = .ok report ∧
      Reports p (.ofModule m p.options) (m.candidates.map Prod.snd) report ∧
      (p.run m).result
        = m.appendMarkers (m.placesOf fun c => Marks p (.ofModule m p.options) c) := by
  obtain ⟨rs, s', hdecides, hruled⟩ := exists_decides p h
  have hcandidates : m.candidates.map Prod.snd = rs.map Ruling.candidate := by
    rw [← hdecides.candidates, List.map_map]
    rfl
  have hplaces : (fun path => (markedPlaces rs).contains path)
      = m.placesOf fun c => Marks p (.ofModule m p.options) c := by
    funext path
    rw [SourceModule.placesOf, markedPlaces, marking_of_ruled hruled, ← hdecides.candidates,
      List.filter_map, List.map_map]
    rfl
  rw [run_of_decides hdecides]
  refine ⟨_, rfl, ?_, congrArg m.appendMarkers hplaces⟩
  rw [hcandidates]
  exact reports_of_ruled m.name _ hruled

open Classical in
/-- **The outcome of a pass over a regular module** follows from the candidates
and the export surface. -/
theorem run_of_regular (p : Pass) {m : SourceModule} (h : m.Regular) :
    ∃ report, (p.run m).report = .ok report ∧
      Reports p (.ofModule m p.options) (m.candidates.map Prod.snd) report ∧
      m.newlyMarked (p.run m).result
        = m.candidates.filter fun x => Marks p (.ofModule m p.options) x.2 := by
  obtain ⟨report, hreport, hreports, hresult⟩ := result_of_regular p h
  refine ⟨report, hreport, hreports, ?_⟩
  rw [hresult]
  exact SourceModule.newlyMarked_appendMarkers fun c hc => hc.isExported

end Pass

end ExportSurface
