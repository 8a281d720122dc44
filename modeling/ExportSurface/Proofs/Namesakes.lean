import ExportSurface.Proofs.Outcomes
import ExportSurface.Proofs.Places
import ExportSurface.Proofs.Unfolding
/-!
# Classes of one name

A pass visits classes by their places, the index finds one class by its name,
and the memo keeps one answer under a name. Where a name is that of one class
these are the same class, and where it is not, an answer worked out on one body
is given for another (`Pass.twin_marked`).

What can be said with no condition on names is that every answer kept about a
name was worked out on some class of the name, with the verdict to it
(`Evaluator.Vouched`), which each question preserves. So a class that a pass
marks is public, and some class of its name is fit to be marked by its own body
(`Pass.run_justified`): the class itself, one that was visited before, or the
one in the index.
-/

namespace ExportSurface

/-! ## What answers keep -/

namespace Query

variable {α β : Type} {I : Session → Prop}

/-- What holds of a session before an answer holds after it. -/
def Keeps (I : Session → Prop) (q : Query α) : Prop :=
  ∀ s a s', I s → q.ask s = (.ok a, s') → I s'

theorem keeps_pure (a : α) : (pure a : Query α).Keeps I := by
  intro s b s' hs h
  cases h
  exact hs

theorem keeps_bind {q : Query α} {f : α → Query β} (hq : q.Keeps I) (hf : ∀ a, (f a).Keeps I) :
    (q >>= f).Keeps I := by
  intro s b s' hs h
  rw [ask_bind] at h
  cases hfirst : q.ask s with
  | mk result s₁ =>
    rw [hfirst] at h
    cases result with
    | error failure => cases h
    | ok a => exact hf a s₁ b s' (hq s a s₁ hs hfirst) h

end Query

open Query

theorem Inquiry.keeps_run {α : Type} {I : Session → Prop} {ask : TypeRef → Query Bool}
    (hask : ∀ t, (ask t).Keeps I) (q : Inquiry α) : (q.run ask).Keeps I := by
  induction q with
  | done a => exact keeps_pure a
  | fail failure =>
    intro s a s' _ h
    cases h
  | ask t next ih => exact keeps_bind (hask t) ih

/-- A class that is not marked and whose own body is no reason to reject it: it
meets the criterion, if all types without star projections can be exported. -/
structure ClassDecl.Fit (options : RuleOptions) (c : ClassDecl) : Prop where
  isExported : c.isExported = false
  admitted : ClassAdmitted options (fun t => t.hasStar = false) c

namespace Evaluator

variable {e : Evaluator} {J : ClassDecl → Prop} {ask : TypeRef → Query Bool} {c : ClassDecl}
  {t : TypeRef} {s s' s₂ : Session} {b : Bool} {v : Verdict}

/-! ## Answers about classes -/

/-- With nothing in flight, an answer about a class is kept. -/
theorem state?_of_ask_examineClass (hask : ∀ t, (ask t).Grows) (hs : s.memo.Stacked)
    (hopen : s.memo.openCount = 0) (h : (examineClass e ask c).ask s = (.ok b, s')) :
    s'.memo.state? (.ofClass c.name.text) = some (.resolved b) := by
  rcases examineClass_cases h with ⟨hfound, rfl⟩ | ⟨hnone, v, s₂, hbody, rfl, rfl⟩
  · rcases Memo.state?_of_lookup_fst_eq_some hfound with hkept | ⟨-, d, hflight⟩
    · exact (Memo.state?_lookup s.memo _).trans hkept
    · have := hs.depth_lt hflight
      omega
  · have hgrows : (opened s (.ofClass c.name.text)).memo.Grows s₂.memo := by
      have hrun := Inquiry.grows_run hask (Rule.ofClass e.options Inquiry.put c)
        (opened s (.ofClass c.name.text))
      rwa [Inquiry.run_ofClass, hbody] at hrun
    have hempty : (s.memo.lookup (.ofClass c.name.text)).2.openCount = 0 :=
      (Memo.grows_lookup s.memo _).openCount.trans hopen
    rw [memo_closedBy]
    exact (Memo.state?_resolve_eq_some_iff hgrows).mpr ⟨rfl, fun _ => hempty ▸ Nat.zero_le _⟩

/-! ### Star projections -/

theorem hasStar_of_examineType (h : (examineType e ask t).ask s = (.ok true, s')) :
    t.hasStar = false := by
  cases hstar : t.hasStar with
  | false => rfl
  | true =>
    rw [examineType_of_hasStar hstar] at h
    cases h

theorem hasStar_of_typeWithin {depth : Nat} (h : (typeWithin e depth t).ask s = (.ok true, s')) :
    t.hasStar = false := by
  cases depth with
  | zero => cases h
  | succ depth => exact hasStar_of_examineType h

/-! ## Vouched answers -/

/-- Each class name with an answer kept has a verdict to go with it, and where
that lets the class pass, there is a class of the name to vouch for it. -/
def Vouched (J : ClassDecl → Prop) (s : Session) : Prop :=
  ∀ name b, s.memo.state? (.ofClass name.text) = some (.resolved b) →
    ∃ v, s.verdicts.lookup name = some v ∧ v.isExportable = b ∧
      (b = true → ∃ d, d.name = name ∧ J d)

namespace Vouched

theorem empty : Vouched J {} := fun _ _ h => nomatch h

theorem imp {K : ClassDecl → Prop} (hs : Vouched J s) (h : ∀ d, J d → K d) : Vouched K s := by
  intro name b hb
  obtain ⟨v, hv, hvb, hd⟩ := hs name b hb
  exact ⟨v, hv, hvb, fun htrue => (hd htrue).imp fun d => And.imp_right (h d)⟩

theorem of_resolved (hs : Vouched J s) (hverdicts : s'.verdicts = s.verdicts)
    (h : ∀ name b, s'.memo.state? (.ofClass name) = some (.resolved b) →
      s.memo.state? (.ofClass name) = some (.resolved b)) : Vouched J s' := by
  intro name b hb
  rw [hverdicts]
  exact hs name b (h _ b hb)

theorem lookup (hs : Vouched J s) (key : MemoKey) :
    Vouched J { s with memo := (s.memo.lookup key).2 } :=
  hs.of_resolved rfl fun _ _ hb => (Memo.state?_lookup s.memo key).symm.trans hb

theorem opened (hs : Vouched J s) (key : MemoKey) : Vouched J (opened s key) :=
  hs.of_resolved rfl fun _ _ hb => resolved_of_resolved_opened hb

theorem closed_ofType (hs : Vouched J s) (key : String) (answer : Bool) :
    Vouched J (closed s (.ofType key) answer) :=
  hs.of_resolved rfl fun _ _ hb =>
    (Memo.state?_resolve_of_ne fun h => by cases h).symm.trans hb

/-- **A verdict is kept with its answer**, and the class it was reached on
vouches for it. -/
theorem closedBy (hs : Vouched J s) (hv : v.isExportable = true → J c) :
    Vouched J (closedBy s c v) := by
  intro name b hb
  rcases resolved_closedBy hb with ⟨rfl, rfl, hfound⟩ | ⟨-, hkept, hfound⟩
  · exact ⟨v, hfound, rfl, fun htrue => ⟨c, rfl, hv htrue⟩⟩
  · rw [hfound]
    exact hs name b hkept

end Vouched

/-! ### Evaluations keep answers vouched for -/

section Keeps

variable (hask : ∀ t, (ask t).Keeps (Vouched J))
  (hstar : ∀ t s s', (ask t).ask s = (.ok true, s') → t.hasStar = false)
include hask hstar

theorem keeps_examineClass (hc : c.isExported = false) (hJ : c.Fit e.options → J c) :
    (examineClass e ask c).Keeps (Vouched J) := by
  intro s b s' hs h
  rcases examineClass_cases h with ⟨-, rfl⟩ | ⟨-, v, s₂, hbody, rfl, rfl⟩
  · exact hs.lookup _
  · rw [← Inquiry.run_ofClass] at hbody
    refine ((Inquiry.keeps_run hask _) _ _ _ (hs.opened _) hbody).closedBy fun hv => hJ ⟨hc, ?_⟩
    -- the class is not marked, so a verdict that lets it pass has found it fit
    have hends := Rule.demands_ofClass (F := fun _ => True) (X := fun t => t.hasStar = false)
      e.options c fun _ _ _ => trivial
    have hadmitted := Inquiry.Ends.of_run hstar hends hbody hv
    simpa [hc] using hadmitted

variable (hindex : ∀ name d, e.classNamed? name = some d → d.Fit e.options → J d)
include hindex

theorem keeps_examineNamed (t : TypeRef) : (examineNamed e ask t).Keeps (Vouched J) :=
  examineNamed_induction keeps_pure (Inquiry.keeps_run hask _) fun name d hname hmarked =>
    keeps_examineClass hask hstar hmarked (hindex name d hname)

theorem keeps_examineType (t : TypeRef) : (examineType e ask t).Keeps (Vouched J) := by
  refine examineType_induction keeps_pure (fun ts => Inquiry.keeps_run hask _)
    fun hnamed hfree s b s' hs h => ?_
  rcases examineType_cases hnamed hfree h with ⟨-, rfl⟩ | ⟨-, s₂, hbody, rfl⟩
  · exact hs.lookup _
  · have hs₂ := keeps_examineNamed hask hstar hindex t _ _ _ (hs.opened _) hbody
    exact hs₂.closed_ofType _ _

end Keeps

section Verdicts

variable (hindex : ∀ name d, e.classNamed? name = some d → d.Fit e.options → J d)
include hindex

/-- **Whatever types are asked about, answers stay vouched for.** -/
theorem keeps_typeWithin (depth : Nat) (t : TypeRef) :
    (typeWithin e depth t).Keeps (Vouched J) := by
  induction depth generalizing t with
  | zero => exact keeps_pure false
  | succ depth ih =>
    exact keeps_examineType ih (fun t s s' h => hasStar_of_typeWithin h) hindex t

theorem keeps_functionVerdict (f : FunctionDecl) : (functionVerdict e f).Keeps (Vouched J) := by
  rw [functionVerdict, ← Inquiry.run_ofFunction]
  exact Inquiry.keeps_run (keeps_typeWithin hindex _) _

theorem keeps_propertyVerdict (p : PropertyDecl) : (propertyVerdict e p).Keeps (Vouched J) := by
  rw [propertyVerdict, ← Inquiry.run_ofProperty]
  exact Inquiry.keeps_run (keeps_typeWithin hindex _) _

/-- **A verdict that lets a class pass is vouched for** by a class of its name,
with nothing in flight. -/
theorem vouched_classVerdict (hs : Vouched J s) (hstacked : s.memo.Stacked)
    (hopen : s.memo.openCount = 0) (hc : c.isExported = false) (hJ : c.Fit e.options → J c)
    (h : (classVerdict e c).ask s = (.ok v, s')) :
    Vouched J s' ∧ (v.isExportable = true → ∃ d, d.name = c.name ∧ J d) := by
  rw [classVerdict, ask_bind] at h
  cases hclass : (classExportable e c).ask s with
  | mk result s₁ =>
    rw [hclass] at h
    cases result with
    | error failure => cases h
    | ok b =>
      cases h
      have hs₁ := keeps_examineClass (keeps_typeWithin hindex _)
        (fun t s s' h => hasStar_of_typeWithin h) hc hJ _ _ _ hs hclass
      refine ⟨hs₁, ?_⟩
      -- the answer was kept, so the verdict found is the one that goes with it
      obtain ⟨v, hv, hvb, hd⟩ := hs₁ c.name b
        (state?_of_ask_examineClass (grows_typeWithin _) hstacked hopen hclass)
      rw [hv]
      exact fun hpass => hd (hvb.symm.trans hpass)

end Verdicts

end Evaluator

/-! ## Decisions -/

namespace Pass

open Evaluator

variable {p : Pass} {e : Evaluator} {x : Candidate} {c : ClassDecl} {s s' : Session} {d : Decision}
  {path : TreePath} {seen cs : List (TreePath × Candidate)} {rs : List Ruling}

theorem grows_decide (p : Pass) (e : Evaluator) (x : Candidate) : (p.decide e x).Grows := by
  rcases decide_cases p e x with ⟨d, -, hd⟩ | ⟨-, -, -, hd⟩
  · rw [hd]
    exact Query.grows_pure d
  · rw [hd]
    refine Query.grows_map _ ?_
    cases x with
    | ofClass c => exact grows_classVerdict c
    | ofFunction f => exact grows_functionVerdict f
    | ofProperty q => exact grows_propertyVerdict q

variable (e) in
/-- The classes that can vouch for a verdict: those fit to be marked that the
index finds or that were visited. -/
def Voucher (seen : List (TreePath × Candidate)) (d : ClassDecl) : Prop :=
  d.Fit e.options ∧ (e.classNamed? d.name = some d ∨ ∃ path, (path, .ofClass d) ∈ seen)

variable (e) in
/-- A session between the decisions of a pass. -/
structure Between (seen : List (TreePath × Candidate)) (s : Session) : Prop where
  stacked : s.memo.Stacked
  openCount : s.memo.openCount = 0
  vouched : Vouched (Voucher e seen) s

theorem voucher_of_classNamed? {name : QualifiedName} {d : ClassDecl}
    (h : e.classNamed? name = some d) (hfit : d.Fit e.options) : Voucher e seen d :=
  ⟨hfit, Or.inl (classNamed?_self h)⟩

theorem Voucher.mono {more : List (TreePath × Candidate)} {d : ClassDecl} (h : Voucher e seen d)
    (hmore : seen ⊆ more) : Voucher e more d :=
  ⟨h.1, h.2.imp_right fun ⟨path, hpath⟩ => ⟨path, hmore hpath⟩⟩

theorem between_empty : Between e [] {} where
  stacked := ⟨fun h => (nomatch h), fun h => (nomatch h)⟩
  openCount := rfl
  vouched := .empty

/-- **One decision**: the session stays one of a pass, and where a class is
marked, a class of its name vouches for that. -/
theorem Between.decide (path : TreePath) (hs : Between e seen s)
    (h : (p.decide e x).ask s = (.ok d, s')) :
    Between e (seen ++ [(path, x)]) s' ∧ (d = .mark → ∀ c, x = .ofClass c →
      ∃ v, v.name = c.name ∧ Voucher e (seen ++ [(path, x)]) v) := by
  have hgrows : s.memo.Grows s'.memo := by
    have hq := grows_decide p e x s
    rwa [h] at hq
  have hbefore : Vouched (Voucher e (seen ++ [(path, x)])) s :=
    hs.vouched.imp fun v hv => hv.mono (List.subset_append_left _ _)
  have hindex : ∀ name v, e.classNamed? name = some v → v.Fit e.options →
      Voucher e (seen ++ [(path, x)]) v := fun _ _ => voucher_of_classNamed?
  suffices hafter : Vouched (Voucher e (seen ++ [(path, x)])) s' ∧ (d = .mark → ∀ c,
      x = .ofClass c → ∃ v, v.name = c.name ∧ Voucher e (seen ++ [(path, x)]) v) from
    ⟨⟨hgrows.stacked hs.stacked, hgrows.openCount.trans hs.openCount, hafter.1⟩, hafter.2⟩
  rcases decide_cases p e x with ⟨d', hne, hd⟩ | ⟨hmarked, -, -, hd⟩
  · rw [hd] at h
    cases h
    exact ⟨hbefore, fun hmark => absurd hmark hne⟩
  · rw [hd, map_eq_pure_bind, Query.ask_bind] at h
    cases hverdict : (x.verdict e).ask s with
    | mk result s₁ =>
      rw [hverdict] at h
      cases result with
      | error failure => cases h
      | ok v =>
        cases h
        cases x with
        | ofFunction f =>
          exact ⟨keeps_functionVerdict hindex f _ _ _ hbefore hverdict, fun _ _ hx => nomatch hx⟩
        | ofProperty q =>
          exact ⟨keeps_propertyVerdict hindex q _ _ _ hbefore hverdict, fun _ _ hx => nomatch hx⟩
        | ofClass c =>
          have hself : c.Fit e.options → Voucher e (seen ++ [(path, .ofClass c)]) c :=
            fun hfit => ⟨hfit, Or.inr ⟨path, List.mem_append_right _ List.mem_cons_self⟩⟩
          obtain ⟨hkept, hpass⟩ := vouched_classVerdict hindex hbefore hs.stacked hs.openCount
            hmarked hself hverdict
          refine ⟨hkept, fun hmark c' hc' => ?_⟩
          cases hc'
          cases v with
          | exportable => exact hpass rfl
          | rejected reason => cases hmark

/-- **All decisions**: each class that is marked has a class of its name to
vouch for that, which was visited no later if the index does not find it. -/
theorem Decides.vouched (h : Decides p e s cs rs s') (hs : Between e seen s) {r : Ruling}
    (hr : r ∈ rs) (hmark : r.decision = .mark) (hc : r.candidate = .ofClass c) :
    ∃ before after, cs = before ++ (r.path, r.candidate) :: after ∧
      ∃ v, v.name = c.name ∧ Voucher e (seen ++ before ++ [(r.path, r.candidate)]) v := by
  induction h generalizing seen with
  | nil => cases hr
  | @cons s s₁ s' path x d cs rs hask _ ih =>
    obtain ⟨hnext, hvoucher⟩ := hs.decide path hask
    rcases List.mem_cons.mp hr with rfl | hin
    · refine ⟨[], cs, rfl, ?_⟩
      rw [List.append_nil]
      exact hvoucher hmark c hc
    · obtain ⟨before, after, rfl, v, hv, hv'⟩ := ih hnext hin
      refine ⟨(path, x) :: before, after, rfl, v, hv, ?_⟩
      rwa [List.append_assoc seen, List.singleton_append] at hv'

/-! ## Marks -/

variable {m : SourceModule}

/-- What a run marks, it ruled to mark. -/
theorem exists_ruling_of_mem_newlyMarked
    (h : Decides p (.ofModule m p.options) {} m.candidates rs s')
    (hx : (path, x) ∈ m.newlyMarked (p.run m).result) :
    ∃ r ∈ rs, r.decision = .mark ∧ r.path = path ∧ r.candidate = x := by
  rw [newlyMarked_of_decides h] at hx
  obtain ⟨r, hr, heq⟩ := List.mem_map.mp hx
  obtain ⟨hin, hmark⟩ := List.mem_filter.mp hr
  exact ⟨r, hin, by simpa using hmark, congrArg Prod.fst heq, congrArg Prod.snd heq⟩

/-- Why a pass marks the class at a place. -/
structure Justified (p : Pass) (m : SourceModule) (path : TreePath) (c : ClassDecl) : Prop where
  isPublic : c.visibility = .pub
  /-- A class of the name is fit to be marked: the class that the index finds,
  or one visited no later. -/
  namesake : ∃ before after d, m.candidates = before ++ (path, .ofClass c) :: after ∧
    d.name = c.name ∧ d.Fit p.options ∧
      (m.classIndex.get? c.name = some d ∨
        ∃ place, (place, .ofClass d) ∈ before ++ [(path, .ofClass c)])
  /-- The only class of its name is fit to be marked itself. -/
  itself : (∀ d ∈ m.allClasses, d.name = c.name → d = c) → c.Fit p.options

/-- **A class that a run marks is public, and a class of its name is fit to be
marked** by its own body. No condition is put on names, types or keys. -/
theorem run_justified (p : Pass) (m : SourceModule) {report : Report}
    (h : (p.run m).report = .ok report)
    (hc : (path, .ofClass c) ∈ m.newlyMarked (p.run m).result) : Justified p m path c := by
  rcases decides_or_fails p (.ofModule m p.options) {} m.candidates with
    ⟨rs, s', hdecides⟩ | ⟨before, path', x, after, rs, s₁, failure, s₂, hcs, hd, hfail⟩
  · obtain ⟨r, hr, hmark, rfl, hcandidate⟩ := exists_ruling_of_mem_newlyMarked hdecides hc
    obtain ⟨-, -, hgate⟩ := hdecides.admitted_of_mark hr hmark
    obtain ⟨before, after, hsplit, d, hname, hfit, hfound⟩ :=
      hdecides.vouched between_empty hr hmark hcandidate
    rw [hcandidate] at hgate hsplit hfound
    have hindexed : m.classIndex.get? c.name = some d ∨
        ∃ place, (place, .ofClass d) ∈ before ++ [(r.path, .ofClass c)] := by
      rwa [SourceModule.classNamed?_eq_get?, hname] at hfound
    refine ⟨?_, ⟨before, after, d, hsplit, hname, hfit, hindexed⟩, fun honly => ?_⟩
    · by_contra hprivate
      simp [Candidate.gate, Candidate.visibility, hprivate] at hgate
    · have hmem : d ∈ m.allClasses := by
        rcases hindexed with hindex | ⟨place, hplace⟩
        · rw [SourceModule.get?_classIndex] at hindex
          exact (List.mem_filter.mp (List.mem_of_getLast? hindex)).1
        · have hvisited : (place, Candidate.ofClass d) ∈ m.candidates := by
            rw [hsplit, ← List.singleton_append, ← List.append_assoc]
            exact List.mem_append_left _ hplace
          exact List.mem_append_right _ (SourceModule.mem_ownClasses_of_mem_candidates hvisited)
      exact honly d hmem hname ▸ hfit
  · rw [run_of_failure hcs hd hfail] at h
    cases h

/-- A class without members. -/
def plainTwin : ClassDecl where
  name := ⟨"test.A"⟩

/-- A class of the same name with an inline method. -/
def inlineTwin : ClassDecl where
  name := ⟨"test.A"⟩
  members := [.function
    { name := ⟨"test.A.f"⟩, modifiers := { inline := true }, returnType := .plain "kotlin.Unit" }]

/-- The two in two files. -/
def twins : SourceModule where
  name := "test"
  files := [{ path := "A.kt", declarations := [plainTwin.toDeclaration] },
    { path := "B.kt", declarations := [inlineTwin.toDeclaration] }]

theorem exists_report_twins : ∃ report, (({} : Pass).run twins).report = .ok report := by
  have hok : (({} : Pass).run twins).report.isOk = true := by decide +kernel
  cases hreport : (({} : Pass).run twins).report with
  | ok report => exact ⟨report, rfl⟩
  | error failure =>
    rw [hreport] at hok
    cases hok

theorem inlineTwin_mem_newlyMarked :
    (⟨1, [0]⟩, .ofClass inlineTwin) ∈ twins.newlyMarked (({} : Pass).run twins).result := by
  have hcandidates : twins.candidates
      = [(⟨0, [0]⟩, .ofClass plainTwin), (⟨1, [0]⟩, .ofClass inlineTwin)] := rfl
  exact List.mem_filter.mpr ⟨by simp [hcandidates], by decide +kernel⟩

/-- A mark that is justified by a class of the name visited before. -/
theorem run_justified_twins :
    (∃ report, (({} : Pass).run twins).report = .ok report) ∧
    (⟨1, [0]⟩, .ofClass inlineTwin) ∈ twins.newlyMarked (({} : Pass).run twins).result ∧
    Justified {} twins ⟨1, [0]⟩ inlineTwin := by
  obtain ⟨report, hreport⟩ := exists_report_twins
  exact ⟨⟨report, hreport⟩, inlineTwin_mem_newlyMarked,
    run_justified {} twins hreport inlineTwin_mem_newlyMarked⟩

/-- **A class is marked by the answer on another of its name**, though a public
method of its own is inline. -/
theorem twin_marked :
    (∃ report, (({} : Pass).run twins).report = .ok report) ∧
    (⟨1, [0]⟩, .ofClass inlineTwin) ∈ twins.newlyMarked (({} : Pass).run twins).result ∧
    ∃ f ∈ inlineTwin.methods,
      f.visibility = .pub ∧ f.inheritedFrom = none ∧ f.modifiers.inline = true :=
  ⟨exists_report_twins, inlineTwin_mem_newlyMarked, by decide⟩

end Pass

end ExportSurface
