import ExportSurface.Proofs.Rearrangement
import ExportSurface.Proofs.SilentMemo
/-!
# Passes over malformed modules

A module may have properties without types, and a pass over it fails if it
comes to one. A pass that fails has considered a candidate that can, and one
that succeeds has considered none that is bound to (`Pass.run_of_trips`). Where
it is settled that a considered candidate is bound to fail if one can
(`Pass.Settled`), whether the pass fails does not hang on the order of the
files and declarations (`Pass.run_settled`).

It need not be settled where a class can fail that lies on a reference cycle,
since what is in flight there can hide a property without a type. Then the
order can matter (`Pass.run_not_settled`). Off reference cycles it is
(`Pass.settled_of_acyclic`).
-/

namespace ExportSurface

/-! ## Candidates that trip -/

/-- Whether a candidate is in a set, or its rule trips over the set. -/
def Candidate.Trips (e : Evaluator) (P : Set Subject) : Candidate → Prop
  | .ofClass c => Subject.ofClass c ∈ P
  | .ofFunction f => Evaluator.InquiryTrips e P ∅ (Rule.ofFunction Inquiry.put f)
  | .ofProperty p => Evaluator.InquiryTrips e P ∅ (Rule.ofProperty e.options Inquiry.put p)

theorem Candidate.Trips.mono {e : Evaluator} {P Q : Set Subject} {c : Candidate}
    (h : c.Trips e P) (hPQ : P ⊆ Q) : c.Trips e Q := by
  cases c with
  | ofClass c => exact hPQ h
  | ofFunction f => exact Inquiry.Trips.mono h fun _ ht => hPQ ht
  | ofProperty p => exact Inquiry.Trips.mono h fun _ ht => hPQ ht

namespace Evaluator

variable {e : Evaluator} {V : Vocabulary} {s : Session} {c : ClassDecl} {types : List TypeRef}

/-- A session between questions, whose memo is silent on what is bound to fail. -/
structure Untripped (e : Evaluator) (V : Vocabulary) (s : Session) : Prop extends Idle e V s where
  silent : Silent e V (mustTrip e) s.memo

/-- What may come of a question: it fails, and could; or it is answered, and need
not have failed. -/
inductive Comes {α : Type} (e : Evaluator) (V : Vocabulary) (trips : Set Subject → Prop)
    (q : Query α) (s : Session) : Prop
  | fails : q.Fails s → trips (mayTrip e) → Comes e V trips q s
  | answers {a : α} {s' : Session} : q.ask s = (.ok a, s') → Untripped e V s' →
      ¬ trips (mustTrip e) → Comes e V trips q s

theorem untripped_empty : Untripped e V {} where
  toIdle := idle_empty
  silent := silent_empty

theorem Idle.inFlight_eq (hs : Idle e V s) : inFlight e V s.memo = ∅ := by
  rw [inFlight, Memo.openFrom_eq_empty hs.sound.stacked hs.openCount.le, keyed_empty]

theorem Comes.map {α β : Type} {trips : Set Subject → Prop} {q : Query α}
    (h : Comes e V trips q s) (f : α → β) : Comes e V trips (f <$> q) s := by
  rw [map_eq_pure_bind]
  cases h with
  | fails hfails htrips => exact .fails (hfails.bind _) htrips
  | answers hask hs' htrips =>
    exact .answers ((Query.ask_bind_of_ok hask).trans (Query.ask_pure _ _)) hs' htrips

section Asked

variable (hV : ∀ t ∈ scope e types, t ∈ V.types) (hs : Untripped e V s)
include hV hs

/-- **A rule put to an idle evaluator** fails only where it can, and is answered
only where it need not fail. -/
theorem comes_run {α : Type} {q : Inquiry α} (hq : q.Within (· ∈ types)) :
    Comes e V (fun P => InquiryTrips e P ∅ q) (q.run (typeWithin e (e.bound types))) s := by
  have hfits : ∀ t ∈ types, ∀ s', Ready e V s' → s.memo.Grows s'.memo →
      Fits e V types (e.bound types) t s' := fun t ht s' hready hg =>
    fits_bound hready (hs.openLeads.of_grows hg) (mem_scope_of_mem ht)
  have hfails : (q.run (typeWithin e (e.bound types))).Fails s →
      q.Trips (accepting (surfaceGiven e (inFlight e V s.memo)))
        (fun t => Subject.ofType t ∈ mayTrip e) →
      Comes e V (fun P => InquiryTrips e P ∅ q) (q.run (typeWithin e (e.bound types))) s := by
    intro hfails htrips
    rw [hs.inFlight_eq] at htrips
    exact .fails hfails htrips
  rcases run_of_within hq hs.toReady fun t ht s' hready hg =>
    serves_typeWithin hV _ t s' (hfits t ht s' hready hg) with
    ⟨s', hready, hgrows, hrun⟩ | ⟨hfail, t, ht, hmay⟩
  · -- nothing is in flight, and the rule comes to what it comes to with that exportable
    have hprov := hrun (provisional e V s'.memo) floor_subset_provisional
      provisional_subset_ceiling
    cases heval : q.eval (accepting (provisional e V s'.memo)) with
    | error failure =>
      rw [heval] at hprov
      refine hfails ⟨_, _, hprov⟩ ?_
      rw [← inFlight_of_grows hgrows]
      exact Inquiry.trips_iff.mpr (Or.inl ⟨failure, heval⟩)
    | ok a =>
      rw [heval] at hprov
      obtain ⟨hsilent, hno⟩ := silent_run hq hs.toReady (fun t ht s' hready hg =>
        (sparing_mustTrip hV _).asks hV (hfits t ht s' hready hg)) hs.silent hprov
      rw [hs.inFlight_eq] at hno
      exact .answers hprov ⟨hs.toIdle.of_grows hready hgrows, hsilent⟩ hno
  · exact hfails hfail (Inquiry.trips_iff.mpr (Or.inr ⟨t, ht, hmay⟩))

/-- **A class put to an idle evaluator** fails only where it can, and is answered
only where it need not fail. -/
theorem comes_examineClass (hc : e.classNamed? c.name = some c) :
    Comes e V (Subject.ofClass c ∈ ·) (examineClass e (typeWithin e (e.bound types)) c) s := by
  have hfits : FitsClass e V types (e.bound types) c s := fitsClass_bound hs.toIdle hc
  rcases (serves_typeWithin hV _).handles_examineClass hfits with hreplies | ⟨hfails, hmay⟩
  · obtain ⟨b, s', hask, hready, ha⟩ := hreplies.ready
    obtain ⟨hnot, hsilent⟩ :=
      (sparing_mustTrip hV _).ofClass c s hfits hs.silent b s' hask
    exact .answers hask ⟨hs.toIdle.of_grows hready ha.grows, hsilent⟩ hnot
  · exact .fails hfails hmay

end Asked

end Evaluator

namespace Candidate

open Evaluator

variable {e : Evaluator} {V : Vocabulary} {s : Session} {c : Candidate}

/-- **The verdict on a candidate** fails only where it can, and is given only
where it need not fail. -/
theorem comes_verdict (hV : ∀ t ∈ scope e c.question.mentioned, t ∈ V.types)
    (hc : ∀ d, c = .ofClass d → e.classNamed? d.name = some d) (hs : Untripped e V s) :
    Comes e V (fun P => c.Trips e P) (c.verdict e) s := by
  cases c with
  | ofClass c =>
    cases comes_examineClass hV hs (hc c rfl) with
    | fails hfails htrips => exact .fails (hfails.bind _) htrips
    | @answers b s' hask hs' htrips =>
      have hverdict : (classVerdict e c).ask s
          = (.ok ((s'.verdicts.lookup c.name).getD .exportable), s') :=
        (Query.ask_bind_of_ok hask).trans (Query.ask_bind_of_ok (Query.ask_get s'))
      exact .answers hverdict hs' htrips
  | ofFunction f =>
    have hrun := comes_run hV hs (Rule.within_ofFunction fun t ht => ht)
    rwa [Inquiry.run_ofFunction] at hrun
  | ofProperty p =>
    have hwithin : (Rule.ofProperty e.options Inquiry.put p).Within (· ∈ p.types) :=
      Rule.within_ofProperty fun t ht => ht
    have hrun := comes_run hV hs hwithin
    rwa [Inquiry.run_ofProperty] at hrun

end Candidate

/-! ## Modules whose names and types can be told apart -/

namespace SourceModule

/-- The conditions on a module with regard to names and types: its classes have
different names, and class types of one key are one type up to nullability. -/
structure Unambiguous (m : SourceModule) : Prop where
  distinct : (m.ownClasses.map (·.name)).Nodup
  faithful : ∀ t ∈ m.mentioned, ∀ u ∈ m.mentioned, t.className?.isSome → u.className?.isSome →
    t.key = u.key → t.erased = u.erased

variable {m m' : SourceModule} {options : RuleOptions} {x : TreePath × Candidate}

theorem unambiguous_of_plain (hdistinct : (m.ownClasses.map (·.name)).Nodup)
    (hplain : ∀ t ∈ m.mentioned, ∃ name, t = .plain name) : m.Unambiguous where
  distinct := hdistinct
  faithful t ht u hu _ _ := TypeRef.erased_eq_of_plain (hplain t ht) (hplain u hu)

theorem Unambiguous.of_rearranged (h : m.Unambiguous) (hm : m.Rearranged m') :
    m'.Unambiguous where
  distinct := (hm.perm_ownClasses.map _).nodup_iff.mp h.distinct
  faithful t ht u hu :=
    h.faithful t (hm.perm_mentioned.mem_iff.mpr ht) u (hm.perm_mentioned.mem_iff.mpr hu)

/-- What can fail, and what is bound to, is the same in the module rearranged. -/
theorem Rearranged.mayTrip_eq (hm : m.Rearranged m') (h : m.Unambiguous) :
    Evaluator.mayTrip (.ofModule m options) = Evaluator.mayTrip (.ofModule m' options) :=
  Evaluator.mayTrip_congr rfl (hm.classNamed?_eq h.distinct)

theorem Rearranged.mustTrip_eq (hm : m.Rearranged m') (h : m.Unambiguous) :
    Evaluator.mustTrip (.ofModule m options) = Evaluator.mustTrip (.ofModule m' options) :=
  Evaluator.mustTrip_congr rfl (hm.classNamed?_eq h.distinct)

/-- The types of the module. -/
def Unambiguous.vocabulary (h : m.Unambiguous) : Vocabulary where
  types := {t | t ∈ m.mentioned}
  faithful := h.faithful

theorem mem_mentioned_of_mem_scope_candidate (hx : x ∈ m.candidates) {t : TypeRef}
    (ht : t ∈ Evaluator.scope (.ofModule m options) x.2.question.mentioned) : t ∈ m.mentioned :=
  mem_mentioned_of_mem_scope
    (Evaluator.scope_subset (fun _ hu => List.mem_flatMap.mpr ⟨x, hx, hu⟩) ht)

end SourceModule

/-! ## Runs -/

namespace Pass

open Evaluator

variable {p : Pass} {e e' : Evaluator} {V : Vocabulary} {s s' : Session} {c : Candidate}
  {cs : List (TreePath × Candidate)} {rs : List Ruling} {m m' : SourceModule}

/-- Whether a candidate comes before the evaluator. -/
structure Considers (p : Pass) (c : Candidate) : Prop where
  isExported : c.isExported = false
  selects : p.filter.selects c.name.text = true
  gate : c.gate = none

/-- Whether a candidate that comes before the evaluator trips over a set. -/
def SomeTrips (p : Pass) (e : Evaluator) (cs : List Candidate) (P : Set Subject) : Prop :=
  ∃ c ∈ cs, p.Considers c ∧ c.Trips e P

/-- **A decision** fails only on a considered candidate that can, and is made
only where a considered candidate need not fail. -/
theorem comes_decide (hV : ∀ t ∈ scope e c.question.mentioned, t ∈ V.types)
    (hc : ∀ d, c = .ofClass d → e.classNamed? d.name = some d) (hs : Untripped e V s) :
    Comes e V (fun P => p.Considers c ∧ c.Trips e P) (p.decide e c) s := by
  by_cases hconsiders : p.Considers c
  · rw [decide_of_gate_none hconsiders.isExported hconsiders.selects hconsiders.gate]
    cases (Candidate.comes_verdict hV hc hs).map Decision.ofVerdict with
    | fails hfails htrips => exact .fails hfails ⟨hconsiders, htrips⟩
    | answers hask hs' htrips => exact .answers hask hs' fun h => htrips h.2
  · rcases decide_cases p e c with ⟨d, -, hd⟩ | ⟨hmarked, hfilter, hgate, -⟩
    · rw [hd]
      exact .answers (Query.ask_pure d s) hs fun h => hconsiders h.1
    · exact absurd ⟨hmarked, hfilter, hgate⟩ hconsiders

section Decided

variable (hV : ∀ x ∈ cs, ∀ t ∈ scope e x.2.question.mentioned, t ∈ V.types)
  (hcs : ∀ x ∈ cs, ∀ d, x.2 = .ofClass d → e.classNamed? d.name = some d)
include hV hcs

/-- Where all decisions are made, no considered candidate is bound to fail. -/
theorem Decides.not_someTrips (h : Decides p e s cs rs s') (hs : Untripped e V s) :
    ¬ p.SomeTrips e (cs.map Prod.snd) (mustTrip e) ∧ Untripped e V s' := by
  induction h with
  | nil s => exact ⟨fun ⟨c, hc, _⟩ => (by cases hc), hs⟩
  | @cons s s₁ s' path c d cs rs hask _ ih =>
    cases comes_decide (p := p) (hV _ List.mem_cons_self) (hcs _ List.mem_cons_self) hs with
    | fails hfails _ =>
      obtain ⟨failure, s₂, hfail⟩ := hfails
      cases hask.symm.trans hfail
    | answers hask' hs₁ hnot =>
      cases hask.symm.trans hask'
      obtain ⟨hrest, hs'⟩ := ih (fun x hx => hV x (List.mem_cons_of_mem _ hx))
        (fun x hx => hcs x (List.mem_cons_of_mem _ hx)) hs₁
      refine ⟨fun ⟨c', hc', htrips⟩ => ?_, hs'⟩
      rw [List.map_cons] at hc'
      rcases List.mem_cons.mp hc' with rfl | hin
      · exact hnot htrips
      · exact hrest ⟨c', hin, htrips⟩

end Decided

/-- **A run that fails has considered a candidate that can, one that succeeds
none that is bound to.** -/
theorem run_of_trips (p : Pass) (h : m.Unambiguous) :
    (∃ report, (p.run m).report = .ok report) ∧
        ¬ p.SomeTrips (.ofModule m p.options) (m.candidates.map Prod.snd)
          (mustTrip (.ofModule m p.options)) ∨
      (∃ failure, (p.run m).report = .error failure) ∧
        p.SomeTrips (.ofModule m p.options) (m.candidates.map Prod.snd)
          (mayTrip (.ofModule m p.options)) := by
  have hV : ∀ x ∈ m.candidates, ∀ t ∈ scope (.ofModule m p.options) x.2.question.mentioned,
      t ∈ h.vocabulary.types := fun x hx t => SourceModule.mem_mentioned_of_mem_scope_candidate hx
  have hcs : ∀ x ∈ m.candidates, ∀ d, x.2 = .ofClass d →
      (Evaluator.ofModule m p.options).classNamed? d.name = some d := by
    rintro ⟨path, c⟩ hx d rfl
    exact SourceModule.classNamed?_of_distinct h.distinct
      (SourceModule.mem_ownClasses_of_mem_candidates hx)
  rcases decides_or_fails p (.ofModule m p.options) {} m.candidates with
    ⟨rs, s', hdecides⟩ | ⟨before, path, c, after, rs, s₁, failure, s₂, hsplit, hdecides, hfail⟩
  · refine Or.inl ⟨⟨_, by rw [run_of_decides hdecides]⟩, ?_⟩
    exact (hdecides.not_someTrips hV hcs untripped_empty).1
  · refine Or.inr ⟨⟨failure, by rw [run_of_failure hsplit hdecides hfail]⟩, ?_⟩
    -- the decisions before the one that failed have left the memo silent
    have hbefore : ∀ x ∈ before, x ∈ m.candidates := fun x hx => by
      rw [hsplit]
      exact List.mem_append_left _ hx
    have hmem : (path, c) ∈ m.candidates := by
      rw [hsplit]
      exact List.mem_append_right _ List.mem_cons_self
    have hs₁ := (hdecides.not_someTrips (fun x hx => hV x (hbefore x hx))
      (fun x hx => hcs x (hbefore x hx)) untripped_empty).2
    cases comes_decide (p := p) (hV _ hmem) (hcs _ hmem) hs₁ with
    | fails _ htrips => exact ⟨c, List.mem_map.mpr ⟨_, hmem, rfl⟩, htrips⟩
    | answers hask _ _ => cases hfail.symm.trans hask

/-! ## Runs over modules rearranged -/

/-- A considered candidate is bound to fail if one can. -/
def Settled (p : Pass) (m : SourceModule) : Prop :=
  p.SomeTrips (.ofModule m p.options) (m.candidates.map Prod.snd)
      (mayTrip (.ofModule m p.options)) →
    p.SomeTrips (.ofModule m p.options) (m.candidates.map Prod.snd)
      (mustTrip (.ofModule m p.options))

/-- Where it is settled, a run fails just if it considers a candidate that is
bound to fail. -/
theorem Settled.run_fails_iff (hsettled : p.Settled m) (h : m.Unambiguous) :
    (∃ failure, (p.run m).report = .error failure) ↔
      p.SomeTrips (.ofModule m p.options) (m.candidates.map Prod.snd)
        (mustTrip (.ofModule m p.options)) := by
  rcases run_of_trips p h with ⟨⟨report, hok⟩, hnot⟩ | ⟨hfails, hmay⟩
  · refine ⟨fun ⟨failure, hfail⟩ => ?_, fun hmust => absurd hmust hnot⟩
    cases hok.symm.trans hfail
  · exact ⟨fun _ => hsettled hmay, fun _ => hfails⟩

theorem trips_congr {P : Set Subject} (hoptions : e.options = e'.options)
    (hclass : ∀ name, e.classNamed? name = e'.classNamed? name) :
    c.Trips e P ↔ c.Trips e' P := by
  have hsurface := surfaceGiven_congr hoptions hclass ∅
  cases c with
  | ofClass c => exact Iff.rfl
  | ofFunction f => simp only [Candidate.Trips, InquiryTrips, hsurface]
  | ofProperty q => simp only [Candidate.Trips, InquiryTrips, hsurface, hoptions]

theorem someTrips_of_rearranged (h : m.Unambiguous) (hm : m.Rearranged m') {P : Set Subject} :
    p.SomeTrips (.ofModule m p.options) (m.candidates.map Prod.snd) P ↔
      p.SomeTrips (.ofModule m' p.options) (m'.candidates.map Prod.snd) P := by
  refine exists_congr fun c => and_congr hm.perm_candidates.mem_iff (and_congr_right fun _ => ?_)
  exact trips_congr rfl (hm.classNamed?_eq h.distinct)

theorem Settled.of_rearranged (hsettled : p.Settled m) (h : m.Unambiguous)
    (hm : m.Rearranged m') : p.Settled m' := by
  unfold Settled at hsettled ⊢
  rwa [← someTrips_of_rearranged h hm, ← someTrips_of_rearranged h hm,
    ← hm.mayTrip_eq h, ← hm.mustTrip_eq h]

/-- **Off reference cycles it is settled**: if no class with a property without a
type can be reached from a reference cycle. -/
theorem settled_of_acyclic
    (h : ∀ c : ClassDecl, c.Untyped → ∀ x, Leads (.ofModule m p.options) x x →
      ¬ Leads (.ofModule m p.options) x (.ofClass c)) : p.Settled m := by
  have hacyclic : ∀ y ∈ mayTrip (.ofModule m p.options), ¬ Leads (.ofModule m p.options) y y := by
    intro y hy hyy
    obtain ⟨c, hc, rfl | hyc⟩ := exists_untyped_of_mem_mayTrip hy
    · exact h c hc _ hyy hyy
    · exact h c hc y hyy hyc
  rintro ⟨c, hc, hconsiders, htrips⟩
  exact ⟨c, hc, hconsiders, htrips.mono (mayTrip_subset_mustTrip hacyclic)⟩

/-- **Whether a pass fails does not hang on the order**, where it is settled that
a considered candidate is bound to fail if one can. With the files and the
declarations at the top level of each in another order, a pass over a module
with distinct class names and faithful keys fails just if it did before. -/
theorem run_settled (p : Pass) (m m' : SourceModule) (h : m.Unambiguous)
    (hm : m.Rearranged m') (hsettled : p.Settled m) :
    (∃ report report', (p.run m).report = .ok report ∧ (p.run m').report = .ok report') ∨
      ∃ failure failure', (p.run m).report = .error failure ∧
        (p.run m').report = .error failure' := by
  have h' := h.of_rearranged hm
  have hiff : (∃ failure, (p.run m).report = .error failure) ↔
      ∃ failure, (p.run m').report = .error failure := by
    rw [hsettled.run_fails_iff h, (hsettled.of_rearranged h hm).run_fails_iff h',
      someTrips_of_rearranged h hm, hm.mustTrip_eq h]
  -- a run that does not fail has a report
  cases hrun : (p.run m).report with
  | ok report =>
    cases hrun' : (p.run m').report with
    | ok report' => exact Or.inl ⟨report, report', rfl, rfl⟩
    | error failure' =>
      obtain ⟨failure, hfail⟩ := hiff.mpr ⟨failure', hrun'⟩
      cases hrun.symm.trans hfail
  | error failure =>
    obtain ⟨failure', hfail⟩ := hiff.mp ⟨failure, hrun⟩
    exact Or.inr ⟨failure, failure', rfl, hfail⟩

/-- A class that holds itself, and a property without a type. -/
def selfUntyped : ClassDecl where
  name := ⟨"test.A"⟩
  members :=
    [.property { name := ⟨"test.A.me"⟩, backingField := some (.plain "test.A") },
      .property { name := ⟨"test.A.x"⟩ }]

/-- Its rule comes to the property without a type whether or not the class counts
as exportable. -/
theorem trips_selfUntyped (answer : TypeRef → Bool) (P : TypeRef → Prop) :
    (Rule.ofClass {} Inquiry.put selfUntyped).Trips answer P := by
  refine Or.inr ?_
  cases answer (.plain "test.A") with
  | true => trivial
  | false => trivial

theorem selfUntyped_mem_mustTrip (hoptions : e.options = {}) :
    Subject.ofClass selfUntyped ∈ mustTrip e := by
  refine mem_mustTrip_iff.mpr fun A _ => ?_
  rw [TripsGiven, hoptions]
  exact trips_selfUntyped _ _

/-- The class in a module with another that holds it. -/
def selfUntypedFirst : SourceModule := moduleOf [selfUntyped.toDeclaration, base.toDeclaration]

/-- The module with its classes the other way round. -/
def selfUntypedLast : SourceModule := moduleOf [base.toDeclaration, selfUntyped.toDeclaration]

theorem rearranged_swap (d d' : Declaration) : (moduleOf [d, d']).Rearranged (moduleOf [d', d]) :=
  ⟨rfl, rfl, _, List.Perm.refl _, .cons ⟨rfl, rfl, List.Perm.swap _ _ []⟩ .nil⟩

/-- A malformed module where it is settled that the pass fails, in two orders. -/
theorem run_settled_selfUntyped :
    selfUntypedFirst.Unambiguous ∧ selfUntypedFirst.Rearranged selfUntypedLast ∧
      (({} : Pass).Settled selfUntypedFirst) ∧
      ((∃ report report', (({} : Pass).run selfUntypedFirst).report = .ok report ∧
          (({} : Pass).run selfUntypedLast).report = .ok report') ∨
        ∃ failure failure', (({} : Pass).run selfUntypedFirst).report = .error failure ∧
          (({} : Pass).run selfUntypedLast).report = .error failure') := by
  have hunambiguous : selfUntypedFirst.Unambiguous := by
    have hmentioned : selfUntypedFirst.mentioned = [.plain "test.A", .plain "test.A",
        .plain "kotlin.Long", .plain "test.A", .plain "test.A", .plain "kotlin.Long"] := rfl
    exact SourceModule.unambiguous_of_plain (by decide) (by simp [hmentioned])
  have hrearranged : selfUntypedFirst.Rearranged selfUntypedLast := rearranged_swap _ _
  have hsettled : ({} : Pass).Settled selfUntypedFirst := fun _ =>
    ⟨.ofClass selfUntyped, List.mem_cons_self, ⟨rfl, rfl, rfl⟩,
      selfUntyped_mem_mustTrip rfl⟩
  exact ⟨hunambiguous, hrearranged, hsettled,
    run_settled {} selfUntypedFirst selfUntypedLast hunambiguous hrearranged hsettled⟩

/-- A class with a supertype, and a property without a type. -/
def veiled : ClassDecl where
  name := ⟨"test.A"⟩
  supertypes := [.plain "test.B"]
  members := [.property { name := ⟨"test.A.x"⟩ }]

/-- The class before its supertype, which holds it and cannot be exported. -/
def veiledFirst : SourceModule := moduleOf [veiled.toDeclaration, base.toDeclaration]

/-- The class after its supertype. -/
def veiledLast : SourceModule := moduleOf [base.toDeclaration, veiled.toDeclaration]

/-- **The order can decide whether a pass fails.** Before its supertype a class is
rejected for the supertype, and its property without a type is not looked at.
After it the class is examined while the supertype is in flight, and the pass
fails for the property. -/
theorem run_not_settled :
    veiledFirst.Unambiguous ∧ veiledFirst.Rearranged veiledLast ∧
      (∃ report, (({} : Pass).run veiledFirst).report = .ok report) ∧
      (({} : Pass).run veiledLast).report = .error (.untypedProperty ⟨"test.A.x"⟩) := by
  refine ⟨?_, rearranged_swap _ _, ?_, ?_⟩
  · have hmentioned : veiledFirst.mentioned = [.plain "test.B", .plain "test.A",
        .plain "kotlin.Long", .plain "test.B", .plain "test.A", .plain "kotlin.Long"] := rfl
    exact SourceModule.unambiguous_of_plain (by decide) (by simp [hmentioned])
  · have hsome : (({} : Pass).run veiledFirst).report.toOption.isSome = true := by
      decide +kernel
    cases hrun : (({} : Pass).run veiledFirst).report with
    | ok report => exact ⟨report, rfl⟩
    | error failure =>
      rw [hrun] at hsome
      cases hsome
  · have hfailure : ((({} : Pass).run veiledLast).report.map fun _ => ())
        = .error (.untypedProperty ⟨"test.A.x"⟩) := by
      decide +kernel
    cases hrun : (({} : Pass).run veiledLast).report with
    | ok report =>
      rw [hrun] at hfailure
      cases hfailure
    | error failure =>
      rw [hrun] at hfailure
      exact congrArg Except.error (Except.error.inj hfailure)

end Pass

end ExportSurface
