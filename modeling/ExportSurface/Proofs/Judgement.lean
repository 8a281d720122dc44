import ExportSurface.Proofs.Questions
import ExportSurface.Proofs.Rulings
/-!
# What a pass decides

On a module with distinct class names, typed properties and faithful keys
(`SourceModule.Regular`) no decision of a pass fails, and each of them follows
from the export surface of the module as it was: candidates that are marked,
not selected or kept off by the gate are left alone, and of the others just
those are marked that are accepted on the surface (`Pass.Ruled`,
`Pass.exists_decides`). What came before a candidate in the walk has a say in
nothing but the reason for which a class is rejected, and in that only over
reference cycles with the class (`Candidate.Judged`).
-/

namespace ExportSurface

/-! ## Regular modules -/

/-- What an evaluator is asked about a candidate. -/
def Candidate.question : Candidate → Evaluator.Question
  | .ofClass c => .classVerdict c
  | .ofFunction f => .functionVerdict f
  | .ofProperty p => .propertyVerdict p

namespace SourceModule

/-- The classes that the files of a module declare. -/
def ownClasses (m : SourceModule) : List ClassDecl :=
  m.files.flatMap fun file => Declaration.classesIn file.declarations

/-- The types of a module: those of its classes and dependencies and of its
candidates, and all types inside them. -/
def mentioned (m : SourceModule) : List TypeRef :=
  (m.allClasses.flatMap ClassDecl.types
    ++ m.candidates.flatMap fun x => x.2.question.mentioned).flatMap TypeRef.parts

/-- The conditions on a module: its classes have different names, properties
have types, and class types of one key are one type up to nullability. -/
structure Regular (m : SourceModule) : Prop where
  distinct : (m.ownClasses.map (·.name)).Nodup
  typed : ∀ c ∈ m.allClasses, ∀ p ∈ c.properties, p.valueType?.isSome
  typedTopLevel : ∀ path p, (path, Candidate.ofProperty p) ∈ m.candidates → p.valueType?.isSome
  faithful : ∀ t ∈ m.mentioned, ∀ u ∈ m.mentioned, t.className?.isSome → u.className?.isSome →
    t.key = u.key → t.erased = u.erased

/-- A module whose types are classes without arguments has faithful keys. -/
theorem regular_of_plain {m : SourceModule} (hdistinct : (m.ownClasses.map (·.name)).Nodup)
    (htyped : ∀ c ∈ m.allClasses, ∀ p ∈ c.properties, p.valueType?.isSome)
    (htopLevel : ∀ path p, (path, Candidate.ofProperty p) ∈ m.candidates → p.valueType?.isSome)
    (hplain : ∀ t ∈ m.mentioned, ∃ name, t = .plain name) : m.Regular where
  distinct := hdistinct
  typed := htyped
  typedTopLevel := htopLevel
  faithful t ht u hu _ _ := TypeRef.erased_eq_of_plain (hplain t ht) (hplain u hu)

variable {m : SourceModule} {options : RuleOptions}

theorem mem_mentioned_of_mem_scope {t : TypeRef}
    (h : t ∈ Evaluator.scope (.ofModule m options)
      (m.candidates.flatMap fun x => x.2.question.mentioned)) : t ∈ m.mentioned := by
  obtain ⟨u, hu, htu⟩ := List.mem_flatMap.mp h
  refine List.mem_flatMap.mpr ⟨u, ?_, htu⟩
  rcases List.mem_append.mp hu with hclass | htypes
  · obtain ⟨c, hc, huc⟩ := List.mem_flatMap.mp hclass
    exact List.mem_append_left _
      (List.mem_flatMap.mpr ⟨c, List.mem_reverse.mp hc, huc⟩)
  · exact List.mem_append_right _ htypes

/-- The evaluator of a regular module is regular for its candidates. -/
theorem Regular.evaluator (h : m.Regular) (options : RuleOptions) :
    (Evaluator.ofModule m options).Regular
      (m.candidates.flatMap fun x => x.2.question.mentioned) where
  typed c hc := h.typed c (List.mem_reverse.mp hc)
  faithful t ht u hu :=
    h.faithful t (mem_mentioned_of_mem_scope ht) u (mem_mentioned_of_mem_scope hu)

end SourceModule

/-! ### Classes of the walk -/

namespace Declaration

mutual

/-- The classes inside a declaration are those its walk lists. -/
theorem mem_classes_of_mem_walkFrom {here is : List Nat} {d : Declaration} {header : ClassHeader}
    {ms : List Declaration} (hmem : (is, .classDecl header ms) ∈ walkFrom here d) :
    ⟨header, ms⟩ ∈ d.classes := by
  cases d with
  | classDecl header' ms' =>
    rw [walkFrom] at hmem
    rw [classes]
    rcases List.mem_cons.mp hmem with heq | hin
    · cases heq
      exact List.mem_cons_self
    · exact List.mem_cons_of_mem _ (mem_classesIn_of_mem_walkSiblings hin)
  | function f => cases List.mem_singleton.mp hmem
  | property p => cases List.mem_singleton.mp hmem
  | constructor c => cases List.mem_singleton.mp hmem

theorem mem_classesIn_of_mem_walkSiblings {parent is : List Nat} {i : Nat} {ds : List Declaration}
    {header : ClassHeader} {ms : List Declaration}
    (hmem : (is, .classDecl header ms) ∈ walkSiblings parent i ds) :
    ⟨header, ms⟩ ∈ classesIn ds := by
  cases ds with
  | nil => cases hmem
  | cons d ds =>
    rw [walkSiblings] at hmem
    rw [classesIn]
    rcases List.mem_append.mp hmem with hfirst | hlater
    · exact List.mem_append_left _ (mem_classes_of_mem_walkFrom hfirst)
    · exact List.mem_append_right _ (mem_classesIn_of_mem_walkSiblings hlater)

end

end Declaration

namespace SourceModule

variable {m : SourceModule} {path : TreePath} {c : ClassDecl} {options : RuleOptions}

theorem mem_ownClasses_of_mem_candidates (h : (path, Candidate.ofClass c) ∈ m.candidates) :
    c ∈ m.ownClasses := by
  obtain ⟨d, hmem, hof⟩ := mem_candidates_iff.mp h
  obtain rfl : c.toDeclaration = d := Candidate.toDeclaration_of? hof
  obtain ⟨file, hfile, hin⟩ := mem_walk_iff.mp hmem
  exact List.mem_flatMap.mpr ⟨file, List.mem_of_getElem? hfile,
    Declaration.mem_classesIn_of_mem_walkSiblings hin⟩

/-- Where no two elements have one name, an element is found by its name. -/
theorem find?_name_of_nodup {cs : List ClassDecl} (hnodup : (cs.map (·.name)).Nodup) (hc : c ∈ cs) :
    cs.find? (·.name = c.name) = some c := by
  induction cs with
  | nil => cases hc
  | cons d cs ih =>
    rw [List.map_cons, List.nodup_cons] at hnodup
    rcases List.mem_cons.mp hc with rfl | hin
    · rw [List.find?_cons_of_pos (by simp)]
    · have hne : d.name ≠ c.name := fun heq =>
        hnodup.1 (List.mem_map.mpr ⟨c, hin, heq.symm⟩)
      rw [List.find?_cons_of_neg (by simpa using hne)]
      exact ih hnodup.2 hin

/-- Classes of the module are found before those of its dependencies. -/
theorem classNamed?_ofModule (m : SourceModule) (options : RuleOptions) (name : QualifiedName) :
    (Evaluator.ofModule m options).classNamed? name
      = (m.ownClasses.reverse.find? (·.name = name)).or
        ((m.dependencies.flatMap fun c => c.toDeclaration.classes).reverse.find?
          (·.name = name)) := by
  have hclasses : (Evaluator.ofModule m options).classes = m.ownClasses.reverse
      ++ (m.dependencies.flatMap fun c => c.toDeclaration.classes).reverse := by
    rw [Evaluator.ofModule, allClasses, List.reverse_append]
    rfl
  rw [Evaluator.classNamed?, hclasses, List.find?_append]

/-- **A class of a module with distinct class names is the class of its name.** -/
theorem classNamed?_of_distinct (h : (m.ownClasses.map (·.name)).Nodup) (hc : c ∈ m.ownClasses) :
    (Evaluator.ofModule m options).classNamed? c.name = some c := by
  have hnodup : (m.ownClasses.reverse.map (·.name)).Nodup := by
    rw [List.map_reverse, List.nodup_reverse]
    exact h
  rw [classNamed?_ofModule, find?_name_of_nodup hnodup (List.mem_reverse.mpr hc), Option.some_or]

theorem Regular.classNamed?_eq (h : m.Regular) (hc : c ∈ m.ownClasses) :
    (Evaluator.ofModule m options).classNamed? c.name = some c :=
  classNamed?_of_distinct h.distinct hc

/-- Candidates of a regular module are proper questions. -/
theorem Regular.proper (h : m.Regular) {c : Candidate} (hc : (path, c) ∈ m.candidates) :
    c.question.Proper (.ofModule m options) := by
  cases c with
  | ofClass c => exact h.classNamed?_eq (mem_ownClasses_of_mem_candidates hc)
  | ofFunction f => trivial
  | ofProperty p => exact h.typedTopLevel path p hc

end SourceModule

/-! ## Verdicts -/

namespace Candidate

variable (e : Evaluator)

/-- What a verdict names: the first failing step on the surface, and for a
class the first failing step with subjects on reference cycles assumed. -/
def Judged : Candidate → Verdict → Prop
  | .ofClass c, v => Evaluator.JudgedOnCycle e c v
  | .ofFunction f, v =>
    v = Rule.firstOf (Rule.functionReasons (Evaluator.accepting (Evaluator.surface e)) f)
  | .ofProperty p, v =>
    v = Rule.firstOf (Rule.propertyReasons e.options (Evaluator.accepting (Evaluator.surface e)) p)

variable {e} {V : Vocabulary} {s : Session}

/-- **The verdict on a candidate** accepts it where it is accepted on the
surface, and is judged. -/
theorem ask_verdict (htyped : ∀ c ∈ e.classes, ∀ p ∈ c.properties, p.valueType?.isSome)
    {c : Candidate} (hV : ∀ t ∈ Evaluator.scope e c.question.mentioned, t ∈ V.types)
    (hc : c.question.Proper e) (hs : Evaluator.Idle e V s) :
    ∃ v s', (c.verdict e).ask s = (.ok v, s') ∧ Evaluator.Idle e V s' ∧
      (v.isExportable = true ↔ c.question.Accepted e) ∧ c.Judged e v := by
  cases c with
  | ofClass c => exact Evaluator.ask_classVerdict htyped hs hV hc
  | ofFunction f =>
    obtain ⟨s', hask, hidle⟩ := Evaluator.ask_functionVerdict htyped hs hV
    exact ⟨_, s', hask, hidle, Evaluator.isExportable_firstOf_functionReasons_iff, rfl⟩
  | ofProperty p =>
    obtain ⟨s', hask, hidle⟩ := Evaluator.ask_propertyVerdict htyped hs hV hc
    exact ⟨_, s', hask, hidle, Evaluator.isExportable_firstOf_propertyReasons_iff, rfl⟩

end Candidate

/-! ## Decisions -/

namespace Pass

variable (p : Pass) (e : Evaluator)

/-- What a pass decides on a candidate, whatever it decided before. -/
inductive Ruled (c : Candidate) : Decision → Prop
  | alreadyExported : c.isExported = true → Ruled c .alreadyExported
  | filtered : c.isExported = false → p.filter.selects c.name.text = false →
      Ruled c (.skip .filtered)
  | gated {reason : SkipReason} : c.isExported = false → p.filter.selects c.name.text = true →
      c.gate = some reason → Ruled c (.skip reason)
  | judged {v : Verdict} : c.isExported = false → p.filter.selects c.name.text = true →
      c.gate = none → (v.isExportable = true ↔ c.question.Accepted e) → c.Judged e v →
      Ruled c (Decision.ofVerdict v)

variable {p e} {V : Vocabulary} {s : Session} {cs : List (TreePath × Candidate)}

theorem ask_decide (htyped : ∀ c ∈ e.classes, ∀ p ∈ c.properties, p.valueType?.isSome)
    {c : Candidate} (hV : ∀ t ∈ Evaluator.scope e c.question.mentioned, t ∈ V.types)
    (hc : c.question.Proper e) (hs : Evaluator.Idle e V s) :
    ∃ d s', (p.decide e c).ask s = (.ok d, s') ∧ Evaluator.Idle e V s' ∧ Ruled p e c d := by
  cases h : c.isExported with
  | true =>
    refine ⟨.alreadyExported, s, ?_, hs, .alreadyExported h⟩
    rw [decide_of_isExported h, Query.ask_pure]
  | false =>
    cases hfilter : p.filter.selects c.name.text with
    | false =>
      refine ⟨.skip .filtered, s, ?_, hs, .filtered h hfilter⟩
      rw [decide_of_not_selects h hfilter, Query.ask_pure]
    | true =>
      cases hgate : c.gate with
      | some reason =>
        refine ⟨.skip reason, s, ?_, hs, .gated h hfilter hgate⟩
        rw [decide_of_gate h hfilter hgate, Query.ask_pure]
      | none =>
        obtain ⟨v, s', hask, hidle, hv, hjudged⟩ := Candidate.ask_verdict htyped hV hc hs
        refine ⟨.ofVerdict v, s', ?_, hidle, .judged h hfilter hgate hv hjudged⟩
        rw [decide_of_gate_none h hfilter hgate, map_eq_pure_bind, Query.ask_bind_of_ok hask,
          Query.ask_pure]

theorem decides_of_idle (htyped : ∀ c ∈ e.classes, ∀ p ∈ c.properties, p.valueType?.isSome)
    (hV : ∀ x ∈ cs, ∀ t ∈ Evaluator.scope e x.2.question.mentioned, t ∈ V.types)
    (hcs : ∀ x ∈ cs, x.2.question.Proper e) (hs : Evaluator.Idle e V s) :
    ∃ rs s', Decides p e s cs rs s' ∧ ∀ r ∈ rs, Ruled p e r.candidate r.decision := by
  induction cs generalizing s with
  | nil => exact ⟨[], s, .nil s, fun r hr => by cases hr⟩
  | cons x cs ih =>
    obtain ⟨path, c⟩ := x
    obtain ⟨d, s₁, hask, hidle, hruled⟩ :=
      ask_decide htyped (hV _ List.mem_cons_self) (hcs _ List.mem_cons_self) hs
    obtain ⟨rs, s', hdecides, hrest⟩ := ih (fun x hx => hV x (List.mem_cons_of_mem _ hx))
      (fun x hx => hcs x (List.mem_cons_of_mem _ hx)) hidle
    refine ⟨⟨path, c, d⟩ :: rs, s', .cons hask hdecides, fun r hr => ?_⟩
    rcases List.mem_cons.mp hr with rfl | hin
    · exact hruled
    · exact hrest r hin

/-- **A pass over a regular module decides on all candidates**, and each
decision follows from the export surface. -/
theorem exists_decides (p : Pass) {m : SourceModule} (h : m.Regular) :
    ∃ rs s', Decides p (.ofModule m p.options) {} m.candidates rs s' ∧
      ∀ r ∈ rs, Ruled p (.ofModule m p.options) r.candidate r.decision := by
  have hreg := h.evaluator p.options
  refine decides_of_idle (V := hreg.vocabulary) hreg.typed (fun x hx t ht => ?_)
    (fun x hx => h.proper hx) Evaluator.idle_empty
  exact Evaluator.scope_subset (fun u hu => List.mem_flatMap.mpr ⟨x, hx, hu⟩) ht

end Pass

end ExportSurface
