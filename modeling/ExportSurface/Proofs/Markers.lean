import ExportSurface.Proofs.Surface
import Mathlib.Data.Option.Basic
/-!
# Markers and the surface

A marker on a class is all that the rules see of its annotations: classes that
differ in markers and in nested classes alone (`ClassDecl.Alike`) meet the same
criterion. So when the classes of an evaluator are marked further, and fewer
types of properties are looked at, what was on the export surface stays on it,
and if only classes of the surface were marked, and the options are the same,
nothing is added (`Evaluator.Marked.mem_surface_iff`).

Both directions are one coinduction, along any relation between the classes of
two evaluators under which a class that is marked on one side is marked or on
the surface on the other (`Evaluator.surface_of_related`).
-/

namespace ExportSurface

/-- The same class to every rule, markers apart. The nested classes, which no
rule looks at, may be others. -/
structure ClassDecl.Alike (c c' : ClassDecl) : Prop where
  name : c.name = c'.name
  kind : c.kind = c'.kind
  visibility : c.visibility = c'.visibility
  modifiers : c.modifiers = c'.modifiers
  supertypes : c.supertypes = c'.supertypes
  constructors : c.constructors = c'.constructors
  properties : c.properties = c'.properties
  methods : c.methods = c'.methods

namespace ClassDecl.Alike

variable {c c' : ClassDecl}

theorem refl (c : ClassDecl) : c.Alike c := ⟨rfl, rfl, rfl, rfl, rfl, rfl, rfl, rfl⟩

theorem symm (h : c.Alike c') : c'.Alike c where
  name := h.name.symm
  kind := h.kind.symm
  visibility := h.visibility.symm
  modifiers := h.modifiers.symm
  supertypes := h.supertypes.symm
  constructors := h.constructors.symm
  properties := h.properties.symm
  methods := h.methods.symm

theorem types_eq (h : c.Alike c') : c.types = c'.types := by
  rw [ClassDecl.types, ClassDecl.types, h.supertypes, h.constructors, h.properties, h.methods]

/-- Classes alike meet the same criterion. -/
theorem admitted (h : c.Alike c') {options : RuleOptions} {X : TypeRef → Prop}
    (hc : ClassAdmitted options X c) : ClassAdmitted options X c' where
  unflagged := by
    rw [← h.kind, ← h.modifiers]
    exact hc.unflagged
  isPublic := h.visibility ▸ hc.isPublic
  supertypes := h.supertypes ▸ hc.supertypes
  constructors := h.constructors ▸ hc.constructors
  properties := h.properties ▸ hc.properties
  methods := h.methods ▸ hc.methods
  distinct := h.methods ▸ hc.distinct

end ClassDecl.Alike

namespace Evaluator

/-! ## Related evaluators -/

/-- Two subjects that are one type, or classes related to one another. -/
inductive Counterpart (R : ClassDecl → ClassDecl → Prop) : Subject → Subject → Prop
  | ofType (t : TypeRef) : Counterpart R (.ofType t) (.ofType t)
  | ofClass {c c' : ClassDecl} : R c c' → Counterpart R (.ofClass c) (.ofClass c')

variable {e e' : Evaluator} {R : ClassDecl → ClassDecl → Prop} {X Y : Set Subject}
  {x y : Subject}

/-- A subject's counterpart meets its criterion if the subject does, within a
set that holds the counterparts of what the criterion looked at. -/
theorem Meets.counterpart
    (hoptions : e'.options.checkPropertyTypes = true → e.options.checkPropertyTypes = true)
    (hfind : ∀ name c, e.classNamed? name = some c →
      ∃ c', e'.classNamed? name = some c' ∧ R c c')
    (halike : ∀ c c', R c c' → c.Alike c')
    (hmarked : ∀ c c', R c c' → c.isExported = true →
      c'.isExported = true ∨ Subject.ofClass c' ∈ Y ∧ Meets e' Y (.ofClass c'))
    (hXY : ∀ x y, Counterpart R x y → x ∈ X → y ∈ Y) (hxy : Counterpart R x y)
    (h : Meets e X x) : Meets e' Y y := by
  have htype : ∀ t, Subject.ofType t ∈ X → Subject.ofType t ∈ Y := fun t => hXY _ _ (.ofType t)
  cases hxy with
  | @ofClass c c' hc =>
    rcases h with hexported | hadmitted
    · rcases hmarked c c' hc hexported with hexported' | ⟨-, hmeets⟩
      · exact Or.inl hexported'
      · exact hmeets
    · refine Or.inr ((halike c c' hc).admitted ?_)
      exact (hadmitted.lenient hoptions).imp fun t _ ht => htype t ht
  | ofType t =>
    cases t with
    | dynamic => trivial
    | parameter name bounds nullable => exact fun b hb => htype b (h b hb)
    | named name args nullable =>
      refine ⟨h.1, h.2.imp (fun hb => hb.imp fun u _ hu => htype u hu)
        (And.imp_right fun hclass => ?_)⟩
      obtain ⟨c, hname, hmember⟩ := hclass
      obtain ⟨c', hname', hc⟩ := hfind name c hname
      refine ⟨c', hname', ?_⟩
      rcases hmember with hexported | hin
      · exact (hmarked c c' hc hexported).imp_right And.left
      · exact Or.inr (hXY _ _ (.ofClass hc) hin)

/-- **Related evaluators**: what is on one surface has its counterparts on the
other, if classes marked for one are marked for the other or on its surface, and
the other looks at the types of properties only if the one does. -/
theorem surface_of_related
    (hoptions : e'.options.checkPropertyTypes = true → e.options.checkPropertyTypes = true)
    (hfind : ∀ name c, e.classNamed? name = some c →
      ∃ c', e'.classNamed? name = some c' ∧ R c c')
    (halike : ∀ c c', R c c' → c.Alike c')
    (hmarked : ∀ c c', R c c' → c.isExported = true →
      c'.isExported = true ∨ Subject.ofClass c' ∈ surface e')
    (hxy : Counterpart R x y) (hx : x ∈ surface e) : y ∈ surface e' := by
  -- the counterparts of one surface, together with the other surface, support themselves
  let Z : Set Subject := {y | (∃ x ∈ surface e, Counterpart R x y) ∨ y ∈ surface e'}
  have hcounterpart : ∀ x y, Counterpart R x y → x ∈ surface e → y ∈ Z :=
    fun x y hxy hx => Or.inl ⟨x, hx, hxy⟩
  have hother : surface e' ⊆ Z := fun y hy => Or.inr hy
  have hsupport : ∀ y ∈ Z, y ∈ (∅ : Set Subject) ∨ Meets e' Z y := by
    rintro y (⟨x, hx, hxy⟩ | hy)
    · refine Or.inr (Meets.counterpart hoptions hfind halike (fun c c' hc hexported => ?_)
        hcounterpart hxy (mem_surface_iff.mp hx))
      refine (hmarked c c' hc hexported).imp_right fun hin => ⟨hother hin, ?_⟩
      exact (mem_surface_iff.mp hin).mono hother
    · exact Or.inr ((mem_surface_iff.mp hy).mono hother)
  rw [← surfaceGiven_empty]
  exact subset_surfaceGiven_of_forall hsupport (hcounterpart x y hxy hx)

/-! ## Evaluators marked further -/

/-- What may become of a class: its marker is kept, and one is added only on the
surface. -/
structure Becomes (e : Evaluator) (c c' : ClassDecl) : Prop where
  alike : c.Alike c'
  kept : c.isExported = true → c'.isExported = true
  earned : c'.isExported = true → c.isExported = true ∨ Subject.ofClass c ∈ surface e

theorem Becomes.refl (e : Evaluator) (c : ClassDecl) : Becomes e c c where
  alike := .refl c
  kept := id
  earned := Or.inl

/-- An evaluator with classes of the surface marked further. -/
structure Marked (e e' : Evaluator) : Prop where
  options : e.options = e'.options
  find : ∀ name, Option.Rel (Becomes e) (e.classNamed? name) (e'.classNamed? name)

/-- **Marking classes of the surface neither enlarges nor shrinks it.** -/
theorem Marked.mem_surface_iff (h : Marked e e') (hxy : Counterpart (Becomes e) x y) :
    x ∈ surface e ↔ y ∈ surface e' := by
  constructor
  · refine surface_of_related (h.options ▸ id) (fun name c hc => ?_) (fun c c' hc => hc.alike)
      (fun c c' hc hexported => Or.inl (hc.kept hexported)) hxy
    have hrel := h.find name
    rw [hc] at hrel
    generalize e'.classNamed? name = found at hrel ⊢
    cases hrel with
    | some hc' => exact ⟨_, rfl, hc'⟩
  · have hyx : Counterpart (fun c' c => Becomes e c c') y x := by
      cases hxy with
      | ofType t => exact .ofType t
      | ofClass hc => exact .ofClass hc
    refine surface_of_related (h.options ▸ id) (fun name c' hc' => ?_)
      (fun c' c hc => hc.alike.symm) (fun c' c hc => hc.earned) hyx
    have hrel := h.find name
    rw [hc'] at hrel
    generalize e.classNamed? name = found at hrel ⊢
    cases hrel with
    | some hc => exact ⟨_, rfl, hc⟩

theorem Marked.mem_surface_ofType_iff (h : Marked e e') (t : TypeRef) :
    Subject.ofType t ∈ surface e ↔ Subject.ofType t ∈ surface e' :=
  h.mem_surface_iff (.ofType t)

end Evaluator

end ExportSurface
