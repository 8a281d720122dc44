import ExportSurface.Proofs.TypeTree
import Mathlib.Data.Set.Lattice
import Mathlib.Logic.Relation
import Mathlib.Order.FixedPoints
import Mathlib.Order.CompletePartialOrder
/-!
# The export surface

The classes and types that can be exported are defined without an evaluation:
they are the greatest set each member of which meets its criterion within the
set (`Evaluator.surface`). An evaluation that is under way answers relative to
what is still open, so the set is also taken relative to assumptions:
`surfaceGiven A` is what can be exported if the members of `A` can. An
assumption that meets its criterion under itself can be dropped
(`surfaceGiven_discharge`).

The surface does not see nullability (`blind_surfaceGiven`), and what it says
of a subject depends only on assumptions the subject leads to
(`mem_surfaceGiven_inter_iff`). Two evaluators that find the same classes have
one surface (`surface_congr`).
-/

namespace ExportSurface

/-- What an answer is about: a type, or a class. -/
inductive Subject where
  | ofType (t : TypeRef)
  | ofClass (c : ClassDecl)

namespace Subject

/-- The subject with its nullability erased. -/
def erased : Subject → Subject
  | .ofType t => .ofType t.erased
  | .ofClass c => .ofClass c

/-- A set of subjects that does not see nullability. -/
def Blind (X : Set Subject) : Prop :=
  ∀ x y : Subject, x.erased = y.erased → x ∈ X → y ∈ X

theorem eq_of_erased_eq_ofClass {x : Subject} {c : ClassDecl}
    (h : x.erased = (Subject.ofClass c).erased) : x = .ofClass c := by
  cases x with
  | ofType t => cases h
  | ofClass d => exact h

theorem exists_of_erased_eq_ofType {x : Subject} {t : TypeRef}
    (h : x.erased = (Subject.ofType t).erased) : ∃ u, x = .ofType u ∧ u.erased = t.erased := by
  cases x with
  | ofType u => exact ⟨u, rfl, Subject.ofType.inj h⟩
  | ofClass c => cases h

end Subject

namespace Evaluator

variable (e : Evaluator)

/-! ## The criterion on subjects -/

/-- The criterion on types: no star projection, and `dynamic`, or a type
parameter whose bounds are all accepted, or a built-in type with an accepted
element, or a type of a known class that is marked or accepted. -/
def TypeAdmitted (X : Set Subject) : TypeRef → Prop
  | .dynamic => True
  | .parameter _ bounds _ => ∀ b ∈ bounds, Subject.ofType b ∈ X
  | .named name args nullable =>
    (TypeRef.named name args nullable).hasStar = false ∧
      (BuiltinAdmitted (fun u => Subject.ofType u ∈ X) (.named name args nullable) ∨
        Builtin.ofType? (.named name args nullable) = none ∧
          ∃ c, e.classNamed? name = some c ∧ (c.isExported = true ∨ Subject.ofClass c ∈ X))

/-- Whether a subject meets its criterion within a set. -/
def Meets (X : Set Subject) : Subject → Prop
  | .ofType t => TypeAdmitted e X t
  | .ofClass c => c.isExported = true ∨
      ClassAdmitted e.options (fun u => Subject.ofType u ∈ X) c

/-- Whether one subject's rule may look at another, up to nullability. -/
inductive Mentions : Subject → Subject → Prop
  /-- A type parameter mentions its bounds. -/
  | bound {name : String} {bounds : List TypeRef} {nullable : Bool} {b u : TypeRef} :
      b ∈ bounds → u.erased = b.erased →
      Mentions (.ofType (.parameter name bounds nullable)) (.ofType u)
  /-- An array type mentions its element. -/
  | element {t v u : TypeRef} :
      t.element? = some v → u.erased = v.erased → Mentions (.ofType t) (.ofType u)
  /-- A class type mentions the class of its name. -/
  | declared {t : TypeRef} {name : QualifiedName} {c : ClassDecl} :
      t.className? = some name → e.classNamed? name = some c →
      Mentions (.ofType t) (.ofClass c)
  /-- A class mentions the types of its surface. -/
  | surface {c : ClassDecl} {t u : TypeRef} :
      t ∈ c.surfaceTypes → u.erased = t.erased → Mentions (.ofClass c) (.ofType u)

/-- Whether one subject's rule leads to another, maybe over others. -/
def Leads : Subject → Subject → Prop := Relation.TransGen (Mentions e)

variable {e}

theorem leads_of_checks {c : ClassDecl} {t : TypeRef} (h : c.Checks t) :
    Leads e (.ofClass c) (.ofType t) := by
  rcases h with h | ⟨a, ha, hel⟩
  · exact Relation.TransGen.single (.surface h rfl)
  · exact (Relation.TransGen.single (.surface ha rfl)).tail (.element hel rfl)

/-- **The criterion is monotone**, and local: it looks at nothing a subject
does not lead to. -/
theorem Meets.imp {X Y : Set Subject} {x : Subject} (h : Meets e X x)
    (hXY : ∀ y, Leads e x y → y ∈ X → y ∈ Y) : Meets e Y x := by
  cases x with
  | ofClass c =>
    refine Or.imp_right (fun hc => ?_) h
    exact hc.imp fun t ht => hXY (.ofType t) (leads_of_checks ht)
  | ofType t =>
    cases t with
    | dynamic => trivial
    | parameter name bounds nullable =>
      intro b hb
      exact hXY _ (Relation.TransGen.single (.bound hb rfl)) (h b hb)
    | named name args nullable =>
      refine ⟨h.1, h.2.imp (fun hb => ?_) fun hc => ⟨hc.1, ?_⟩⟩
      · exact hb.imp fun u hu => hXY _ (Relation.TransGen.single (.element hu rfl))
      · obtain ⟨c, hname, hmarked⟩ := hc.2
        refine ⟨c, hname, hmarked.imp_right fun hin => ?_⟩
        exact hXY _ (Relation.TransGen.single (.declared rfl hname)) hin

theorem Meets.mono {X Y : Set Subject} (hXY : X ⊆ Y) {x : Subject} (h : Meets e X x) :
    Meets e Y x :=
  h.imp fun _ _ hy => hXY hy

variable (e)

/-- The subjects that meet their criterion within a set, as a monotone map. -/
def criterion : Set Subject →o Set Subject where
  toFun X := {x | Meets e X x}
  monotone' _ _ hXY _ hx := Meets.mono hXY hx

/-- **The export surface**: the greatest set whose members meet their
criterion within it. -/
def surface : Set Subject := (criterion e).gfp

/-- What can be exported if the members of a set can. -/
def surfaceGiven (A : Set Subject) : Set Subject :=
  OrderHom.gfp ⟨fun X => A ∪ criterion e X,
    fun _ _ hXY => Set.union_subset_union_right A ((criterion e).monotone hXY)⟩

variable {e}

/-! ## Assumptions -/

variable {A B X : Set Subject} {x y : Subject}

theorem mem_surfaceGiven_iff :
    x ∈ surfaceGiven e A ↔ x ∈ A ∨ Meets e (surfaceGiven e A) x := by
  have h := OrderHom.map_gfp (⟨fun X => A ∪ criterion e X,
    fun _ _ hXY => Set.union_subset_union_right A ((criterion e).monotone hXY)⟩ :
      Set Subject →o Set Subject)
  constructor
  · intro hx
    change x ∈ OrderHom.gfp _ at hx
    rw [← h] at hx
    exact hx
  · intro hx
    change x ∈ OrderHom.gfp _
    rw [← h]
    exact hx

theorem subset_surfaceGiven : A ⊆ surfaceGiven e A :=
  fun _ hx => mem_surfaceGiven_iff.mpr (Or.inl hx)

theorem mem_surfaceGiven_of_meets (h : Meets e (surfaceGiven e A) x) : x ∈ surfaceGiven e A :=
  mem_surfaceGiven_iff.mpr (Or.inr h)

/-- **Coinduction**: a set whose members are assumed or meet their criterion
within it lies on the surface. -/
theorem subset_surfaceGiven_of_forall (h : ∀ x ∈ X, x ∈ A ∨ Meets e X x) :
    X ⊆ surfaceGiven e A :=
  OrderHom.le_gfp _ h

theorem surfaceGiven_mono (hAB : A ⊆ B) : surfaceGiven e A ⊆ surfaceGiven e B :=
  subset_surfaceGiven_of_forall fun _ hx => (mem_surfaceGiven_iff.mp hx).imp_left (@hAB _)

/-- Nothing assumed, it is the export surface. -/
theorem surfaceGiven_empty : surfaceGiven e ∅ = surface e := by
  refine Set.Subset.antisymm ?_ ?_
  · refine OrderHom.le_gfp _ fun x hx => ?_
    exact (mem_surfaceGiven_iff.mp hx).resolve_left (Set.notMem_empty x)
  · refine subset_surfaceGiven_of_forall fun x hx => Or.inr ?_
    rw [surface, ← OrderHom.map_gfp] at hx
    exact hx

theorem mem_surface_iff : x ∈ surface e ↔ Meets e (surface e) x := by
  rw [← surfaceGiven_empty]
  exact mem_surfaceGiven_iff.trans (or_iff_right (Set.notMem_empty x))

/-- **An assumption that meets its criterion under itself can be dropped.** -/
theorem surfaceGiven_discharge (h : ∀ x ∈ B, Meets e (surfaceGiven e (A ∪ B)) x) :
    surfaceGiven e (A ∪ B) ⊆ surfaceGiven e A := by
  refine subset_surfaceGiven_of_forall fun x hx => ?_
  rcases mem_surfaceGiven_iff.mp hx with (hA | hB) | hmeets
  · exact Or.inl hA
  · exact Or.inr (h x hB)
  · exact Or.inr hmeets

/-! ## Nullability -/

theorem BuiltinAdmitted.of_erased_eq (hX : Subject.Blind X) {t u : TypeRef}
    (htu : t.erased = u.erased) (h : BuiltinAdmitted (fun v => Subject.ofType v ∈ X) t) :
    BuiltinAdmitted (fun v => Subject.ofType v ∈ X) u where
  noStar := by rw [← u.hasStar_erased, ← htu, t.hasStar_erased, h.noStar]
  builtin := by rw [← u.ofType?_erased, ← htu, t.ofType?_erased, h.builtin]
  element v hv := by
    obtain ⟨w, hw, hwv⟩ := TypeRef.exists_element_of_erased_eq htu hv
    exact hX (.ofType w) (.ofType v) (congrArg Subject.ofType hwv) (h.element w hw)

/-- Meeting the criterion does not hang on nullability, within a set that does
not see it. -/
theorem Meets.of_erased_eq (hX : Subject.Blind X) (hxy : x.erased = y.erased)
    (hx : Meets e X x) : Meets e X y := by
  cases y with
  | ofClass c =>
    rw [Subject.eq_of_erased_eq_ofClass hxy] at hx
    exact hx
  | ofType u =>
    obtain ⟨t, rfl, htu⟩ := Subject.exists_of_erased_eq_ofType hxy
    cases t with
    | dynamic =>
      cases u with
      | dynamic => trivial
      | parameter => cases htu
      | named => cases htu
    | parameter name bounds nullable =>
      cases u with
      | dynamic => cases htu
      | named => cases htu
      | parameter name' bounds' nullable' =>
        intro b' hb'
        obtain ⟨b, hb, hbb'⟩ := TypeRef.exists_bound_of_erased_eq htu hb'
        exact hX (.ofType b) (.ofType b') (congrArg Subject.ofType hbb') (hx b hb)
    | named name args nullable =>
      cases u with
      | dynamic => cases htu
      | parameter => cases htu
      | named name' args' nullable' =>
        obtain rfl : name = name' := (TypeRef.named.inj htu).1
        refine ⟨?_, hx.2.imp (BuiltinAdmitted.of_erased_eq hX htu) (And.imp_left fun hnone => ?_)⟩
        · rw [← TypeRef.hasStar_erased, ← htu, TypeRef.hasStar_erased]
          exact hx.1
        · exact hnone

/-- **The surface does not see nullability**, if the assumptions do not. -/
theorem blind_surfaceGiven (hA : Subject.Blind A) : Subject.Blind (surfaceGiven e A) := by
  -- the closure of the surface under nullability is a candidate for the coinduction
  let Z : Set Subject := {y | ∃ x ∈ surfaceGiven e A, x.erased = y.erased}
  have hself : surfaceGiven e A ⊆ Z := fun z hz => ⟨z, hz, rfl⟩
  have hblind : Subject.Blind Z := by
    rintro z w hzw ⟨x, hx, hxz⟩
    exact ⟨x, hx, hxz.trans hzw⟩
  have hsub : Z ⊆ surfaceGiven e A := by
    refine subset_surfaceGiven_of_forall ?_
    rintro y ⟨x, hx, hxy⟩
    refine (mem_surfaceGiven_iff.mp hx).imp (hA x y hxy) fun hmeets => ?_
    exact (hmeets.mono hself).of_erased_eq hblind hxy
  exact fun x y hxy hx => hsub ⟨x, hx, hxy⟩

/-! ## What a subject leads to -/

theorem Mentions.of_erased_eq {x' y' : Subject} (hx : x'.erased = x.erased)
    (hy : y'.erased = y.erased) (h : Mentions e x y) : Mentions e x' y' := by
  cases h with
  | @bound name bounds nullable b u hb hu =>
    obtain ⟨t', rfl, ht'⟩ := Subject.exists_of_erased_eq_ofType hx
    obtain ⟨u', rfl, hu'⟩ := Subject.exists_of_erased_eq_ofType hy
    cases t' with
    | dynamic => cases ht'
    | named => cases ht'
    | parameter name' bounds' nullable' =>
      obtain ⟨b', hb', hbb'⟩ := TypeRef.exists_bound_of_erased_eq ht' hb
      exact .bound hb' (by rw [hu', hu, hbb'])
  | @element t v u hv hu =>
    obtain ⟨t', rfl, ht'⟩ := Subject.exists_of_erased_eq_ofType hx
    obtain ⟨u', rfl, hu'⟩ := Subject.exists_of_erased_eq_ofType hy
    obtain ⟨w, hw, hwv⟩ := TypeRef.exists_element_of_erased_eq ht' hv
    exact .element hw (by rw [hu', hu, hwv])
  | @declared t name c hname hc =>
    obtain ⟨t', rfl, ht'⟩ := Subject.exists_of_erased_eq_ofType hx
    rw [Subject.eq_of_erased_eq_ofClass hy]
    refine .declared ?_ hc
    rw [← t'.className?_erased, ht', t.className?_erased, hname]
  | @surface c t u ht hu =>
    rw [Subject.eq_of_erased_eq_ofClass hx]
    obtain ⟨u', rfl, hu'⟩ := Subject.exists_of_erased_eq_ofType hy
    exact .surface ht (hu'.trans hu)

theorem Leads.of_erased_eq {x' y' : Subject} (hx : x'.erased = x.erased)
    (hy : y'.erased = y.erased) (h : Leads e x y) : Leads e x' y' := by
  have hlast : ∀ {z}, Leads e x z → z.erased = y.erased → Leads e x y' := by
    intro z hz hzy
    cases hz with
    | single hm => exact .single (hm.of_erased_eq rfl (hy.trans hzy.symm))
    | tail hw hm => exact .tail hw (hm.of_erased_eq rfl (hy.trans hzy.symm))
  -- first the end of the path is replaced, then its start
  have hright : Leads e x y' := hlast h rfl
  rcases Relation.TransGen.head'_iff.mp hright with ⟨w, hm, hw⟩
  exact Relation.TransGen.head' (hm.of_erased_eq hx rfl) hw

/-- **Only assumptions that a subject leads to matter to what it leads to.** -/
theorem mem_surfaceGiven_inter_iff (hxy : Leads e x y) :
    y ∈ surfaceGiven e (A ∩ {z | Leads e x z}) ↔ y ∈ surfaceGiven e A := by
  constructor
  · exact fun hy => surfaceGiven_mono Set.inter_subset_left hy
  · intro hy
    -- what a subject leads to is closed under the criterion, so the rest of `A` is not needed
    have hsub : surfaceGiven e A ∩ {z | Leads e x z}
        ⊆ surfaceGiven e (A ∩ {z | Leads e x z}) := by
      refine subset_surfaceGiven_of_forall ?_
      rintro z ⟨hz, hxz⟩
      refine (mem_surfaceGiven_iff.mp hz).imp (fun hA => ⟨hA, hxz⟩) fun hmeets => ?_
      exact hmeets.imp fun w hzw hw => ⟨hw, hxz.trans hzw⟩
    exact hsub ⟨hy, hxy⟩

/-! ## What the surface depends on -/

section Congr

variable {e' : Evaluator} (hoptions : e.options = e'.options)
  (hclass : ∀ name, e.classNamed? name = e'.classNamed? name)
include hoptions hclass

theorem criterion_congr : criterion e = criterion e' := by
  have hmeets : ∀ X x, Meets e X x ↔ Meets e' X x := by
    intro X x
    cases x with
    | ofClass c => simp only [Meets, hoptions]
    | ofType t =>
      cases t with
      | dynamic => exact Iff.rfl
      | parameter name bounds nullable => exact Iff.rfl
      | named name args nullable => simp only [Meets, TypeAdmitted, hclass]
  exact OrderHom.ext _ _ (funext fun X => Set.ext fun x => hmeets X x)

theorem surfaceGiven_congr (A : Set Subject) : surfaceGiven e A = surfaceGiven e' A := by
  simp only [surfaceGiven, criterion_congr hoptions hclass]

/-- **Of an evaluator only its options and the classes it finds count.** -/
theorem surface_congr : surface e = surface e' := by
  rw [surface, surface, criterion_congr hoptions hclass]

end Congr

end Evaluator

end ExportSurface
