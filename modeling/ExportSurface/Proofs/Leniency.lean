import ExportSurface.Proofs.OpenEvaluations
import ExportSurface.Proofs.Remarking
/-!
# Markers and leniency

Give some classes of a module the marker that they do not have, those of
dependencies and nested ones as well (`SourceModule.MarkedFurther`), and look no
longer at the types of properties, or look at them as before. Then the evaluator
of the module has the same classes, markers apart (`Evaluator.Relaxed`), and what
was on the export surface stays on it. So all that an evaluator of the one module
accepts, an evaluator of the other accepts too
(`Evaluator.accepted_of_markedFurther`).

The step that could go the other way does not. A member inherited from a built-in
ancestor is exempt where the ancestor can be exported, so a further marker can
take a check away, but adds none.
-/

namespace ExportSurface

/-! ## Declarations marked further -/

/-- The same header with annotations added, the marker maybe among them. -/
def ClassHeader.MarkedFurther (h h' : ClassHeader) : Prop :=
  ∃ annotations, h.annotations.Sublist annotations ∧ h' = { h with annotations }

theorem ClassHeader.markedFurther_markExported (h : ClassHeader) :
    h.MarkedFurther h.markExported := by
  refine ⟨withMarker h.annotations, ?_, rfl⟩
  unfold withMarker
  split
  · exact List.Sublist.refl _
  · exact List.sublist_append_left _ _

/-- The same declaration with annotations added to some of the classes in it,
itself included. -/
inductive Declaration.MarkedFurther : Declaration → Declaration → Prop
  /-- All is as it was. -/
  | same (d : Declaration) : MarkedFurther d d
  /-- A class and its members. -/
  | classDecl {h h' : ClassHeader} {ms ms' : List Declaration} :
      h.MarkedFurther h' → List.Forall₂ MarkedFurther ms ms' →
      MarkedFurther (.classDecl h ms) (.classDecl h' ms')

/-- The same class to every rule, but for a marker that it may have been given. -/
structure ClassDecl.MarkedFurther (c c' : ClassDecl) : Prop extends c.Alike c' where
  kept : c.isExported = true → c'.isExported = true

theorem ClassDecl.MarkedFurther.refl (c : ClassDecl) : c.MarkedFurther c := ⟨.refl c, id⟩

namespace Declaration

variable {h h' : ClassHeader} {ms ms' : List Declaration}

/-- Members of a kind that is not that of classes stay as they are. -/
theorem filterMap_of_markedFurther {α : Type} {f : Declaration → Option α}
    (hf : ∀ h ms, f (.classDecl h ms) = none) (hms : List.Forall₂ MarkedFurther ms ms') :
    ms.filterMap f = ms'.filterMap f := by
  induction hms with
  | nil => rfl
  | @cons d d' ms ms' hd _ ih =>
    have hfirst : f d = f d' := by
      cases hd with
      | same => rfl
      | classDecl _ _ => rw [hf, hf]
    rw [List.filterMap_cons, List.filterMap_cons, hfirst, ih]

theorem markedFurther_of_classDecl (hh : h.MarkedFurther h')
    (hms : List.Forall₂ MarkedFurther ms ms') : ClassDecl.MarkedFurther ⟨h, ms⟩ ⟨h', ms'⟩ := by
  obtain ⟨annotations, hsub, rfl⟩ := hh
  refine ⟨⟨rfl, rfl, rfl, rfl, rfl, ?_, ?_, ?_⟩, fun hexported => ?_⟩
  · exact filterMap_of_markedFurther (fun _ _ => rfl) hms
  · exact filterMap_of_markedFurther (fun _ _ => rfl) hms
  · exact filterMap_of_markedFurther (fun _ _ => rfl) hms
  · exact List.elem_eq_true_of_mem (hsub.subset (List.mem_of_elem_eq_true hexported))

mutual

/-- The classes inside a declaration are marked further one by one. -/
theorem forall₂_classes {d d' : Declaration} (hd : d.MarkedFurther d') :
    List.Forall₂ ClassDecl.MarkedFurther d.classes d'.classes := by
  cases hd with
  | same => exact List.forall₂_same.mpr fun c _ => .refl c
  | classDecl hh hms => exact .cons (markedFurther_of_classDecl hh hms) (forall₂_classesIn hms)

theorem forall₂_classesIn {ds ds' : List Declaration} (hds : List.Forall₂ MarkedFurther ds ds') :
    List.Forall₂ ClassDecl.MarkedFurther (classesIn ds) (classesIn ds') := by
  cases hds with
  | nil => exact .nil
  | cons hd hds => exact List.rel_append (forall₂_classes hd) (forall₂_classesIn hds)

end

end Declaration

namespace SourceModule

/-- The same module with annotations added to some of its classes, those of the
dependencies and nested ones among them. -/
structure MarkedFurther (m m' : SourceModule) : Prop where
  name : m'.name = m.name
  files : List.Forall₂ (fun file file' => ∃ declarations,
    List.Forall₂ Declaration.MarkedFurther file.declarations declarations ∧
      file' = { file with declarations }) m.files m'.files
  dependencies : List.Forall₂ (fun c c' => c.toDeclaration.MarkedFurther c'.toDeclaration)
    m.dependencies m'.dependencies

theorem MarkedFurther.forall₂_allClasses {m m' : SourceModule} (h : m.MarkedFurther m') :
    List.Forall₂ ClassDecl.MarkedFurther m.allClasses m'.allClasses := by
  refine List.rel_append ?_ ?_
  · exact List.rel_flatMap h.dependencies fun _ _ hc => Declaration.forall₂_classes hc
  · refine List.rel_flatMap h.files ?_
    rintro file _ ⟨declarations, hds, rfl⟩
    exact Declaration.forall₂_classesIn hds

end SourceModule

namespace Evaluator

variable {e e' : Evaluator} {c c' : ClassDecl} {t : TypeRef} {q : Question}
  {types : List TypeRef}

/-! ## Relaxed evaluators -/

/-- An evaluator with classes marked further, which looks at the types of
properties only if the other does. -/
structure Relaxed (e e' : Evaluator) : Prop where
  classes : List.Forall₂ ClassDecl.MarkedFurther e.classes e'.classes
  options : e'.options.checkPropertyTypes = true → e.options.checkPropertyTypes = true

namespace Relaxed

/-- A class that one evaluator finds has its counterpart found by the other. -/
theorem find (h : Relaxed e e') {name : QualifiedName} (hc : e.classNamed? name = some c) :
    ∃ c', e'.classNamed? name = some c' ∧ c.MarkedFurther c' := by
  have hrel := SourceModule.rel_find?_name (fun _ _ hc => hc.name) h.classes name
  change Option.Rel _ (e.classNamed? name) (e'.classNamed? name) at hrel
  rw [hc] at hrel
  generalize e'.classNamed? name = found at hrel ⊢
  cases hrel with
  | some hc' => exact ⟨_, rfl, hc'⟩

/-- **What is on the surface stays on it.** -/
theorem mem_surface (h : Relaxed e e') {x y : Subject}
    (hxy : Counterpart ClassDecl.MarkedFurther x y) (hx : x ∈ surface e) : y ∈ surface e' :=
  surface_of_related h.options (fun _ _ hc => h.find hc) (fun _ _ hc => hc.toAlike)
    (fun _ _ hc hexported => Or.inl (hc.kept hexported)) hxy hx

theorem map_classes {α : Type} {f : ClassDecl → α} (hf : ∀ c c', c.Alike c' → f c = f c')
    (h : Relaxed e e') : e.classes.map f = e'.classes.map f := by
  rw [← List.forall₂_eq_eq_eq, List.forall₂_map_left_iff, List.forall₂_map_right_iff]
  exact h.classes.imp fun c c' hc => hf c c' hc.toAlike

theorem scope_eq (h : Relaxed e e') (types : List TypeRef) : scope e' types = scope e types := by
  have htypes : e.classes.map ClassDecl.types = e'.classes.map ClassDecl.types :=
    map_classes (fun _ _ hc => hc.types_eq) h
  rw [scope, scope, List.flatMap_def (l := e.classes), List.flatMap_def (l := e'.classes), htypes]

/-- A regular evaluator stays regular. -/
theorem regular (h : Relaxed e e') (hreg : e.Regular types) : e'.Regular types where
  typed c' hc' := by
    have hin : c'.properties ∈ e'.classes.map (·.properties) := List.mem_map_of_mem hc'
    rw [← map_classes (fun _ _ hc => hc.properties) h] at hin
    obtain ⟨c, hc, heq⟩ := List.mem_map.mp hin
    exact heq ▸ hreg.typed c hc
  faithful := by
    rw [h.scope_eq]
    exact hreg.faithful

end Relaxed

/-! ## Questions carried over -/

/-- The same question, put to another evaluator: about a class, it is about the
class of that name there. -/
inductive Question.Carried (e' : Evaluator) : Question → Question → Prop
  | typeExportable (t : TypeRef) : Carried e' (.typeExportable t) (.typeExportable t)
  | classExportable {c c' : ClassDecl} : e'.classNamed? c.name = some c' →
      Carried e' (.classExportable c) (.classExportable c')
  | classVerdict {c c' : ClassDecl} : e'.classNamed? c.name = some c' →
      Carried e' (.classVerdict c) (.classVerdict c')
  | functionVerdict (f : FunctionDecl) : Carried e' (.functionVerdict f) (.functionVerdict f)
  | constructorVerdict (k : ConstructorDecl) :
      Carried e' (.constructorVerdict k) (.constructorVerdict k)
  | propertyVerdict (p : PropertyDecl) : Carried e' (.propertyVerdict p) (.propertyVerdict p)

/-- A property that is accepted has a type. -/
theorem valueType?_isSome_of_ask {p : PropertyDecl} {s : Session}
    (h : (((Question.propertyVerdict p).put e).ask s).1 = .ok true) :
    p.valueType?.isSome = true := by
  have hends := (Rule.demands_typed_ofProperty (F := fun _ => True) (X := fun _ => True) e.options p
    fun _ => trivial).isExportable
  rw [Question.put, propertyVerdict, ← Inquiry.run_ofProperty, ← Inquiry.run_map] at h
  cases hask : ((Verdict.isExportable <$> Rule.ofProperty e.options Inquiry.put p).run
      (typeWithin e (e.bound p.types))).ask s with
  | mk result s' =>
    rw [hask] at h
    obtain rfl : result = .ok true := h
    exact Inquiry.Ends.of_run (fun _ _ _ _ => trivial) hends hask rfl

theorem Question.Indexed.proper (hq : q.Indexed e) (h : ((q.put e).ask {}).1 = .ok true) :
    q.Proper e := by
  cases q with
  | typeExportable t => trivial
  | classExportable c => exact hq c rfl
  | classVerdict c => exact hq c rfl
  | functionVerdict f => trivial
  | constructorVerdict k => trivial
  | propertyVerdict p => exact valueType?_isSome_of_ask h

/-- A fresh evaluator accepts what the export surface does. -/
theorem ask_put_eq_true_iff (hreg : e.Regular q.mentioned) (hq : q.Proper e) :
    ((q.put e).ask {}).1 = .ok true ↔ q.Accepted e := by
  obtain ⟨b, s', hask, -, hb⟩ :=
    ask_put (V := hreg.vocabulary) hreg.typed (fun _ ht => ht) hq idle_empty
  rw [hask, ← hb]
  exact ⟨Except.ok.inj, congrArg Except.ok⟩

/-- What is accepted is accepted when carried over to a relaxed evaluator. -/
theorem Relaxed.accepted (h : Relaxed e e') (hq : q.Proper e) (ha : q.Accepted e) :
    ∃ q', q.Carried e' q' ∧ q'.mentioned = q.mentioned ∧ q'.Proper e' ∧ q'.Accepted e' := by
  have htype : ∀ t, Subject.ofType t ∈ surface e → Subject.ofType t ∈ surface e' :=
    fun t => h.mem_surface (.ofType t)
  cases q with
  | typeExportable t => exact ⟨_, .typeExportable t, rfl, trivial, htype t ha⟩
  | classExportable c =>
    obtain ⟨c', hfind, hc⟩ := h.find hq
    have hproper : e'.classNamed? c'.name = some c' := hc.name ▸ hfind
    exact ⟨_, .classExportable hfind, hc.types_eq.symm, hproper, h.mem_surface (.ofClass hc) ha⟩
  | classVerdict c =>
    obtain ⟨c', hfind, hc⟩ := h.find hq
    have hproper : e'.classNamed? c'.name = some c' := hc.name ▸ hfind
    exact ⟨_, .classVerdict hfind, hc.types_eq.symm, hproper, h.mem_surface (.ofClass hc) ha⟩
  | functionVerdict f =>
    exact ⟨_, .functionVerdict f, rfl, trivial, FunctionAdmitted.imp ha fun t _ => htype t⟩
  | constructorVerdict k =>
    exact ⟨_, .constructorVerdict k, rfl, trivial, ConstructorAdmitted.imp ha fun t _ => htype t⟩
  | propertyVerdict p =>
    have hadmitted : PropertyAdmitted e.options (fun t => Subject.ofType t ∈ surface e) p := ha
    exact ⟨_, .propertyVerdict p, rfl, hq,
      (hadmitted.lenient h.options).imp fun t _ => htype t⟩

/-- **More markers and fewer checks take nothing off the surface.** Let some
classes of a module be marked further, in its files or among its dependencies,
nested ones as well, and the types of properties be looked at no longer, or as
before. Then every type, class of the index, function, constructor and property
that a fresh evaluator of the module accepts is accepted by a fresh one of the
module so marked, with the options so changed. Properties have types, and keys are
those of one type up to nullability. -/
theorem accepted_of_markedFurther (m m' : SourceModule) (options options' : RuleOptions)
    (q : Question) (hm : m.MarkedFurther m')
    (hoptions : options'.checkPropertyTypes = false ∨
      options'.checkPropertyTypes = options.checkPropertyTypes)
    (hreg : (ofModule m options).Regular q.mentioned) (hq : q.Indexed (ofModule m options))
    (haccepted : ((q.put (ofModule m options)).ask {}).1 = .ok true) :
    ∃ q', q.Carried (ofModule m' options') q' ∧
      ((q'.put (ofModule m' options')).ask {}).1 = .ok true := by
  have hrelaxed : Relaxed (ofModule m options) (ofModule m' options') := by
    refine ⟨List.forall₂_reverse_iff.mpr hm.forall₂_allClasses, fun hchecked => ?_⟩
    rcases hoptions with hoff | hsame
    · cases hoff.symm.trans hchecked
    · exact hsame.symm.trans hchecked
  have hproper := hq.proper haccepted
  obtain ⟨q', hcarried, hmentioned, hproper', haccepted'⟩ :=
    hrelaxed.accepted hproper ((ask_put_eq_true_iff hreg hproper).mp haccepted)
  have hreg' : (ofModule m' options').Regular q'.mentioned := hmentioned ▸ hrelaxed.regular hreg
  exact ⟨q', hcarried, (ask_put_eq_true_iff hreg' hproper').mpr haccepted'⟩

/-- A class of another module. -/
def book : ClassDecl where
  name := ⟨"lib.Book"⟩

/-- A property of that class. -/
def title : PropertyDecl where
  name := ⟨"test.Shelf.book"⟩
  backingField := some (.plain "lib.Book")

/-- A class that holds the other, and one nested in it. -/
def shelf : ClassDecl where
  name := ⟨"test.Shelf"⟩
  members := [.property title, .classDecl { name := ⟨"test.Shelf.Slot"⟩ } []]

/-- A module of the one class that depends on the other. -/
def library : SourceModule where
  name := "test"
  files := [{ path := "A.kt", declarations := [shelf.toDeclaration] }]
  dependencies := [book]

/-- The module with the nested class and that of the dependency marked. -/
def libraryMarked : SourceModule where
  name := "test"
  files := [{
    path := "A.kt"
    declarations := [.classDecl shelf.toClassHeader
      [.property title,
        .classDecl (ClassHeader.markExported { name := ⟨"test.Shelf.Slot"⟩ }) []]] }]
  dependencies := [⟨book.toClassHeader.markExported, []⟩]

/-- A class stays accepted when classes are marked that it holds or has nested in
it, and the types of properties are not looked at. -/
theorem accepted_of_markedFurther_shelf :
    library.MarkedFurther libraryMarked ∧
      (ofModule library {}).Regular (Question.classVerdict shelf).mentioned ∧
      (((Question.classVerdict shelf).put (ofModule library {})).ask {}).1 = .ok true ∧
      ∃ q', (Question.classVerdict shelf).Carried
          (ofModule libraryMarked { checkPropertyTypes := false }) q' ∧
        ((q'.put (ofModule libraryMarked { checkPropertyTypes := false })).ask {}).1
          = .ok true := by
  have hmarked : library.MarkedFurther libraryMarked := by
    refine ⟨rfl, .cons ⟨_, .cons ?_ .nil, rfl⟩ .nil, .cons ?_ .nil⟩
    · refine .classDecl ⟨_, List.Sublist.refl _, rfl⟩ (.cons (.same _) (.cons ?_ .nil))
      exact .classDecl (ClassHeader.markedFurther_markExported _) .nil
    · exact .classDecl (ClassHeader.markedFurther_markExported _) .nil
  have hscope : scope (ofModule library {}) (Question.classVerdict shelf).mentioned
      = [.plain "lib.Book", .plain "lib.Book"] := rfl
  have hplain : ∀ t ∈ scope (ofModule library {}) (Question.classVerdict shelf).mentioned,
      ∃ name, t = .plain name := by
    rw [hscope]
    simp
  have hregular : (ofModule library {}).Regular (Question.classVerdict shelf).mentioned := by
    refine ⟨?_, fun t ht u hu _ _ => TypeRef.erased_eq_of_plain (hplain t ht) (hplain u hu)⟩
    have hclasses : (ofModule library {}).classes
        = [{ name := ⟨"test.Shelf.Slot"⟩ }, shelf, book] :=
      rfl
    rw [hclasses]
    decide
  have hindexed : (Question.classVerdict shelf).Indexed (ofModule library {}) := by
    intro c hc
    cases hc
    rfl
  have haccepted : (((Question.classVerdict shelf).put (ofModule library {})).ask {}).1
      = .ok true := by
    decide +kernel
  exact ⟨hmarked, hregular, haccepted, accepted_of_markedFurther library libraryMarked {}
    { checkPropertyTypes := false } (.classVerdict shelf) hmarked (Or.inl rfl) hregular hindexed
    haccepted⟩

end Evaluator

end ExportSurface
