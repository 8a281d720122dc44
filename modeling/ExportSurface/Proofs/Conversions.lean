import ExportSurface.Proofs.Outcomes
import ExportSurface.Proofs.TypeTree
/-!
# Conversions that are listed

What crosses over with a declaration on the surface is a signature with its types
(`Candidate.crossings`): a function, constructor or property has the types of the
values that it takes and gives, and a function or getter may have an extension
receiver besides. A pass lists the signatures of the newly marked declarations whose
values carry a collection somewhere in the argument tree of their types
(`TypeRef.CarriesCollection`). Receivers are not looked at, though an extension receiver
is a value that is passed like the others: so a signature whose receiver alone carries
a collection is missing, and nothing else is (`Pass.run_conversions`).
-/

namespace ExportSurface

/-! ## Collections in types -/

namespace TypeRef

/-- A type with a built-in collection somewhere in its argument tree. -/
inductive CarriesCollection : TypeRef → Prop
  /-- The type is a collection itself. -/
  | here {t : TypeRef} : Builtin.ofType? t = some .collection → CarriesCollection t
  /-- One of its arguments carries a collection. -/
  | inside {t u : TypeRef} : .type u ∈ t.arguments → CarriesCollection u → CarriesCollection t

theorem needsConversion_eq (t : TypeRef) :
    t.needsConversion = ((Builtin.ofType? t).any (·.needsConversion)
      || t.arguments.any TypeArgument.needsConversion) := by
  cases t with
  | named name args nullable => rw [needsConversion, TypeArgument.anyConversion_eq_any, arguments]
  | parameter name bounds nullable => rfl
  | dynamic => rfl

theorem mem_children_of_mem_arguments {t u : TypeRef} (h : .type u ∈ t.arguments) :
    u ∈ t.children := by
  cases t with
  | named name args nullable => exact mem_children_of_mem_args h
  | parameter name bounds nullable => cases h
  | dynamic => cases h

/-- **A type is converted** just if it carries a collection. -/
theorem needsConversion_iff (t : TypeRef) : t.needsConversion = true ↔ t.CarriesCollection := by
  induction t using induct_children with
  | step t ih =>
    rw [needsConversion_eq, Bool.or_eq_true, List.any_eq_true, Option.any_eq_true]
    constructor
    · rintro (⟨kind, hkind, hconverts⟩ | ⟨a, ha, hconverts⟩)
      · cases kind <;> cases hconverts
        exact .here hkind
      · cases a with
        | star => cases hconverts
        | type u => exact .inside ha ((ih u (mem_children_of_mem_arguments ha)).mp hconverts)
    · intro h
      cases h with
      | here hself => exact Or.inl ⟨_, hself, rfl⟩
      | @inside _ u hu hcarries =>
        exact Or.inr ⟨_, hu, (ih u (mem_children_of_mem_arguments hu)).mpr hcarries⟩

instance : DecidablePred CarriesCollection := fun t =>
  decidable_of_iff (t.needsConversion = true) t.needsConversion_iff

end TypeRef

/-! ## What crosses over -/

/-- What crosses over when a declaration is used from outside. -/
structure Crossing where
  signature : String
  /-- The types of the values taken and given. -/
  values : List TypeRef
  /-- The type of the extension receiver. -/
  receiver : Option TypeRef := none

namespace Crossing

/-- A value carries a collection. -/
def ValuesConvert (x : Crossing) : Prop := ∃ t ∈ x.values, t.CarriesCollection

/-- A value carries a collection, or the extension receiver does. -/
def Converts (x : Crossing) : Prop := ∃ t ∈ x.values ++ x.receiver.toList, t.CarriesCollection

instance : DecidablePred ValuesConvert := fun x => inferInstanceAs (Decidable (∃ t ∈ x.values, _))

instance : DecidablePred Converts := fun x =>
  inferInstanceAs (Decidable (∃ t ∈ x.values ++ x.receiver.toList, _))

theorem ValuesConvert.converts {x : Crossing} (h : x.ValuesConvert) : x.Converts := by
  obtain ⟨t, ht, hcarries⟩ := h
  exact ⟨t, List.mem_append_left _ ht, hcarries⟩

end Crossing

/-- A function takes its parameters and its extension receiver and gives its result. -/
def FunctionDecl.crossing (f : FunctionDecl) : Crossing where
  signature := f.signature
  values := f.returnType :: f.parameters.map (·.type)
  receiver := f.extensionReceiver

/-- A constructor takes its parameters. -/
def ConstructorDecl.crossing (owner : QualifiedName) (c : ConstructorDecl) : Crossing where
  signature := c.signature owner
  values := c.parameters.map (·.type)

/-- A property gives its value, and its getter may take an extension receiver. -/
def PropertyDecl.crossing (p : PropertyDecl) : Crossing where
  signature := p.signature
  values := p.valueType?.toList
  receiver := p.getter.bind (·.extensionReceiver)

/-- What crosses over with a candidate: for a class with its public constructors, then
its public properties, then its public methods. -/
def Candidate.crossings : Candidate → List Crossing
  | .ofClass c =>
    (c.constructors.filter fun k => Rule.isPublic k.visibility).map
        (ConstructorDecl.crossing c.name)
      ++ (c.properties.filter fun p => Rule.isPublic p.visibility).map PropertyDecl.crossing
      ++ (c.methods.filter fun f => Rule.isPublic f.visibility).map FunctionDecl.crossing
  | .ofFunction f => [f.crossing]
  | .ofProperty p => [p.crossing]

/-! ## What is listed -/

namespace Crossing

theorem valuesConvert_iff (x : Crossing) :
    x.ValuesConvert ↔ x.values.any TypeRef.needsConversion = true := by
  rw [List.any_eq_true]
  exact exists_congr fun t => and_congr_right fun _ => t.needsConversion_iff.symm

theorem decide_valuesConvert (x : Crossing) :
    decide x.ValuesConvert = x.values.any TypeRef.needsConversion := by
  rw [Bool.eq_iff_iff, decide_eq_true_eq]
  exact x.valuesConvert_iff

/-- The signatures of public members whose values are converted. -/
theorem signatures_eq {α : Type} {crossing : α → Crossing} {isPublic converts : α → Bool}
    (h : ∀ a, (crossing a).values.any TypeRef.needsConversion = converts a) (as : List α) :
    (((as.filter isPublic).map crossing).filter fun x => x.ValuesConvert).map signature
      = (as.filter fun a => isPublic a && converts a).map fun a => (crossing a).signature := by
  rw [List.filter_map, List.map_map, List.filter_filter]
  refine congrArg (List.map _) (List.filter_congr fun a _ => ?_)
  rw [Function.comp_apply, decide_valuesConvert, h, Bool.and_comm]

end Crossing

/-- **The signatures that a candidate adds** are those whose values carry a
collection. -/
theorem Candidate.conversionSites_eq (c : Candidate) :
    c.conversionSites = (c.crossings.filter fun x => x.ValuesConvert).map Crossing.signature := by
  have hconstructor : ∀ (owner : QualifiedName) (k : ConstructorDecl),
      (k.crossing owner).values.any TypeRef.needsConversion = constructorConverts k :=
    fun owner k => List.any_map
  have hproperty : ∀ p : PropertyDecl,
      p.crossing.values.any TypeRef.needsConversion = propertyConverts p := fun p => by
    rw [PropertyDecl.crossing, propertyConverts]
    cases p.valueType? <;> simp
  have hsingle : ∀ x : Crossing, ([x].filter fun x => x.ValuesConvert).map Crossing.signature
      = if x.values.any TypeRef.needsConversion then [x.signature] else [] := fun x => by
    rw [← x.decide_valuesConvert]
    by_cases hx : x.ValuesConvert <;> simp [hx]
  cases c with
  | ofClass c =>
    rw [crossings, List.filter_append, List.filter_append, List.map_append, List.map_append,
      Crossing.signatures_eq (hconstructor c.name), Crossing.signatures_eq hproperty,
      Crossing.signatures_eq fun _ => rfl]
    rfl
  | ofFunction f => exact (hsingle f.crossing).symm
  | ofProperty p =>
    rw [conversionSites, ← hproperty]
    exact (hsingle p.crossing).symm

/-- What crosses over with the declarations that a run marks, in the order of the walk. -/
def SourceModule.crossed (m result : SourceModule) : List Crossing :=
  (m.newlyMarked result).flatMap fun x => x.2.crossings

/-- A narrower filter leaves the same images just if it drops nothing that the wider one
keeps. -/
theorem map_filter_eq_iff {α β : Type} {P Q : α → Prop} [DecidablePred P] [DecidablePred Q]
    (h : ∀ a, P a → Q a) (f : α → β) (as : List α) :
    (as.filter fun a => P a).map f = (as.filter fun a => Q a).map f ↔ ∀ a ∈ as, Q a → P a := by
  constructor
  · intro hmap a ha hQ
    have hlength := congrArg List.length hmap
    rw [List.length_map, List.length_map] at hlength
    have hsub : (as.filter fun a => P a).Sublist (as.filter fun a => Q a) :=
      List.monotone_filter_right as fun a ha => by simpa using h a (by simpa using ha)
    have hmem : a ∈ as.filter fun a => Q a := List.mem_filter.mpr ⟨ha, by simpa using hQ⟩
    rw [← hsub.eq_of_length hlength] at hmem
    simpa using (List.mem_filter.mp hmem).2
  · intro hall
    refine congrArg (List.map f) (List.filter_congr fun a ha => ?_)
    rw [Bool.eq_iff_iff, decide_eq_true_eq, decide_eq_true_eq]
    exact ⟨h a, hall a ha⟩

namespace Pass

/-- **Conversions are listed completely but for receivers.** A run that succeeds lists the
signatures of what crosses over with the declarations that it marks, in order, where a
parameter, a result or a value carries a collection. That is all that carries one
just if no extension receiver is alone in carrying one. -/
theorem run_conversions (p : Pass) {m : SourceModule} {report : Report}
    (h : (p.run m).report = .ok report) :
    report.needsConversion
        = ((m.crossed (p.run m).result).filter fun x => x.ValuesConvert).map Crossing.signature ∧
      (report.needsConversion
          = ((m.crossed (p.run m).result).filter fun x => x.Converts).map Crossing.signature ↔
        ∀ x ∈ m.crossed (p.run m).result, x.Converts → x.ValuesConvert) := by
  have hlisted : report.needsConversion
      = ((m.crossed (p.run m).result).filter fun x => x.ValuesConvert).map Crossing.signature := by
    obtain ⟨rs, s', hdecides, rfl⟩ := exists_decides_of_ok h
    rw [SourceModule.crossed, newlyMarked_of_decides hdecides, List.flatMap_map,
      List.filter_flatMap, List.map_flatMap, reportAll_eq]
    refine (List.nil_append _).trans ?_
    exact List.flatMap_congr fun r _ => r.candidate.conversionSites_eq
  refine ⟨hlisted, ?_⟩
  rw [hlisted]
  exact map_filter_eq_iff (fun x hx => hx.converts) _ _

/-- A class whose constructor takes an array of lists and that hides a method with a
map, and a function that gives a list. -/
def shelves : SourceModule where
  name := "shelves"
  files := [
    { path := "shelves.kt"
      package := "test"
      declarations := [
        .classDecl { name := ⟨"test.Shelf"⟩ }
          [.function
            { name := ⟨"test.Shelf.index"⟩, visibility := .priv
              returnType := .plain "kotlin.collections.Map" },
           .property { name := ⟨"test.Shelf.size"⟩, backingField := some (.plain "kotlin.Int") },
           .constructor
            { parameters := [⟨"rows", .named ⟨"kotlin.Array"⟩
                [.type (.plain "kotlin.collections.List")] false⟩] }],
        .function
          { name := ⟨"test.titles"⟩
            returnType :=
              .named ⟨"kotlin.collections.List"⟩ [.type (.plain "kotlin.String")] false }] }]

/-- The report of a pass over it. -/
def shelvesReport : Report where
  moduleName := "shelves"
  exported := ["test.Shelf", "test.titles"]
  needsConversion := ["test.Shelf::<init>(kotlin.Array<kotlin.collections.List>)",
    "test::titles():kotlin.collections.List<kotlin.String>"]
  memo := { misses := 5, entries := 5 }

theorem run_conversions_shelves :
    (Pass.run {} shelves).report = .ok shelvesReport ∧
      shelvesReport.needsConversion
          = ((shelves.crossed (Pass.run {} shelves).result).filter fun x => x.ValuesConvert).map
            Crossing.signature ∧
        (shelvesReport.needsConversion
            = ((shelves.crossed (Pass.run {} shelves).result).filter fun x => x.Converts).map
              Crossing.signature ↔
          ∀ x ∈ shelves.crossed (Pass.run {} shelves).result, x.Converts → x.ValuesConvert) := by
  have h : (Pass.run {} shelves).report = .ok shelvesReport := by decide +kernel
  exact ⟨h, run_conversions {} h⟩

/-- A function on lists of texts that takes nothing else and gives a text. -/
def joined : SourceModule where
  name := "test"
  files := [
    { path := "A.kt"
      declarations := [
        .function
          { name := ⟨"test.join"⟩
            returnType := .plain "kotlin.String"
            extensionReceiver :=
              some (.named ⟨"kotlin.collections.List"⟩ [.type (.plain "kotlin.String")] false) }] }]

/-- The report of a pass over it. -/
def joinedReport : Report where
  moduleName := "test"
  exported := ["test.join"]
  memo := { misses := 2, entries := 2 }

/-- **A receiver is not listed.** The function is newly marked and its extension receiver
is a collection, but no conversion is reported. -/
theorem receiver_not_listed :
    (Pass.run {} joined).report = .ok joinedReport ∧ joinedReport.needsConversion = [] ∧
      ((joined.crossed (Pass.run {} joined).result).filter fun x => x.Converts).map
        Crossing.signature = ["test::join():kotlin.String"] := by
  have hreport : (Pass.run {} joined).report = .ok joinedReport := by decide +kernel
  have hcrossed : ((joined.crossed (Pass.run {} joined).result).filter fun x => x.Converts).map
      Crossing.signature = ["test::join():kotlin.String"] := by decide +kernel
  exact ⟨hreport, rfl, hcrossed⟩

end Pass

end ExportSurface
