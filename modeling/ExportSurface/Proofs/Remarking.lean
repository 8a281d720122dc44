import ExportSurface.Proofs.Markers
import ExportSurface.Proofs.Outcomes
/-!
# Marked modules

What becomes of a module when markers are appended at chosen places
(`SourceModule.appendMarkers`): the walk lists the same places with the same
declarations, markers apart (`SourceModule.walk_appendMarkers`), and so there are
the same candidates (`SourceModule.candidates_appendMarkers`). Where all chosen
places are places of candidates, as they are in a pass, no member of a class is
touched but its nested classes, so every class stays alike
(`SourceModule.forall₂_ownClasses`). Hence a regular module stays regular, and if
the chosen classes lie on the surface, the surface stays what it was
(`SourceModule.marked_appendMarkers`).
-/

namespace ExportSurface

/-! ## Declarations -/

namespace Declaration

variable {chosen : List Nat → Bool}

theorem walkFrom_appendIf {here : List Nat} (b : Bool) (h : ClassHeader) (ms : List Declaration) :
    walkFrom here (appendIf b (.classDecl h ms))
      = (here, appendIf b (.classDecl h ms)) :: walkSiblings here 0 ms := by
  cases b with
  | true => rfl
  | false => rfl

mutual

/-- The walk of a marked declaration is its walk with each declaration marked. -/
theorem walkFrom_appendWhere (chosen : List Nat → Bool) (here : List Nat) (d : Declaration) :
    walkFrom here (appendWhere (fun is => chosen (here ++ is)) d)
      = (walkFrom here d).map fun x => (x.1, x.2.appendWhere fun is => chosen (x.1 ++ is)) := by
  cases d with
  | classDecl h ms =>
    rw [appendWhere, walkFrom_appendIf, walkFrom, List.map_cons,
      walkSiblings_appendAmong chosen here 0 ms]
    rfl
  | function f =>
    simp only [appendWhere, walkFrom, List.map_singleton]
    cases chosen (here ++ []) with
    | true => rfl
    | false => rfl
  | property p =>
    simp only [appendWhere, walkFrom, List.map_singleton]
    cases chosen (here ++ []) with
    | true => rfl
    | false => rfl
  | constructor c => rfl

theorem walkSiblings_appendAmong (chosen : List Nat → Bool) (parent : List Nat) (i : Nat)
    (ds : List Declaration) :
    walkSiblings parent i (appendAmong (fun is => chosen (parent ++ is)) i ds)
      = (walkSiblings parent i ds).map
          fun x => (x.1, x.2.appendWhere fun is => chosen (x.1 ++ is)) := by
  cases ds with
  | nil => rfl
  | cons d ds =>
    have hhere : (fun is => chosen (parent ++ i :: is)) = fun is => chosen (parent ++ [i] ++ is) :=
      funext fun is => by rw [List.append_assoc, List.singleton_append]
    rw [appendAmong, walkSiblings, walkSiblings, List.map_append, hhere,
      walkFrom_appendWhere chosen (parent ++ [i]) d,
      walkSiblings_appendAmong chosen parent (i + 1) ds]

end

mutual

/-- The classes inside a declaration, as its walk lists them. -/
theorem classes_eq_filterMap_walkFrom (here : List Nat) (d : Declaration) :
    d.classes = (walkFrom here d).filterMap fun x => x.2.class? := by
  cases d with
  | classDecl h ms =>
    rw [classes, walkFrom, classesIn_eq_filterMap_walkSiblings here 0]
    rfl
  | function f => rfl
  | property p => rfl
  | constructor c => rfl

theorem classesIn_eq_filterMap_walkSiblings (parent : List Nat) (i : Nat) (ds : List Declaration) :
    classesIn ds = (walkSiblings parent i ds).filterMap fun x => x.2.class? := by
  cases ds with
  | nil => rfl
  | cons d ds =>
    rw [classesIn, walkSiblings, List.filterMap_append,
      classes_eq_filterMap_walkFrom (parent ++ [i]),
      classesIn_eq_filterMap_walkSiblings parent (i + 1)]

end

/-- Members of a kind that is not that of classes stay as they are, where only
classes are chosen among the members. -/
theorem filterMap_appendAmong {α : Type} {f : Declaration → Option α}
    (hf : ∀ h ms, f (.classDecl h ms) = none) {i : Nat} {ds : List Declaration}
    (hchosen : ∀ k d, ds[k]? = some d → chosen [i + k] = true → ∃ h ms, d = .classDecl h ms) :
    (appendAmong chosen i ds).filterMap f = ds.filterMap f := by
  induction ds generalizing i with
  | nil => rfl
  | cons d ds ih =>
    have hrest := @ih (i + 1) fun k d' hk hc =>
      hchosen (k + 1) d' hk (by rwa [show i + (k + 1) = i + 1 + k by omega])
    have hfirst : f (appendWhere (fun is => chosen (i :: is)) d) = f d := by
      cases d with
      | classDecl h ms =>
        obtain ⟨h', heq⟩ := appendWhere_classDecl (fun is => chosen (i :: is)) h ms
        rw [heq, hf, hf]
      | function g =>
        cases hroot : chosen [i] with
        | true =>
          obtain ⟨h, ms, hclass⟩ := hchosen 0 _ rfl hroot
          cases hclass
        | false => rw [appendWhere, hroot]; rfl
      | property p =>
        cases hroot : chosen [i] with
        | true =>
          obtain ⟨h, ms, hclass⟩ := hchosen 0 _ rfl hroot
          cases hclass
        | false => rw [appendWhere, hroot]; rfl
      | constructor c => rfl
    rw [appendAmong, List.filterMap_cons, List.filterMap_cons, hfirst, hrest]

theorem follow?_concat {is : List Nat} {ds ms : List Declaration} {h : ClassHeader} (k : Nat)
    (hfollow : follow? is ds = some (.classDecl h ms)) : follow? (is ++ [k]) ds = ms[k]? := by
  induction is generalizing ds with
  | nil => cases hfollow
  | cons i rest ih =>
    by_cases hrest : rest = []
    · subst hrest
      rw [follow?_singleton] at hfollow
      exact follow?_cons_of_class hfollow (List.cons_ne_nil k [])
    · obtain ⟨header, ms', hi, hms⟩ := exists_class_of_follow? hrest hfollow
      rw [List.cons_append, follow?_cons_of_class hi (by simp)]
      exact ih hms

end Declaration

/-! ## Classes and candidates -/

theorem carriesMarker_append (as : List QualifiedName) :
    carriesMarker (as ++ [exportMarker]) = true := by
  simp [carriesMarker]

/-- A class with the marker appended at the chosen places inside it, itself
included. -/
def ClassDecl.appendWhere (chosen : List Nat → Bool) (c : ClassDecl) : ClassDecl where
  toClassHeader :=
    if chosen [] then { c.toClassHeader with annotations := c.annotations ++ [exportMarker] }
    else c.toClassHeader
  members := Declaration.appendAmong chosen 0 c.members

namespace ClassDecl

variable {chosen : List Nat → Bool} {c : ClassDecl}

theorem class?_appendWhere (chosen : List Nat → Bool) (d : Declaration) :
    (d.appendWhere chosen).class? = d.class?.map (ClassDecl.appendWhere chosen) := by
  cases d with
  | classDecl h ms =>
    cases hroot : chosen [] with
    | true => simp [Declaration.appendWhere, Declaration.appendIf, hroot, Declaration.class?,
        Declaration.appendMarker, ClassDecl.appendWhere]
    | false => simp [Declaration.appendWhere, Declaration.appendIf, hroot, Declaration.class?,
        ClassDecl.appendWhere]
  | function f =>
    rw [Declaration.appendWhere]
    cases chosen [] with
    | true => rfl
    | false => rfl
  | property p =>
    rw [Declaration.appendWhere]
    cases chosen [] with
    | true => rfl
    | false => rfl
  | constructor k => rfl

theorem isExported_appendWhere (chosen : List Nat → Bool) (c : ClassDecl) :
    (c.appendWhere chosen).isExported = (c.isExported || chosen []) := by
  cases hroot : chosen [] with
  | true =>
    simp only [appendWhere, hroot, if_true, Bool.or_true]
    exact carriesMarker_append _
  | false => simp [appendWhere, hroot]

/-- **A class stays alike**, where only classes are chosen among its members. -/
theorem alike_appendWhere (hchosen : ∀ k d, c.members[k]? = some d → chosen [k] = true →
    ∃ h ms, d = .classDecl h ms) : c.Alike (c.appendWhere chosen) := by
  have hmembers : ∀ {α : Type} {f : Declaration → Option α}, (∀ h ms, f (.classDecl h ms) = none) →
      c.members.filterMap f = (c.appendWhere chosen).members.filterMap f := by
    intro α f hf
    refine (Declaration.filterMap_appendAmong hf fun k d hk hc => hchosen k d hk ?_).symm
    rwa [Nat.zero_add] at hc
  have hheader : (c.appendWhere chosen).name = c.name ∧ (c.appendWhere chosen).kind = c.kind ∧
      (c.appendWhere chosen).visibility = c.visibility ∧
      (c.appendWhere chosen).modifiers = c.modifiers ∧
      (c.appendWhere chosen).supertypes = c.supertypes := by
    unfold appendWhere
    split
    · exact ⟨rfl, rfl, rfl, rfl, rfl⟩
    · exact ⟨rfl, rfl, rfl, rfl, rfl⟩
  obtain ⟨hname, hkind, hvisibility, hmodifiers, hsupertypes⟩ := hheader
  exact ⟨hname.symm, hkind.symm, hvisibility.symm, hmodifiers.symm, hsupertypes.symm,
    hmembers fun _ _ => rfl, hmembers fun _ _ => rfl, hmembers fun _ _ => rfl⟩

end ClassDecl

namespace Candidate

/-- A candidate with the marker appended at the chosen places inside it, itself
included. -/
def appendWhere (chosen : List Nat → Bool) : Candidate → Candidate
  | .ofClass c => .ofClass (c.appendWhere chosen)
  | .ofFunction f =>
    .ofFunction (if chosen [] then { f with annotations := f.annotations ++ [exportMarker] } else f)
  | .ofProperty p =>
    .ofProperty (if chosen [] then { p with annotations := p.annotations ++ [exportMarker] } else p)

/-- The same candidate to every rule, markers apart. -/
inductive Alike : Candidate → Candidate → Prop
  | ofClass {c c' : ClassDecl} : c.Alike c' → Alike (.ofClass c) (.ofClass c')
  | ofFunction (f : FunctionDecl) (annotations : List QualifiedName) :
      Alike (.ofFunction f) (.ofFunction { f with annotations })
  | ofProperty (p : PropertyDecl) (annotations : List QualifiedName) :
      Alike (.ofProperty p) (.ofProperty { p with annotations })

variable {chosen : List Nat → Bool} {c c' : Candidate}

theorem of?_appendWhere (topLevel : Bool) (chosen : List Nat → Bool) (d : Declaration) :
    of? topLevel (d.appendWhere chosen) = (of? topLevel d).map (appendWhere chosen) := by
  cases d with
  | classDecl h ms =>
    cases hroot : chosen [] with
    | true => simp [Declaration.appendWhere, Declaration.appendIf, hroot, of?,
        Declaration.appendMarker, appendWhere, ClassDecl.appendWhere]
    | false => simp [Declaration.appendWhere, Declaration.appendIf, hroot, of?, appendWhere,
        ClassDecl.appendWhere]
  | function f =>
    cases hroot : chosen [] with
    | true => cases topLevel <;> simp [Declaration.appendWhere, Declaration.appendIf, hroot, of?,
        Declaration.appendMarker, appendWhere]
    | false => cases topLevel <;> simp [Declaration.appendWhere, Declaration.appendIf, hroot, of?,
        appendWhere]
  | property p =>
    cases hroot : chosen [] with
    | true => cases topLevel <;> simp [Declaration.appendWhere, Declaration.appendIf, hroot, of?,
        Declaration.appendMarker, appendWhere]
    | false => cases topLevel <;> simp [Declaration.appendWhere, Declaration.appendIf, hroot, of?,
        appendWhere]
  | constructor k => rfl

theorem isExported_appendWhere (chosen : List Nat → Bool) (c : Candidate) :
    (c.appendWhere chosen).isExported = (c.isExported || chosen []) := by
  cases c with
  | ofClass c => exact ClassDecl.isExported_appendWhere chosen c
  | ofFunction f =>
    cases hroot : chosen [] with
    | true =>
      simp only [appendWhere, hroot, if_true, Bool.or_true]
      exact carriesMarker_append _
    | false => simp [appendWhere, hroot]
  | ofProperty p =>
    cases hroot : chosen [] with
    | true =>
      simp only [appendWhere, hroot, if_true, Bool.or_true]
      exact carriesMarker_append _
    | false => simp [appendWhere, hroot]

/-- A candidate stays alike, where only classes are chosen among the members of
a class. -/
theorem alike_appendWhere (hchosen : ∀ d, c = .ofClass d → ∀ k m, d.members[k]? = some m →
    chosen [k] = true → ∃ h ms, m = .classDecl h ms) : c.Alike (c.appendWhere chosen) := by
  cases c with
  | ofClass c => exact .ofClass (ClassDecl.alike_appendWhere (hchosen c rfl))
  | ofFunction f =>
    rw [appendWhere]
    split
    · exact .ofFunction f _
    · exact .ofFunction f f.annotations
  | ofProperty p =>
    rw [appendWhere]
    split
    · exact .ofProperty p _
    · exact .ofProperty p p.annotations

namespace Alike

theorem name_eq (h : c.Alike c') : c'.name = c.name := by
  cases h with
  | ofClass hc => exact hc.name.symm
  | ofFunction f annotations => rfl
  | ofProperty p annotations => rfl

theorem kindText_eq (h : c.Alike c') : c'.kindText = c.kindText := by
  cases h with
  | ofClass hc => rfl
  | ofFunction f annotations => rfl
  | ofProperty p annotations => rfl

theorem gate_eq (h : c.Alike c') : c'.gate = c.gate := by
  cases h with
  | @ofClass c c' hc =>
    have hvisibility : visibility (.ofClass c') = visibility (.ofClass c) := hc.visibility.symm
    have hannotation : isAnnotationClass (.ofClass c') = isAnnotationClass (.ofClass c) :=
      congrArg (fun kind => decide (kind = ClassKind.annotationClass)) hc.kind.symm
    have hmodifiers : modifiers (.ofClass c') = modifiers (.ofClass c) := hc.modifiers.symm
    have hflag : flag? (.ofClass c') = flag? (.ofClass c) := by
      rw [flag?, flag?, hannotation, hmodifiers]
      rfl
    rw [gate, gate, hvisibility, hflag]
  | ofFunction f annotations => rfl
  | ofProperty p annotations => rfl

theorem mentioned_eq (h : c.Alike c') : c'.question.mentioned = c.question.mentioned := by
  cases h with
  | ofClass hc => exact hc.types_eq.symm
  | ofFunction f annotations => rfl
  | ofProperty p annotations => rfl

end Alike

end Candidate

/-! ## Modules -/

namespace SourceModule

variable {m : SourceModule} {chosen : TreePath → Bool}

/-- The places chosen inside a declaration, from its own place on. -/
def within (chosen : TreePath → Bool) (path : TreePath) (is : List Nat) : Bool :=
  chosen ⟨path.file, path.indices ++ is⟩

theorem within_nil (chosen : TreePath → Bool) (path : TreePath) :
    within chosen path [] = chosen path := by
  rw [within, List.append_nil]

/-- **The walk of a marked module** lists the same places, each with its
declaration marked. -/
theorem walk_appendMarkers (m : SourceModule) (chosen : TreePath → Bool) :
    (m.appendMarkers chosen).walk
      = m.walk.map fun x => (x.1, x.2.appendWhere (within chosen x.1)) := by
  rw [walk, walk, List.map_flatten]
  refine congrArg List.flatten (List.ext_getElem? fun n => ?_)
  simp only [appendMarkers, List.getElem?_mapIdx, List.getElem?_map, Option.map_map]
  refine congrArg (Option.map · _) (funext fun file => ?_)
  have h := Declaration.walkSiblings_appendAmong (fun is => chosen ⟨n, is⟩) [] 0 file.declarations
  simp only [List.nil_append] at h
  simp only [Function.comp_apply, h, List.map_map]
  rfl

/-- **The candidates of a marked module.** -/
theorem candidates_appendMarkers (m : SourceModule) (chosen : TreePath → Bool) :
    (m.appendMarkers chosen).candidates
      = m.candidates.map fun x => (x.1, x.2.appendWhere (within chosen x.1)) := by
  rw [candidates, candidates, walk_appendMarkers, List.filterMap_map, List.map_filterMap]
  refine List.filterMap_congr fun x _ => ?_
  simp only [Function.comp_apply, Candidate.ofWalked, Candidate.of?_appendWhere, Option.map_map]
  rfl

theorem ownClasses_eq_filterMap_walk (m : SourceModule) :
    m.ownClasses = m.walk.filterMap fun x => x.2.class? := by
  rw [ownClasses, walk, List.filterMap_flatten, List.flatMap_def]
  refine congrArg List.flatten (List.ext_getElem? fun n => ?_)
  simp only [List.getElem?_map, List.getElem?_mapIdx, Option.map_map]
  refine congrArg (Option.map · _) (funext fun file => ?_)
  rw [Declaration.classesIn_eq_filterMap_walkSiblings [] 0 file.declarations,
    Function.comp_apply, List.filterMap_map]
  rfl

theorem mem_candidates_of_class {path : TreePath} {c : ClassDecl}
    (h : (path, c.toDeclaration) ∈ m.walk) : (path, .ofClass c) ∈ m.candidates :=
  mem_candidates_iff.mpr ⟨_, h, rfl⟩

theorem exists_mem_candidates_of_mem_ownClasses {c : ClassDecl} (h : c ∈ m.ownClasses) :
    ∃ path, (path, .ofClass c) ∈ m.candidates := by
  rw [ownClasses_eq_filterMap_walk] at h
  obtain ⟨⟨path, d⟩, hwalk, hclass⟩ := List.mem_filterMap.mp h
  cases d with
  | classDecl header ms =>
    obtain rfl : (⟨header, ms⟩ : ClassDecl) = c := Option.some.inj hclass
    exact ⟨path, mem_candidates_of_class hwalk⟩
  | function f => cases hclass
  | property p => cases hclass
  | constructor k => cases hclass

/-- Among the members of a class, the only candidates are classes. -/
theorem exists_class_of_member {path : TreePath} {h : ClassHeader} {ms : List Declaration}
    {k : Nat} {d : Declaration} {c : Candidate}
    (hfind : m.find? path = some (.classDecl h ms)) (hk : ms[k]? = some d)
    (hc : (⟨path.file, path.indices ++ [k]⟩, c) ∈ m.candidates) :
    ∃ h' ms', d = .classDecl h' ms' := by
  cases hfile : m.files[path.file]? with
  | none =>
    simp only [find?, hfile] at hfind
    cases hfind
  | some file =>
    simp only [find?, hfile] at hfind
    have hfollow : Declaration.follow? path.indices file.declarations
        = some (.classDecl h ms) := hfind
    have hmember : m.find? ⟨path.file, path.indices ++ [k]⟩ = some d := by
      simp only [find?, hfile]
      exact (Declaration.follow?_concat k hfollow).trans hk
    have hnested : (⟨path.file, path.indices ++ [k]⟩ : TreePath).isTopLevel = false := by
      cases hindices : path.indices with
      | nil =>
        rw [hindices] at hfollow
        cases hfollow
      | cons i is => simp [TreePath.isTopLevel]
    obtain ⟨d', hwalk, hof⟩ := mem_candidates_iff.mp hc
    obtain rfl : d' = d := Option.some.inj ((find?_of_mem_walk hwalk).symm.trans hmember)
    rw [hnested] at hof
    cases d' with
    | classDecl h' ms' => exact ⟨h', ms', rfl⟩
    | function f => cases hof
    | property p => cases hof
    | constructor k => cases hof

section Candidates

variable (hchosen : ∀ path, chosen path = true → ∃ c, (path, c) ∈ m.candidates)

include hchosen

/-- Where candidates are chosen, only classes are chosen among the members of a
class. -/
theorem exists_class_of_within {path : TreePath} {c : ClassDecl}
    (h : m.find? path = some c.toDeclaration) {k : Nat} {d : Declaration}
    (hk : c.members[k]? = some d) (hwithin : within chosen path [k] = true) :
    ∃ h ms, d = .classDecl h ms := by
  obtain ⟨c', hc'⟩ := hchosen _ hwithin
  exact exists_class_of_member h hk hc'

/-- **A candidate stays alike** where candidates are marked. -/
theorem alike_of_mem_candidates {path : TreePath} {c : Candidate}
    (h : (path, c) ∈ m.candidates) : c.Alike (c.appendWhere (within chosen path)) := by
  refine Candidate.alike_appendWhere fun d hd k member hk hwithin => ?_
  subst hd
  exact exists_class_of_within hchosen (find?_of_mem_candidates h) hk hwithin

/-- **Every class stays alike** where candidates are marked, and is marked
afterwards if it was before or is chosen. -/
theorem forall₂_ownClasses : List.Forall₂ (fun c c' => c.Alike c' ∧
      ∃ path, (path, .ofClass c) ∈ m.candidates ∧ c'.isExported = (c.isExported || chosen path))
    m.ownClasses (m.appendMarkers chosen).ownClasses := by
  rw [ownClasses_eq_filterMap_walk, ownClasses_eq_filterMap_walk, walk_appendMarkers,
    List.filterMap_map]
  refine List.rel_filterMap (R := fun x y => x ∈ m.walk ∧ x = y) ?_
    (List.forall₂_same.mpr fun x hx => ⟨hx, rfl⟩)
  rintro ⟨path, d⟩ _ ⟨hx, rfl⟩
  rw [Function.comp_apply, ClassDecl.class?_appendWhere]
  cases d with
  | classDecl h ms =>
    refine .some ⟨ClassDecl.alike_appendWhere fun k d hk hwithin => ?_, path,
      mem_candidates_of_class hx, ?_⟩
    · exact exists_class_of_within hchosen (c := ⟨h, ms⟩) (find?_of_mem_walk hx) hk hwithin
    · rw [ClassDecl.isExported_appendWhere, within_nil]
  | function f => exact .none
  | property p => exact .none
  | constructor k => exact .none

theorem forall₂_allClasses : List.Forall₂ (fun c c' => c.Alike c')
    m.allClasses (m.appendMarkers chosen).allClasses :=
  List.rel_append (List.forall₂_same.mpr fun c _ => .refl c)
    ((forall₂_ownClasses hchosen).imp fun _ _ => And.left)

theorem map_allClasses_appendMarkers {α : Type} {f : ClassDecl → α}
    (hf : ∀ c c', c.Alike c' → f c = f c') :
    (m.appendMarkers chosen).allClasses.map f = m.allClasses.map f := by
  rw [← List.forall₂_eq_eq_eq, List.forall₂_map_left_iff, List.forall₂_map_right_iff]
  exact (forall₂_allClasses hchosen).flip.imp fun c' c h => (hf c c' h).symm

theorem map_candidates_appendMarkers {α : Type} {f : Candidate → α}
    (hf : ∀ c c', c.Alike c' → f c' = f c) :
    (m.appendMarkers chosen).candidates.map (fun x => f x.2) = m.candidates.map fun x => f x.2 := by
  rw [candidates_appendMarkers, List.map_map]
  exact List.map_congr_left fun x hx => hf _ _ (alike_of_mem_candidates hchosen hx)

theorem mentioned_appendMarkers : (m.appendMarkers chosen).mentioned = m.mentioned := by
  have hclasses := map_allClasses_appendMarkers hchosen fun c c' (h : c.Alike c') => h.types_eq
  have hcandidates := map_candidates_appendMarkers hchosen
    fun c c' (h : c.Alike c') => h.mentioned_eq
  rw [mentioned, mentioned]
  congr 1
  rw [List.flatMap_def, List.flatMap_def, List.flatMap_def, List.flatMap_def, hclasses, hcandidates]

/-- **A regular module stays regular** when candidates are marked. -/
theorem Regular.appendMarkers (h : m.Regular) : (m.appendMarkers chosen).Regular where
  distinct := by
    have hnames : (m.appendMarkers chosen).ownClasses.map (·.name) = m.ownClasses.map (·.name) := by
      rw [← List.forall₂_eq_eq_eq, List.forall₂_map_left_iff, List.forall₂_map_right_iff]
      exact (forall₂_ownClasses hchosen).flip.imp fun c' c h => h.1.name.symm
    rw [hnames]
    exact h.distinct
  typed c' hc' := by
    have hin : c'.properties ∈ (m.appendMarkers chosen).allClasses.map (·.properties) :=
      List.mem_map_of_mem hc'
    rw [map_allClasses_appendMarkers hchosen fun c c' (h : c.Alike c') => h.properties] at hin
    obtain ⟨c, hc, heq⟩ := List.mem_map.mp hin
    exact heq ▸ h.typed c hc
  typedTopLevel path p' hp' := by
    rw [candidates_appendMarkers] at hp'
    obtain ⟨⟨_, c⟩, hc, heq⟩ := List.mem_map.mp hp'
    have hwhat : c.appendWhere (within chosen _) = .ofProperty p' := congrArg Prod.snd heq
    have halike : c.Alike (.ofProperty p') := hwhat ▸ alike_of_mem_candidates hchosen hc
    cases halike with
    | ofProperty p annotations => exact h.typedTopLevel _ p hc
  faithful := by
    rw [mentioned_appendMarkers hchosen]
    exact h.faithful

end Candidates

/-! ## The surface of a marked module -/

/-- Related lists of classes have related classes of a name. -/
theorem rel_find?_name {R : ClassDecl → ClassDecl → Prop} (hR : ∀ c c', R c c' → c.name = c'.name)
    {cs cs' : List ClassDecl} (h : List.Forall₂ R cs cs') (name : QualifiedName) :
    Option.Rel R (cs.find? (·.name = name)) (cs'.find? (·.name = name)) := by
  induction h with
  | nil => exact .none
  | @cons c c' cs cs' hc _ ih =>
    rw [List.find?_cons, List.find?_cons, ← hR c c' hc]
    cases decide (c.name = name) with
    | true => exact .some hc
    | false => exact ih

variable {options : RuleOptions}

section Surface

variable (hchosen : ∀ path, chosen path = true → ∃ c, (path, c) ∈ m.candidates)
  (hsurface : ∀ path c, (path, .ofClass c) ∈ m.candidates → chosen path = true →
    Subject.ofClass c ∈ Evaluator.surface (.ofModule m options))

include hchosen hsurface

/-- What becomes of a class in a module where classes of the surface are marked. -/
theorem becomes_of_mem_candidates {path : TreePath} {c : ClassDecl}
    (hc : (path, .ofClass c) ∈ m.candidates) :
    Evaluator.Becomes (.ofModule m options) c (c.appendWhere (within chosen path)) where
  alike := by
    cases alike_of_mem_candidates hchosen hc with
    | ofClass halike => exact halike
  kept hexported := by rw [ClassDecl.isExported_appendWhere, hexported, Bool.true_or]
  earned hexported := by
    rw [ClassDecl.isExported_appendWhere, within_nil, Bool.or_eq_true] at hexported
    exact hexported.imp_right (hsurface path c hc)

/-- **Marking classes of the surface of a module** neither enlarges nor shrinks
it. -/
theorem marked_appendMarkers :
    Evaluator.Marked (.ofModule m options) (.ofModule (m.appendMarkers chosen) options) where
  options := rfl
  find name := by
    have hall : List.Forall₂ (Evaluator.Becomes (.ofModule m options))
        m.allClasses (m.appendMarkers chosen).allClasses := by
      refine List.rel_append (List.forall₂_same.mpr fun c _ => .refl _ c) ?_
      refine (forall₂_ownClasses hchosen).imp fun c c' ⟨halike, path, hc, heq⟩ => ?_
      refine ⟨halike, fun hexported => by rw [heq, hexported, Bool.true_or], fun hexported => ?_⟩
      rw [heq, Bool.or_eq_true] at hexported
      exact hexported.imp_right (hsurface path c hc)
    exact rel_find?_name (fun c c' h => h.alike.name) (List.forall₂_reverse_iff.mpr hall) name

end Surface

end SourceModule

end ExportSurface
