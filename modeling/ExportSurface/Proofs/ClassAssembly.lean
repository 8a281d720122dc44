import ExportSurface.Declaration.Builder
import Mathlib.Data.List.Forall2
import Mathlib.Data.List.Induction
/-!
# Classes assembled call by call

A class under construction notes the places of the members it makes itself, and
at the end the class is filled in as dispatch receiver there, maybe behind a
constructor that is put in front. The places stay right whatever is called in
between: seen with the receivers filled in (`ClassDraft.filled`), a member that
is given is appended as it is and one the class makes itself with its receiver
(`ClassDraft.filled_add`, `ClassDraft.filled_addOwn`). So the calls tell what
the finished class holds (`ClassDraft.build_afterCalls`).
-/

namespace ExportSurface

namespace ClassDraft

variable {name : QualifiedName} {type : TypeRef} {d : ClassDraft} {calls : List Call}
  {call : Call} {m : Declaration} {ms : List Declaration} {places : List Nat}

/-! ## Filling in -/

theorem fillIn_cons (type : TypeRef) (i : Nat) (places : List Nat) (ms : List Declaration) :
    fillIn type (i :: places) ms =
      fillIn type places (ms.modify i (·.withDispatchReceiver type)) := rfl

theorem fillIn_concat (type : TypeRef) (places : List Nat) (i : Nat) (ms : List Declaration) :
    fillIn type (places ++ [i]) ms =
      (fillIn type places ms).modify i (·.withDispatchReceiver type) :=
  List.foldl_concat ..

theorem length_fillIn (type : TypeRef) (places : List Nat) (ms : List Declaration) :
    (fillIn type places ms).length = ms.length := by
  induction places generalizing ms with
  | nil => rfl
  | cons i places ih => rw [fillIn_cons, ih, List.length_modify]

/-- Filling in at places among the first members leaves those behind them alone. -/
theorem fillIn_append (hplaces : ∀ i ∈ places, i < ms.length) (rest : List Declaration) :
    fillIn type places (ms ++ rest) = fillIn type places ms ++ rest := by
  induction places generalizing ms with
  | nil => rfl
  | cons i places ih =>
    have hi : i < ms.length := hplaces i List.mem_cons_self
    have hmodify : (ms ++ rest).modify i (·.withDispatchReceiver type) =
        ms.modify i (·.withDispatchReceiver type) ++ rest := by
      obtain ⟨before, m, after, rfl, rfl, hms⟩ :=
        List.exists_of_modify (·.withDispatchReceiver type) hi
      rw [hms, List.append_assoc, List.append_assoc]
      exact List.modifyTailIdx_add _ 0 before _
    rw [fillIn_cons, fillIn_cons, hmodify]
    -- filling in keeps the number of members, so the places left are still among the first ones
    refine ih fun j hj => ?_
    rw [List.length_modify]
    exact hplaces j (List.mem_cons_of_mem i hj)

/-- **A member that is given is left as it is.** -/
theorem filled_add (d : ClassDraft) (m : Declaration) (type : TypeRef) :
    (d.add m).filled type = d.filled type ++ [m] :=
  fillIn_append d.awaiting_lt [m]

/-- **A member that the class makes itself gets its receiver**, and the members
before it stay as they are. -/
theorem filled_addOwn (d : ClassDraft) (m : Declaration) (type : TypeRef) :
    (d.addOwn m).filled type = d.filled type ++ [m.withDispatchReceiver type] := by
  -- its place comes last, and the places before it are all below it
  change fillIn type (d.awaiting ++ [d.members.length]) (d.members ++ [m]) = _
  rw [fillIn_concat, fillIn_append d.awaiting_lt, ← length_fillIn type d.awaiting d.members]
  exact List.modifyTailIdx_add _ 0 (d.filled type) [m]

/-! ## Constructors -/

/-- Receivers do not make or unmake constructors. -/
theorem filterMap_constructor?_fillIn (type : TypeRef) (places : List Nat) (ms : List Declaration) :
    (fillIn type places ms).filterMap Declaration.constructor? =
      ms.filterMap Declaration.constructor? := by
  induction places generalizing ms with
  | nil => rfl
  | cons i places ih =>
    rw [fillIn_cons, ih]
    by_cases hi : i < ms.length
    · obtain ⟨before, m, after, rfl, rfl, hms⟩ :=
        List.exists_of_modify (·.withDispatchReceiver type) hi
      have hm : (m.withDispatchReceiver type).constructor? = m.constructor? := by
        cases m <;> rfl
      rw [hms, List.filterMap_append, List.filterMap_append, List.filterMap_cons,
        List.filterMap_cons, hm]
    · rw [List.modify_eq_self (Nat.le_of_not_lt hi)]

theorem constructors_add (d : ClassDraft) (m : Declaration) :
    (d.add m).constructors = d.constructors ++ m.constructor?.toList :=
  List.filterMap_append

/-- The first constructor is primary and no other one is. -/
def PrimaryFirst (cs : List ConstructorDecl) : Prop :=
  ∀ i c, cs[i]? = some c → (c.primary = true ↔ i = 0)

theorem primaryFirst_nil : PrimaryFirst [] := fun _ _ => nofun

theorem PrimaryFirst.concat {cs : List ConstructorDecl} {c : ConstructorDecl}
    (hcs : PrimaryFirst cs) (hc : c.primary = cs.isEmpty) : PrimaryFirst (cs ++ [c]) := by
  intro i k hk
  rcases Nat.lt_trichotomy i cs.length with hlt | rfl | hgt
  · rw [List.getElem?_append_left hlt] at hk
    exact hcs i k hk
  · rw [List.getElem?_concat_length] at hk
    cases hk
    rw [hc, List.isEmpty_iff, List.length_eq_zero_iff]
  · rw [List.getElem?_eq_none (by rw [List.length_append]; exact hgt)] at hk
    cases hk

/-! ## Calls -/

namespace Call

/-- The kind that the class is to have. -/
def kind? : Call → Option ClassKind
  | .kind k => some k
  | _ => none

/-- The type parameter that is added. -/
def typeParameter? : Call → Option String
  | .typeParameter p => some p
  | _ => none

/-- Whether a member is added. -/
def addsMember : Call → Bool
  | .property .. | .inheritedProperty .. | .method .. | .inheritedMethod .. | .function _
  | .propertyDecl _ | .constructorWith .. | .nested _ => true
  | _ => false

/-- Whether the class may still get a constructor of its own accord. -/
def keepsDefault : Call → Bool
  | .constructorWith .. | .noDefaultConstructor => false
  | _ => true

/-- A call adds a member to a class of a name. What the class makes itself is
public, and it has the type of the class as dispatch receiver. All else is left
as it is given. -/
inductive Adds (name : QualifiedName) (self : TypeRef) : Call → Declaration → Prop
  | property {n : String} {t : TypeRef} : Adds name self (.property n t)
      (.property
        { name := name.child n
          getter := some { returnType := t, dispatchReceiver := some self } })
  | inheritedProperty {n : String} {t ancestor : TypeRef} :
    Adds name self (.inheritedProperty n t ancestor)
      (.property
        { name := name.child n
          getter := some { returnType := t, dispatchReceiver := some self }
          inheritedFrom := some ancestor })
  | method {n : String} {ts : List TypeRef} {t : TypeRef} : Adds name self (.method n ts t)
      (.function
        { name := name.child n
          parameters := numberedParameters ts
          returnType := t
          dispatchReceiver := some self })
  | inheritedMethod {n : String} {ts : List TypeRef} {t ancestor : TypeRef} :
    Adds name self (.inheritedMethod n ts t ancestor)
      (.function
        { name := name.child n
          parameters := numberedParameters ts
          returnType := t
          dispatchReceiver := some self
          inheritedFrom := some ancestor })
  | function {f : FunctionDecl} : Adds name self (.function f) (.function f)
  | propertyDecl {p : PropertyDecl} : Adds name self (.propertyDecl p) (.property p)
  | constructorWith {v : Visibility} {ts : List TypeRef} {primary : Bool} :
    Adds name self (.constructorWith v ts)
      (.constructor { visibility := v, primary, parameters := numberedParameters ts })
  | nested {c : ClassDecl} : Adds name self (.nested c) c.toDeclaration

end Call

theorem afterCalls_concat (d : ClassDraft) (calls : List Call) (call : Call) :
    d.afterCalls (calls ++ [call]) = (d.afterCalls calls).afterCall call :=
  List.foldl_concat ..

/-! ### One call -/

theorem name_afterCall (d : ClassDraft) (call : Call) :
    (d.afterCall call).header.name = d.header.name := by
  cases call <;> rfl

theorem kind_afterCall (d : ClassDraft) (call : Call) :
    (d.afterCall call).header.kind = call.kind?.getD d.header.kind := by
  cases call <;> rfl

theorem typeParameters_afterCall (d : ClassDraft) (call : Call) :
    (d.afterCall call).header.typeParameters =
      d.header.typeParameters ++ call.typeParameter?.toList := by
  cases call with
  | typeParameter p => rfl
  | _ => exact (List.append_nil _).symm

theorem defaultConstructor_afterCall (d : ClassDraft) (call : Call) :
    (d.afterCall call).defaultConstructor = (d.defaultConstructor && call.keepsDefault) := by
  cases call with
  | constructorWith v ts => exact (Bool.and_false _).symm
  | noDefaultConstructor => exact (Bool.and_false _).symm
  | _ => exact (Bool.and_true _).symm

/-- **One call adds its member behind the others**, if it adds one, and they stay
as they are. -/
theorem filled_afterCall (d : ClassDraft) (call : Call) (type : TypeRef) :
    ∃ added, (d.afterCall call).filled type = d.filled type ++ added ∧
      List.Forall₂ (Call.Adds d.header.name type) ([call].filter Call.addsMember) added := by
  cases call with
  | property n t => exact ⟨_, d.filled_addOwn _ type, .cons .property .nil⟩
  | inheritedProperty n t a => exact ⟨_, d.filled_addOwn _ type, .cons .inheritedProperty .nil⟩
  | method n ts t => exact ⟨_, d.filled_addOwn _ type, .cons .method .nil⟩
  | inheritedMethod n ts t a => exact ⟨_, d.filled_addOwn _ type, .cons .inheritedMethod .nil⟩
  | function f => exact ⟨_, d.filled_add _ type, .cons .function .nil⟩
  | propertyDecl p => exact ⟨_, d.filled_add _ type, .cons .propertyDecl .nil⟩
  | constructorWith v ts => exact ⟨_, d.filled_add _ type, .cons .constructorWith .nil⟩
  | nested c => exact ⟨_, d.filled_add _ type, .cons .nested .nil⟩
  | _ => exact ⟨[], (List.append_nil _).symm, .nil⟩

/-- A constructor that a call adds is primary just if there was none. -/
theorem constructors_afterCall (d : ClassDraft) (call : Call) :
    (d.afterCall call).constructors = d.constructors ∨
      ∃ c, (d.afterCall call).constructors = d.constructors ++ [c] ∧
        c.primary = d.constructors.isEmpty := by
  cases call with
  | constructorWith v ts => exact Or.inr ⟨_, d.constructors_add _, rfl⟩
  | property | inheritedProperty | method | inheritedMethod | function | propertyDecl | nested =>
    -- what is added is no constructor, whether the class makes it itself or it is given
    exact Or.inl ((d.constructors_add _).trans (List.append_nil _))
  | _ => exact Or.inl rfl

/-! ### All calls -/

/-- What calls one after another leave in a class under construction. -/
structure Follows (name : QualifiedName) (calls : List Call) (d : ClassDraft) : Prop where
  name_eq : d.header.name = name
  kind_eq : d.header.kind = (calls.filterMap Call.kind?).getLastD .plainClass
  typeParameters_eq : d.header.typeParameters = calls.filterMap Call.typeParameter?
  defaultConstructor_eq : d.defaultConstructor = calls.all Call.keepsDefault
  adds : ∀ type,
    List.Forall₂ (Call.Adds name type) (calls.filter Call.addsMember) (d.filled type)
  primaryFirst : PrimaryFirst d.constructors

theorem follows_named (name : QualifiedName) : Follows name [] (named name) where
  name_eq := rfl
  kind_eq := rfl
  typeParameters_eq := rfl
  defaultConstructor_eq := rfl
  adds _ := .nil
  primaryFirst := primaryFirst_nil

/-- One more call. -/
theorem Follows.afterCall (h : Follows name calls d) (call : Call) :
    Follows name (calls ++ [call]) (d.afterCall call) where
  name_eq := (d.name_afterCall call).trans h.name_eq
  kind_eq := by
    rw [kind_afterCall, h.kind_eq, List.filterMap_append]
    cases hkind : call.kind? with
    | none => rw [List.filterMap_cons_none hkind, List.filterMap_nil, List.append_nil,
        Option.getD_none]
    | some k => rw [List.filterMap_cons_some hkind, List.filterMap_nil, List.getLastD_concat,
        Option.getD_some]
  typeParameters_eq := by
    rw [typeParameters_afterCall, h.typeParameters_eq, List.filterMap_append]
    rfl
  defaultConstructor_eq := by
    rw [defaultConstructor_afterCall, h.defaultConstructor_eq, List.all_append, List.all_cons,
      List.all_nil, Bool.and_true]
  adds type := by
    obtain ⟨added, hfilled, hadds⟩ := d.filled_afterCall call type
    rw [List.filter_append, hfilled]
    exact List.rel_append (h.adds type) (h.name_eq ▸ hadds)
  primaryFirst := by
    obtain heq | ⟨c, heq, hc⟩ := d.constructors_afterCall call
    · rw [heq]
      exact h.primaryFirst
    · rw [heq]
      exact h.primaryFirst.concat hc

theorem follows_afterCalls (name : QualifiedName) (calls : List Call) :
    Follows name calls ((named name).afterCalls calls) := by
  induction calls using List.reverseRecOn with
  | nil => exact follows_named name
  | append_singleton calls call ih =>
    rw [afterCalls_concat]
    exact ih.afterCall call

/-- Calls leave the class open to a constructor of its own accord just if none of
them adds one or declines it. -/
theorem all_keepsDefault_iff : calls.all Call.keepsDefault = true ↔
    (∀ v ts, .constructorWith v ts ∉ calls) ∧ .noDefaultConstructor ∉ calls := by
  rw [List.all_eq_true]
  constructor
  · intro h
    exact ⟨fun v ts hmem => Bool.false_ne_true (h _ hmem),
      fun hmem => Bool.false_ne_true (h _ hmem)⟩
  · rintro ⟨hnone, hdecline⟩ call hmem
    cases call with
    | constructorWith v ts => exact absurd hmem (hnone v ts)
    | noDefaultConstructor => exact absurd hmem hdecline
    | _ => rfl

theorem Follows.defaultConstructor_iff (h : Follows name calls d) : d.defaultConstructor = true ↔
    (∀ v ts, .constructorWith v ts ∉ calls) ∧ .noDefaultConstructor ∉ calls := by
  rw [h.defaultConstructor_eq, all_keepsDefault_iff]

/-- Constructors come from calls that add them. -/
theorem filterMap_constructor?_eq_nil (hadds : List.Forall₂ (Call.Adds name type) calls ms)
    (hnone : ∀ v ts, .constructorWith v ts ∉ calls) :
    ms.filterMap Declaration.constructor? = [] := by
  induction hadds with
  | nil => rfl
  | @cons call m calls ms hm _ ih =>
    have hconstructor : m.constructor? = none := by
      cases hm with
      | constructorWith => exact absurd List.mem_cons_self (hnone _ _)
      | _ => rfl
    rw [List.filterMap_cons_none hconstructor]
    exact ih fun v ts hmem => hnone v ts (List.mem_cons_of_mem call hmem)

theorem Follows.constructors_eq_nil (h : Follows name calls d)
    (hnone : ∀ v ts, .constructorWith v ts ∉ calls) : d.constructors = [] := by
  rw [constructors, ← filterMap_constructor?_fillIn d.header.selfType d.awaiting]
  exact filterMap_constructor?_eq_nil (h.adds _)
    fun v ts hmem => hnone v ts (List.mem_of_mem_filter hmem)

/-! ## The finished class -/

/-- What building comes to: the receivers are filled in, and a constructor is put
in front or is not. -/
theorem build_cases (d : ClassDraft) :
    (d.defaultConstructor = true ∧ d.header.kind = .plainClass ∧ d.constructors = []) ∧
        d.build = ⟨d.header, .constructor { primary := true } :: d.filled d.header.selfType⟩ ∨
      ¬ (d.defaultConstructor = true ∧ d.header.kind = .plainClass ∧ d.constructors = []) ∧
        d.build = ⟨d.header, d.filled d.header.selfType⟩ := by
  have hconstructors : ClassDecl.constructors ⟨d.header, d.filled d.header.selfType⟩ =
      d.constructors :=
    filterMap_constructor?_fillIn _ _ _
  by_cases h : d.defaultConstructor = true ∧ d.header.kind = .plainClass ∧ d.constructors = []
  · refine Or.inl ⟨h, if_pos ?_⟩
    simp [hconstructors, h]
  · refine Or.inr ⟨h, if_neg ?_⟩
    simpa [hconstructors, and_assoc] using h

theorem toClassHeader_build (d : ClassDraft) : d.build.toClassHeader = d.header := by
  obtain ⟨-, hbuild⟩ | ⟨-, hbuild⟩ := d.build_cases
  · rw [hbuild]
  · rw [hbuild]

/-- A constructor that is put in front is the only one. -/
theorem primaryFirst_build (h : PrimaryFirst d.constructors) :
    PrimaryFirst d.build.constructors := by
  have hfilled : (d.filled d.header.selfType).filterMap Declaration.constructor? = d.constructors :=
    filterMap_constructor?_fillIn _ _ _
  obtain ⟨⟨-, -, hnone⟩, hbuild⟩ | ⟨-, hbuild⟩ := d.build_cases
  · have hlead : d.build.constructors = [{ primary := true }] := by
      rw [hbuild]
      exact congrArg (_ :: ·) (hfilled.trans hnone)
    rw [hlead]
    exact primaryFirst_nil.concat rfl
  · rw [hbuild, ClassDecl.constructors, hfilled]
    exact h

/-- **The calls tell what the finished class holds.** Whatever a class is called,
and whichever calls are made on it one after another, it has the kind it was given
last and all the type parameters. Its members are those that the calls add, in the
order of the calls (`Call.Adds`): what the class makes itself has the class, applied
to all its type parameters, as dispatch receiver, and what is given is left as it
is. In front of them stands a public primary constructor without parameters just if
it is an ordinary class and no call added a constructor or declined it. Where there
are constructors, the first of them is primary and no other one is. -/
theorem build_afterCalls (name : QualifiedName) (calls : List Call) :
    let c := ((named name).afterCalls calls).build
    let self : TypeRef :=
      .named name ((calls.filterMap Call.typeParameter?).map fun p => .type (.unbounded p)) false
    c.name = name ∧ c.kind = (calls.filterMap Call.kind?).getLastD .plainClass ∧
    c.typeParameters = calls.filterMap Call.typeParameter? ∧
    (∃ lead added, c.members = lead ++ added ∧
      List.Forall₂ (Call.Adds name self) (calls.filter Call.addsMember) added ∧
      (lead = [] ∨ lead = [.constructor
        { visibility := .pub, modifiers := {}, primary := true, parameters := [],
          dispatchReceiver := none }]) ∧
      (lead ≠ [] ↔ c.kind = .plainClass ∧ (∀ v ts, .constructorWith v ts ∉ calls) ∧
        .noDefaultConstructor ∉ calls)) ∧
    ∀ i k, c.constructors[i]? = some k → (k.primary = true ↔ i = 0) := by
  intro c self
  have h := follows_afterCalls name calls
  have hheader : c.toClassHeader = _ := toClassHeader_build _
  have hkind : c.kind = _ := congrArg ClassHeader.kind hheader
  -- the receiver is the type of the class when it is built, with every type parameter by then
  have hself : ((named name).afterCalls calls).header.selfType = self := by
    rw [ClassHeader.selfType, h.name_eq, h.typeParameters_eq]
  refine ⟨(congrArg ClassHeader.name hheader).trans h.name_eq, hkind.trans h.kind_eq,
    (congrArg ClassHeader.typeParameters hheader).trans h.typeParameters_eq, ?_,
    primaryFirst_build h.primaryFirst⟩
  obtain ⟨⟨hopen, hplain, -⟩, hbuild⟩ | ⟨hnot, hbuild⟩ :=
    build_cases ((named name).afterCalls calls)
  · refine ⟨[_], _, congrArg ClassDecl.members hbuild, hself ▸ h.adds _, Or.inr rfl, ?_⟩
    exact iff_of_true (List.cons_ne_nil _ _)
      ⟨hkind.trans hplain, h.defaultConstructor_iff.mp hopen⟩
  · refine ⟨[], _, congrArg ClassDecl.members hbuild, hself ▸ h.adds _, Or.inl rfl, ?_⟩
    refine iff_of_false (fun hne => hne rfl) fun ⟨hplain, hcalls⟩ => hnot ?_
    exact ⟨h.defaultConstructor_iff.mpr hcalls, hkind.symm.trans hplain,
      h.constructors_eq_nil hcalls.1⟩

/-- A type parameter that is added after a method is among those of its receiver,
also behind a constructor that is put in front. -/
example :
    ((named ⟨"a.Box"⟩).afterCalls
      [.method "get" [] (.unbounded "T"), .typeParameter "T"]).build.members =
      [.constructor { primary := true },
        .function
          { name := ⟨"a.Box.get"⟩
            returnType := .unbounded "T"
            dispatchReceiver := some (.named ⟨"a.Box"⟩ [.type (.unbounded "T")] false) }] := by
  rfl

end ClassDraft

end ExportSurface
