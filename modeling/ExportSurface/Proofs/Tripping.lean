import ExportSurface.Proofs.Surface
/-!
# Subjects that fail

A property without a type makes a rule fail that comes to it, and with it the
rules that ask about what has failed. Whether a rule comes so far can hang on
subjects in flight, which count as exportable before it is known whether they
are. Those that have a say in it lie on reference cycles with the subject of
the rule (`Evaluator.Around`). So there are two sets of subjects that fail:
those that do with some such subjects assumed (`Evaluator.mayTrip`), and those
that do with whichever are (`Evaluator.mustTrip`), both least fixed points.

Off reference cycles nothing is assumed, so there the two are the same
(`Evaluator.mayTrip_subset_mustTrip`), and where all properties have types,
nothing may fail (`Evaluator.not_mem_mayTrip`). Neither set sees nullability.
-/

namespace ExportSurface

/-! ## Inquiries that trip -/

namespace Inquiry

variable {α β : Type} {answer other : TypeRef → Bool} {P Q : TypeRef → Prop}

/-- Whether the inquiry, with given answers, fails or asks about a type of a
kind. -/
def Trips (answer : TypeRef → Bool) (P : TypeRef → Prop) : Inquiry α → Prop
  | .done _ => False
  | .fail _ => True
  | .ask t next => P t ∨ (next (answer t)).Trips answer P

theorem Trips.mono {q : Inquiry α} (h : q.Trips answer P) (hPQ : ∀ t, P t → Q t) :
    q.Trips answer Q := by
  induction q with
  | done a => exact h
  | fail failure => trivial
  | ask t next ih => exact h.imp (hPQ t) (ih (answer t))

/-- Of the answers only those to what may be asked matter. -/
theorem trips_congr {K : TypeRef → Prop} {q : Inquiry α} (hq : q.Within K)
    (h : ∀ t, K t → other t = answer t) : q.Trips other P ↔ q.Trips answer P := by
  induction q with
  | done a => exact Iff.rfl
  | fail failure => exact Iff.rfl
  | ask t next ih =>
    change P t ∨ (next (other t)).Trips other P ↔ P t ∨ (next (answer t)).Trips answer P
    rw [h t hq.1]
    exact or_congr_right (ih _ (hq.2 _))

/-- An inquiry trips where it fails, or where it asks. -/
theorem trips_iff {q : Inquiry α} :
    q.Trips answer P ↔
      (∃ failure, q.eval answer = .error failure) ∨ ∃ t ∈ q.asked answer, P t := by
  induction q with
  | done a =>
    refine ⟨fun h => h.elim, ?_⟩
    rintro (⟨_, h⟩ | ⟨_, h, _⟩)
    · cases h
    · cases h
  | fail failure => exact ⟨fun _ => Or.inl ⟨failure, rfl⟩, fun _ => trivial⟩
  | ask t next ih =>
    change P t ∨ (next (answer t)).Trips answer P ↔ _
    rw [ih, or_left_comm]
    simp only [asked, eval, List.mem_cons, or_and_right, exists_or, exists_eq_left]

/-! ### What types trip on -/

theorem trips_all_cons {t : TypeRef} {ts : List TypeRef} :
    (all (t :: ts)).Trips answer P ↔ P t ∨ answer t = true ∧ (all ts).Trips answer P := by
  change P t ∨ (if answer t then all ts else pure false : Inquiry Bool).Trips answer P ↔ _
  cases answer t with
  | true => simp
  | false => exact or_congr_right ⟨fun h => h.elim, fun h => by cases h.1⟩

/-- A built-in type trips on its element alone. -/
theorem trips_accepts_iff {t : TypeRef} :
    (Builtin.accepts put t).Trips answer P ↔
      t.hasStar = false ∧ ∃ u, t.element? = some u ∧ P u := by
  have hpure : ∀ b, (pure b : Inquiry Bool).Trips answer P → False := fun _ => id
  unfold Builtin.accepts TypeRef.element?
  cases hstar : t.hasStar with
  | true => exact ⟨fun h => (hpure _ h).elim, fun h => by cases h.1⟩
  | false =>
    rw [if_neg (by simp)]
    cases Builtin.ofType? t with
    | none => exact ⟨fun h => (hpure _ h).elim, fun ⟨_, _, hu, _⟩ => by cases hu⟩
    | some kind =>
      cases kind with
      | array =>
        cases t.arguments with
        | nil => exact ⟨fun h => (hpure _ h).elim, fun ⟨_, _, hu, _⟩ => by cases hu⟩
        | cons a as =>
          cases a with
          | star => exact ⟨fun h => (hpure _ h).elim, fun ⟨_, _, hu, _⟩ => by cases hu⟩
          | type u =>
            refine ⟨fun h => ⟨rfl, u, rfl, h.resolve_right (hpure _)⟩, ?_⟩
            rintro ⟨-, v, hv, hP⟩
            exact Or.inl (Option.some.inj hv ▸ hP)
      | _ => exact ⟨fun h => (hpure _ h).elim, fun ⟨_, _, hu, _⟩ => by cases hu⟩

end Inquiry

namespace Evaluator

open Classical in
/-- The answers that accept just the types of a set. -/
noncomputable def accepting (X : Set Subject) (t : TypeRef) : Bool := decide (Subject.ofType t ∈ X)

section Accepting

variable {X : Set Subject} {t : TypeRef}

theorem accepting_eq_true_iff : accepting X t = true ↔ Subject.ofType t ∈ X := by
  simp only [accepting, decide_eq_true_iff]

theorem accepting_eq_false_iff : accepting X t = false ↔ Subject.ofType t ∉ X := by
  simp only [accepting, decide_eq_false_iff_not]

theorem accepting_eq_true : (fun u => accepting X u = true) = fun u => Subject.ofType u ∈ X :=
  funext fun _ => propext accepting_eq_true_iff

end Accepting

/-! ## Subjects that trip -/

variable (e : Evaluator)

/-- Whether an inquiry, with some subjects assumed, fails or asks about a type
of a set. -/
def InquiryTrips {α : Type} (P A : Set Subject) (q : Inquiry α) : Prop :=
  q.Trips (accepting (surfaceGiven e A)) fun t => Subject.ofType t ∈ P

/-- Whether the examination of a subject, with some subjects assumed, fails or
comes to a subject of a set. -/
def TripsGiven (P A : Set Subject) : Subject → Prop
  | .ofType .dynamic => False
  | .ofType (.parameter _ bounds _) => InquiryTrips e P A (Inquiry.all bounds)
  | .ofType (.named name args nullable) =>
    (TypeRef.named name args nullable).hasStar = false ∧
      ((∃ u, (TypeRef.named name args nullable).element? = some u ∧ Subject.ofType u ∈ P) ∨
        Builtin.ofType? (.named name args nullable) = none ∧
          ∃ c, e.classNamed? name = some c ∧ c.isExported = false ∧ Subject.ofClass c ∈ P)
  | .ofClass c => InquiryTrips e P A (Rule.ofClass e.options Inquiry.put c)

/-- What may be in flight around a subject and have a say in it: subjects on
reference cycles with it, a class among them where it is on one. -/
structure Around (x : Subject) (A : Set Subject) : Prop where
  onCycle : ∀ z ∈ A, Leads e x z ∧ Leads e z x
  self : ∀ c, x = .ofClass c → Leads e x x → x ∈ A
  blind : Subject.Blind A

variable {e}

theorem TripsGiven.mono {P Q A : Set Subject} {x : Subject} (h : TripsGiven e P A x)
    (hPQ : P ⊆ Q) : TripsGiven e Q A x := by
  cases x with
  | ofClass c => exact Inquiry.Trips.mono h fun _ ht => hPQ ht
  | ofType t =>
    cases t with
    | dynamic => exact h
    | parameter name bounds nullable => exact Inquiry.Trips.mono h fun _ ht => hPQ ht
    | named name args nullable =>
      refine ⟨h.1, h.2.imp ?_ (And.imp_right ?_)⟩
      · exact fun ⟨u, hu, hin⟩ => ⟨u, hu, hPQ hin⟩
      · exact fun ⟨c, hc, hmarked, hin⟩ => ⟨c, hc, hmarked, hPQ hin⟩

variable (e)

/-- The subjects that trip over a set with something assumed, as a monotone map. -/
def mayTripOver : Set Subject →o Set Subject where
  toFun P := {x | ∃ A, Around e x A ∧ TripsGiven e P A x}
  monotone' _ _ hPQ _ := fun ⟨A, hA, h⟩ => ⟨A, hA, h.mono hPQ⟩

/-- The subjects that trip over a set with anything assumed, as a monotone map. -/
def mustTripOver : Set Subject →o Set Subject where
  toFun P := {x | ∀ A, Around e x A → TripsGiven e P A x}
  monotone' _ _ hPQ _ h A hA := (h A hA).mono hPQ

/-- **The subjects that can fail**: those whose rule, with some subjects on
reference cycles assumed, comes to a property without a type or to another of
them. -/
def mayTrip : Set Subject := (mayTripOver e).lfp

/-- **The subjects that are bound to fail**: those whose rule, whichever subjects
on reference cycles are assumed, comes to a property without a type or to
another of them. -/
def mustTrip : Set Subject := (mustTripOver e).lfp

variable {e} {A P X : Set Subject} {x y : Subject} {c : ClassDecl} {t : TypeRef}

theorem mem_mayTrip_of_tripsGiven (hA : Around e x A) (h : TripsGiven e (mayTrip e) A x) :
    x ∈ mayTrip e := by
  rw [mayTrip, ← OrderHom.map_lfp]
  exact ⟨A, hA, h⟩

theorem mem_mustTrip_iff :
    x ∈ mustTrip e ↔ ∀ A, Around e x A → TripsGiven e (mustTrip e) A x := by
  have h := OrderHom.map_lfp (mustTripOver e)
  constructor
  · intro hx
    rw [mustTrip, ← h] at hx
    exact hx
  · intro hx
    rw [mustTrip, ← h]
    exact hx

/-! ## What has a say in a subject -/

/-- Of a type, nothing need be in flight around it. -/
theorem around_empty (t : TypeRef) : Around e (.ofType t) ∅ where
  onCycle _ hz := hz.elim
  self _ h := nomatch h
  blind _ _ _ hx := hx.elim

theorem Around.eq_empty (hA : Around e x A) (hx : ¬ Leads e x x) : A = ∅ :=
  Set.eq_empty_of_forall_notMem fun z hz => hx ((hA.onCycle z hz).1.trans (hA.onCycle z hz).2)

/-- **Of what is in flight, only what the subject leads to has a say.** -/
theorem inquiryTrips_inter_iff {α : Type} {q : Inquiry α}
    (hq : q.Within fun t => Leads e x (.ofType t)) :
    InquiryTrips e P (A ∩ {z | Leads e x z}) q ↔ InquiryTrips e P A q := by
  refine Inquiry.trips_congr hq fun t ht => ?_
  rw [Bool.eq_iff_iff, accepting_eq_true_iff, accepting_eq_true_iff]
  exact mem_surfaceGiven_inter_iff ht

theorem within_leads_ofClass (options : RuleOptions) (c : ClassDecl) :
    (Rule.ofClass options Inquiry.put c).Within fun t => Leads e (.ofClass c) (.ofType t) :=
  (Rule.within_ofClass options c).imp fun _ ht => leads_of_checks ht

theorem within_leads_all (name : String) (bounds : List TypeRef) (nullable : Bool) :
    (Inquiry.all bounds).Within
      fun t => Leads e (.ofType (.parameter name bounds nullable)) (.ofType t) :=
  Inquiry.within_all fun _ hb => Relation.TransGen.single (.bound hb rfl)

/-- Subjects off reference cycles that can fail are bound to. -/
theorem mayTrip_subset_mustTrip (h : ∀ y ∈ mayTrip e, ¬ Leads e y y) : mayTrip e ⊆ mustTrip e := by
  -- the candidate is part of what can fail, so nothing is assumed around its members
  refine (OrderHom.lfp_le _ (?_ : mayTripOver e (mayTrip e ∩ mustTrip e) ⊆ _)).trans
    Set.inter_subset_right
  rintro x ⟨A, hA, htrips⟩
  have hx : x ∈ mayTrip e := mem_mayTrip_of_tripsGiven hA (htrips.mono Set.inter_subset_left)
  refine ⟨hx, mem_mustTrip_iff.mpr fun B hB => ?_⟩
  rw [hB.eq_empty (h x hx), ← hA.eq_empty (h x hx)]
  exact htrips.mono Set.inter_subset_right

/-! ## Properties without types -/

/-- **What can fail leads to a property without a type.** -/
theorem exists_untyped_of_mem_mayTrip (hx : x ∈ mayTrip e) :
    ∃ c, c.Untyped ∧ (x = .ofClass c ∨ Leads e x (.ofClass c)) := by
  let S : Set Subject := {y | ∃ c, c.Untyped ∧ (y = .ofClass c ∨ Leads e y (.ofClass c))}
  have hlead : ∀ y z, Leads e y z → z ∈ S → y ∈ S := by
    rintro y z hyz ⟨c, hc, rfl | hz⟩
    · exact ⟨c, hc, Or.inr hyz⟩
    · exact ⟨c, hc, Or.inr (hyz.trans hz)⟩
  have hle : mayTrip e ⊆ S := by
    refine OrderHom.lfp_le _ ?_
    rintro y ⟨A, -, htrips⟩
    cases y with
    | ofClass c =>
      -- only the rule of a class fails of itself, and only for a property of that class
      rcases Inquiry.trips_iff.mp htrips with ⟨failure, herror⟩ | ⟨t, ht, hin⟩
      · rcases Rule.comesTo_ofClass e.options c with hok | ⟨huntyped, -⟩
        · cases herror.symm.trans hok
        · exact ⟨c, huntyped, Or.inl rfl⟩
      · exact hlead _ _ ((within_leads_ofClass e.options c).of_mem_asked ht) hin
    | ofType t =>
      cases t with
      | dynamic => exact htrips.elim
      | parameter name bounds nullable =>
        rcases Inquiry.trips_iff.mp htrips with ⟨failure, herror⟩ | ⟨t, ht, hin⟩
        · cases (Inquiry.eval_all _ bounds).symm.trans herror
        · exact hlead _ _ ((within_leads_all name bounds nullable).of_mem_asked ht) hin
      | named name args nullable =>
        rcases htrips.2 with ⟨u, hu, hin⟩ | ⟨-, c, hc, -, hin⟩
        · exact hlead _ _ (Relation.TransGen.single (.element hu rfl)) hin
        · exact hlead _ _ (Relation.TransGen.single (.declared rfl hc)) hin
  exact hle hx

theorem mem_classes_of_leads (h : Leads e x (.ofClass c)) : c ∈ e.classes := by
  obtain ⟨y, -, hlast⟩ := Relation.TransGen.tail'_iff.mp h
  cases hlast with
  | declared _ hc => exact List.mem_of_find?_eq_some hc

/-- **Where all properties have types, nothing can fail.** -/
theorem not_mem_mayTrip (htyped : ∀ c ∈ e.classes, ∀ p ∈ c.properties, p.valueType?.isSome)
    (hx : ∀ c, x = .ofClass c → c ∈ e.classes) : x ∉ mayTrip e := by
  intro hmay
  obtain ⟨c, ⟨p, hp, hnone⟩, hreach⟩ := exists_untyped_of_mem_mayTrip hmay
  have hc : c ∈ e.classes := hreach.elim (hx c) mem_classes_of_leads
  have := htyped c hc p hp
  rw [hnone] at this
  cases this

/-! ## Nullability -/

theorem trips_all_of_erased_eq (hX : Subject.Blind X) (hP : Subject.Blind P)
    {ts us : List TypeRef} (h : ts.map TypeRef.erased = us.map TypeRef.erased)
    (htrips : (Inquiry.all ts).Trips (accepting X) fun t => Subject.ofType t ∈ P) :
    (Inquiry.all us).Trips (accepting X) fun t => Subject.ofType t ∈ P := by
  induction ts generalizing us with
  | nil =>
    rw [List.map_nil, eq_comm, List.map_eq_nil_iff] at h
    rwa [h]
  | cons t ts ih =>
    cases us with
    | nil => cases h
    | cons u us =>
      rw [List.map_cons, List.map_cons, List.cons.injEq] at h
      have hsame : (Subject.ofType t).erased = (Subject.ofType u).erased :=
        congrArg Subject.ofType h.1
      rw [Inquiry.trips_all_cons, accepting_eq_true_iff] at htrips ⊢
      exact htrips.imp (hP _ _ hsame) (And.imp (hX _ _ hsame) (ih h.2))

/-- Tripping does not hang on nullability, over a set that does not see it. -/
theorem TripsGiven.of_erased_eq (hA : Subject.Blind A) (hP : Subject.Blind P)
    (hxy : x.erased = y.erased) (h : TripsGiven e P A x) : TripsGiven e P A y := by
  cases y with
  | ofClass c =>
    rwa [Subject.eq_of_erased_eq_ofClass hxy] at h
  | ofType u =>
    obtain ⟨t, rfl, htu⟩ := Subject.exists_of_erased_eq_ofType hxy
    cases t with
    | dynamic => exact h.elim
    | parameter name bounds nullable =>
      cases u with
      | dynamic => cases htu
      | named => cases htu
      | parameter name' bounds' nullable' =>
        have hbounds := (TypeRef.parameter.inj htu).2.1
        rw [TypeRef.erasedAll_eq_map, TypeRef.erasedAll_eq_map] at hbounds
        exact trips_all_of_erased_eq (blind_surfaceGiven hA) hP hbounds h
    | named name args nullable =>
      cases u with
      | dynamic => cases htu
      | parameter => cases htu
      | named name' args' nullable' =>
        obtain rfl : name = name' := (TypeRef.named.inj htu).1
        refine ⟨?_, h.2.imp (fun ⟨u, hu, hin⟩ => ?_) fun hclass => hclass⟩
        · rw [← TypeRef.hasStar_erased, ← htu, TypeRef.hasStar_erased]
          exact h.1
        · obtain ⟨v, hv, hvu⟩ := TypeRef.exists_element_of_erased_eq htu.symm hu
          exact ⟨v, hv, hP (.ofType u) (.ofType v) (congrArg Subject.ofType hvu.symm) hin⟩

theorem Around.of_erased_eq (hxy : x.erased = y.erased) (hA : Around e y A) : Around e x A where
  onCycle z hz :=
    ⟨(hA.onCycle z hz).1.of_erased_eq hxy rfl, (hA.onCycle z hz).2.of_erased_eq rfl hxy⟩
  self c hc hxx := by
    obtain rfl : y = .ofClass c := Subject.eq_of_erased_eq_ofClass (hc ▸ hxy.symm)
    exact hc ▸ hA.self c rfl (hc ▸ hxx)
  blind := hA.blind

theorem blind_mustTripOver (hP : Subject.Blind P) : Subject.Blind (mustTripOver e P) :=
  fun _ _ hxy hx A hA =>
    (hx A (hA.of_erased_eq hxy)).of_erased_eq hA.blind hP hxy

/-! ## What tripping depends on -/

section Congr

variable {e' : Evaluator} (hoptions : e.options = e'.options)
  (hclass : ∀ name, e.classNamed? name = e'.classNamed? name)
include hclass

theorem mentions_congr : Mentions e = Mentions e' := by
  have himp : ∀ {e₁ e₂ : Evaluator}, (∀ name, e₁.classNamed? name = e₂.classNamed? name) →
      ∀ x y, Mentions e₁ x y → Mentions e₂ x y := by
    intro e₁ e₂ h x y hxy
    cases hxy with
    | bound hb hu => exact .bound hb hu
    | element hv hu => exact .element hv hu
    | declared hname hc => exact .declared hname ((h _).symm.trans hc)
    | surface ht hu => exact .surface ht hu
  funext x y
  exact propext ⟨himp hclass x y, himp (fun name => (hclass name).symm) x y⟩

theorem around_congr : Around e x A ↔ Around e' x A := by
  have hleads : Leads e = Leads e' := by rw [Leads, Leads, mentions_congr hclass]
  constructor
  · rintro ⟨honCycle, hself, hblind⟩
    exact ⟨hleads ▸ honCycle, hleads ▸ hself, hblind⟩
  · rintro ⟨honCycle, hself, hblind⟩
    exact ⟨hleads ▸ honCycle, hleads ▸ hself, hblind⟩

include hoptions

theorem tripsGiven_congr : TripsGiven e P A x ↔ TripsGiven e' P A x := by
  have hsurface : surfaceGiven e A = surfaceGiven e' A := surfaceGiven_congr hoptions hclass A
  cases x with
  | ofClass c => simp only [TripsGiven, InquiryTrips, hsurface, hoptions]
  | ofType t =>
    cases t with
    | dynamic => exact Iff.rfl
    | parameter name bounds nullable => simp only [TripsGiven, InquiryTrips, hsurface]
    | named name args nullable => simp only [TripsGiven, hclass]

/-- **Of an evaluator only its options and the classes it finds count.** -/
theorem mayTrip_congr : mayTrip e = mayTrip e' := by
  have hover : mayTripOver e = mayTripOver e' :=
    OrderHom.ext _ _ (funext fun P => Set.ext fun x => exists_congr fun A =>
      and_congr (around_congr hclass) (tripsGiven_congr hoptions hclass))
  rw [mayTrip, mayTrip, hover]

theorem mustTrip_congr : mustTrip e = mustTrip e' := by
  have hover : mustTripOver e = mustTripOver e' :=
    OrderHom.ext _ _ (funext fun P => Set.ext fun x => forall_congr' fun A =>
      imp_congr (around_congr hclass) (tripsGiven_congr hoptions hclass))
  rw [mustTrip, mustTrip, hover]

end Congr

end Evaluator

end ExportSurface
