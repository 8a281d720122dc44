import ExportSurface.Proofs.Questions
/-!
# What a memo is silent on

A subject that is bound to fail is never answered. A memo that has no entry
about any member of a set (`Evaluator.Silent`) still has none after a question
was answered, and the subject of the question is no member, if evaluations
spare the set (`Evaluator.Sparing`). The empty set is spared. If a set is
spared, so is what trips over it whatever is in flight
(`Evaluator.sparing_mustTripOver`): its subjects are not in the smaller set, so
nothing is known of it while they are examined, and their rules would have
asked about a member. By the induction of least fixed points the evaluation
spares all that is bound to fail (`Evaluator.sparing_mustTrip`).
-/

namespace ExportSurface

namespace Evaluator

variable (e : Evaluator) (V : Vocabulary)

/-- The memo has no entry about a member of a set. -/
def Silent (P : Set Subject) (m : Memo) : Prop :=
  ∀ x ∈ remembered e V, m.state? x.key ≠ none → x ∉ P

/-- If the memo is silent on a set, the question is answered only for a subject
that is no member, and leaves the memo silent. -/
def Spares (P : Set Subject) (q : Query Bool) (x : Subject) (s : Session) : Prop :=
  Silent e V P s.memo → ∀ b s', q.ask s = (.ok b, s') → x ∉ P ∧ Silent e V P s'.memo

/-- Evaluations to a depth spare a set. -/
structure Sparing (types : List TypeRef) (P : Set Subject) (depth : Nat) : Prop where
  ofType : ∀ t s, Fits e V types depth t s → Spares e V P (typeWithin e depth t) (.ofType t) s
  ofClass : ∀ c s, FitsClass e V types depth c s →
    Spares e V P (examineClass e (typeWithin e depth) c) (.ofClass c) s

variable {e V} {P Q : Set Subject} {m m₁ : Memo} {s s' s₂ : Session} {x : Subject} {c : ClassDecl}
  {t : TypeRef} {b : Bool} {ask : TypeRef → Query Bool}

/-! ## Silent memos -/

theorem silent_empty : Silent e V P {} := fun _ _ h => absurd rfl h

theorem Silent.mono (h : Silent e V Q m) (hPQ : P ⊆ Q) : Silent e V P m :=
  fun x hx hstate hP => h x hx hstate (hPQ hP)

theorem Silent.of_state? (h : Silent e V P m)
    (hstate : ∀ k, m₁.state? k ≠ none → m.state? k ≠ none) : Silent e V P m₁ :=
  fun x hx hx₁ => h x hx (hstate _ hx₁)

theorem Silent.lookup (h : Silent e V P m) (key : MemoKey) : Silent e V P (m.lookup key).2 :=
  h.of_state? fun k hk => by rwa [Memo.state?_lookup] at hk

/-- Nothing becomes known but about one subject. -/
theorem Silent.of_state?_of_ne (h : Silent e V P m) (hP : Subject.Blind P)
    (hx : x ∈ remembered e V) (hxP : x ∉ P)
    (hstate : ∀ k, k ≠ x.key → m₁.state? k = m.state? k) : Silent e V P m₁ := by
  intro y hy hy₁
  by_cases hkey : y.key = x.key
  · exact fun hyP => hxP (hP y x (erased_eq_of_key_eq hy hx hkey) hyP)
  · exact h y hy (by rwa [hstate _ hkey] at hy₁)

section Entry

variable (hP : Subject.Blind P) (hx : x ∈ remembered e V) (hxP : x ∉ P)
include hP hx hxP

theorem Silent.opened (h : Silent e V P s.memo) : Silent e V P (opened s x.key).memo :=
  h.of_state?_of_ne hP hx hxP fun _ hk =>
    (Memo.state?_begin_of_ne hk).trans (Memo.state?_lookup s.memo x.key)

theorem Silent.closed (h : Silent e V P s.memo) : Silent e V P (closed s x.key b).memo :=
  h.of_state?_of_ne hP hx hxP fun _ hk => Memo.state?_resolve_of_ne hk

end Entry

/-- What the memo knows is outside the set. -/
theorem Silent.not_mem_of_lookup (h : Silent e V P m) (hx : x ∈ remembered e V)
    (hfound : (m.lookup x.key).1 = some b) : x ∉ P := by
  refine h x hx fun hnone => ?_
  rcases Memo.state?_of_lookup_fst_eq_some hfound with hstate | ⟨-, d, hstate⟩
  · cases hnone.symm.trans hstate
  · cases hnone.symm.trans hstate

/-! ## Rules -/

/-- What is handled and answered is on its side of the bracket. -/
theorem Handles.answered {q : Query Bool} (h : Handles e V q x s) (hok : q.ask s = (.ok b, s')) :
    Ready e V s' ∧ Answered e V s.memo x b s'.memo := by
  rcases h with hreplies | ⟨⟨failure, s₁, hfails⟩, -⟩
  · obtain ⟨b₁, s₁, hask, hready, ha⟩ := hreplies.ready
    cases hok.symm.trans hask
    exact ⟨hready, ha⟩
  · cases hok.symm.trans hfails

/-- **A rule that comes to an end** where its questions are handled and spare a
set leaves the memo silent on it, and does not trip over it. -/
theorem silent_run {α : Type} {K : TypeRef → Prop} {q : Inquiry α} {a : α} (hq : q.Within K)
    (hs : Ready e V s)
    (hask : ∀ t, K t → ∀ s', Ready e V s' → s.memo.Grows s'.memo →
      Handles e V (ask t) (.ofType t) s' ∧ Spares e V P (ask t) (.ofType t) s')
    (hsilent : Silent e V P s.memo) (hok : (q.run ask).ask s = (.ok a, s')) :
    Silent e V P s'.memo ∧ ¬ InquiryTrips e P (inFlight e V s.memo) q := by
  induction q generalizing s with
  | done a =>
    cases hok
    exact ⟨hsilent, id⟩
  | fail failure => cases hok
  | ask t next ih =>
    obtain ⟨hhandles, hspares⟩ := hask t hq.1 s hs (Memo.Grows.refl _)
    cases hfirst : (ask t).ask s with
    | mk result s₁ =>
      rw [Inquiry.run, Query.ask_bind, hfirst] at hok
      cases result with
      | error failure => cases hok
      | ok b =>
        obtain ⟨hready, ha⟩ := hhandles.answered hfirst
        obtain ⟨ht, hsilent₁⟩ := hspares hsilent b s₁ hfirst
        obtain ⟨hsilent', hrest⟩ := ih b (hq.2 b) hready
          (fun u hu s₂ hs₂ hg => hask u hu s₂ hs₂ (ha.grows.trans hg)) hsilent₁ hok
        rw [inFlight_of_grows ha.grows] at hrest
        refine ⟨hsilent', ?_⟩
        rintro (hmem | htrips)
        · exact ht hmem
        -- the answer given is the one assumed in tripping, so the rest is the same rule
        · rw [ha.accepting_inFlight] at htrips
          exact hrest htrips

/-! ## One step of the evaluation -/

section Step

variable {types : List TypeRef} {depth : Nat} (hV : ∀ t ∈ scope e types, t ∈ V.types)
include hV

/-- What is asked where a set is spared. -/
theorem Sparing.asks (h : Sparing e V types P depth) (ht : Fits e V types depth t s) :
    Handles e V (typeWithin e depth t) (.ofType t) s ∧
      Spares e V P (typeWithin e depth t) (.ofType t) s :=
  ⟨serves_typeWithin hV depth t s ht, h.ofType t s ht⟩

/-- What is examined of a class type leaves the memo silent on a set that is
spared, and the type does not trip over it. -/
theorem Sparing.examineNamed (h : Sparing e V types P depth)
    (ht : Fits e V types (depth + 1) t s) (hx : Subject.ofType t ∈ remembered e V)
    (hkey : s.memo.state? (.ofType t.key) = none)
    (hsilent : Silent e V P (Evaluator.opened s (.ofType t.key)).memo)
    (hok : (examineNamed e (typeWithin e depth) t).ask (Evaluator.opened s (.ofType t.key))
      = (.ok b, s₂)) :
    Silent e V P s₂.memo ∧ ¬ TripsGiven e P ∅ (.ofType t) := by
  have hstar : t.hasStar = false := hx.2.2
  cases t with
  | dynamic => cases hx.2.1
  | parameter => cases hx.2.1
  | named name args nullable =>
    cases hbuiltin : (Builtin.ofType? (.named name args nullable)).isSome with
    | true =>
      rw [examineNamed_of_builtin hbuiltin] at hok
      obtain ⟨hsilent₂, hno⟩ := silent_run (Rule.within_accepts fun _ => id)
        (ht.ready.opened hkey) (fun u hu s' hs' hg => h.asks hV (ht.element hx hkey hu hs' hg))
        hsilent hok
      refine ⟨hsilent₂, ?_⟩
      rintro ⟨-, ⟨u, hu, hin⟩ | ⟨hnone, -⟩⟩
      · exact hno (Inquiry.trips_accepts_iff.mpr ⟨hstar, u, hu, hin⟩)
      · rw [hnone] at hbuiltin
        cases hbuiltin
    | false =>
      have helement : ∀ u, (TypeRef.named name args nullable).element? ≠ some u := by
        intro u hu
        unfold TypeRef.element? at hu
        rw [Option.isSome_eq_false_iff, Option.isNone_iff_eq_none] at hbuiltin
        rw [hbuiltin] at hu
        cases hu
      cases hc : e.classNamed? name with
      | none =>
        rw [examineNamed_of_unknown hbuiltin hc] at hok
        cases hok
        refine ⟨hsilent, ?_⟩
        rintro ⟨-, ⟨u, hu, -⟩ | ⟨-, c, hc', -⟩⟩
        · exact helement u hu
        · cases hc.symm.trans hc'
      | some c =>
        rw [examineNamed_of_class hbuiltin hc] at hok
        cases hmarked : c.isExported with
        | true =>
          rw [hmarked, if_pos rfl] at hok
          cases hok
          refine ⟨hsilent, ?_⟩
          rintro ⟨-, ⟨u, hu, -⟩ | ⟨-, d, hd, hunmarked, -⟩⟩
          · exact helement u hu
          · cases hc.symm.trans hd
            cases hmarked.symm.trans hunmarked
        | false =>
          rw [hmarked, if_neg (by simp)] at hok
          obtain ⟨hcP, hsilent₂⟩ := h.ofClass c _ (ht.declared hx hkey rfl hc) hsilent b s₂ hok
          refine ⟨hsilent₂, ?_⟩
          rintro ⟨-, ⟨u, hu, -⟩ | ⟨-, d, hd, -, hin⟩⟩
          · exact helement u hu
          · cases hc.symm.trans hd
            exact hcP hin

variable (hPQ : P ⊆ mustTripOver e P) (hP : Subject.Blind P)
include hPQ hP

/-- **A class that trips over what is spared is spared**, where types are. -/
theorem Sparing.spares_examineClass (h : Sparing e V types P depth)
    (hQ : ∀ t s, Fits e V types depth t s →
      Spares e V (mustTripOver e P) (typeWithin e depth t) (.ofType t) s)
    (hc : FitsClass e V types depth c s) :
    Spares e V (mustTripOver e P) (examineClass e (typeWithin e depth) c) (.ofClass c) s := by
  intro hsilent b s' hok
  have hx : Subject.ofClass c ∈ remembered e V := hc.found
  rcases examineClass_cases hok with ⟨hfound, rfl⟩ | ⟨hnone, v, s₂, hbody, rfl, rfl⟩
  · exact ⟨hsilent.not_mem_of_lookup hx hfound, hsilent.lookup _⟩
  · have hkey := Memo.state?_of_lookup_fst_eq_none hnone
    have hready := hc.ready.opened hkey
    rw [← Inquiry.run_ofClass] at hbody
    -- over the smaller set the rule did not trip, so the class is not in the larger one
    have hcP := (h.ofClass c s hc (hsilent.mono hPQ) _ _ hok).1
    have hno := (silent_run (Rule.within_ofClass e.options c) hready
      (fun t ht s' hs' hg => h.asks hV (hc.checks ht hs' hg))
      ((hsilent.mono hPQ).opened hP hx hcP) hbody).2
    have hcQ : Subject.ofClass c ∉ mustTripOver e P := fun hin =>
      hno ((inquiryTrips_inter_iff (within_leads_ofClass e.options c)).mp
        (hin _ (around_opened_ofClass hc.found hc.openLeads)))
    have hblind : Subject.Blind (mustTripOver e P) := blind_mustTripOver hP
    have hsilent₂ := (silent_run (Rule.within_ofClass e.options c) hready
      (fun t ht s' hs' hg => ⟨serves_typeWithin hV depth t s' (hc.checks ht hs' hg),
        hQ t s' (hc.checks ht hs' hg)⟩) (hsilent.opened hblind hx hcQ) hbody).1
    refine ⟨hcQ, ?_⟩
    rw [memo_closedBy]
    exact hsilent₂.closed hblind hx hcQ

/-- **A type that trips over what is spared is spared**, one deeper than where
types are. -/
theorem Sparing.spares_examineType (hdeep : Sparing e V types P (depth + 1))
    (h : Sparing e V types P depth) (hQ : Sparing e V types (mustTripOver e P) depth)
    (ht : Fits e V types (depth + 1) t s) :
    Spares e V (mustTripOver e P) (examineType e (typeWithin e depth) t) (.ofType t) s := by
  intro hsilent b s' hok
  have hnot : ∀ A, Around e (.ofType t) A → ¬ TripsGiven e P A (.ofType t) →
      Subject.ofType t ∉ mustTripOver e P := fun A hA hno hin => hno (hin A hA)
  cases hstar : t.hasStar with
  | true =>
    rw [examineType_of_hasStar hstar] at hok
    cases hok
    refine ⟨hnot ∅ (around_empty t) fun htrips => ?_, hsilent⟩
    cases t with
    | dynamic => cases hstar
    | parameter => cases hstar
    | named => cases hstar.symm.trans htrips.1
  | false =>
    cases t with
    | dynamic =>
      cases hok
      exact ⟨hnot ∅ (around_empty _) id, hsilent⟩
    | parameter name bounds nullable =>
      rw [examineType_parameter] at hok
      have hwithin : (Inquiry.all bounds).Within (· ∈ bounds) := Inquiry.within_all fun _ => id
      have hno := (silent_run hwithin ht.ready
        (fun u hu s' hs' hg => h.asks hV (ht.bound hu hs' hg)) (hsilent.mono hPQ) hok).2
      have hsilent' := (silent_run hwithin ht.ready
        (fun u hu s' hs' hg => hQ.asks hV (ht.bound hu hs' hg)) hsilent hok).1
      refine ⟨hnot _ (around_inFlight (fun z hz => Or.inr (ht.openLeads z hz))
        fun _ hd => nomatch hd) fun htrips => hno ?_, hsilent'⟩
      exact (inquiryTrips_inter_iff (within_leads_all name bounds nullable)).mp htrips
    | named name args nullable =>
      have hx := ht.mem_remembered hV hstar
      rcases examineType_cases rfl hstar hok with ⟨hfound, rfl⟩ | ⟨hnone, s₂, hbody, rfl⟩
      · exact ⟨hsilent.not_mem_of_lookup hx hfound, hsilent.lookup _⟩
      · have hkey := Memo.state?_of_lookup_fst_eq_none hnone
        -- the type is known to be outside the smaller set before it is opened
        have htP := (hdeep.ofType _ s ht (hsilent.mono hPQ) _ _ hok).1
        have htQ := hnot ∅ (around_empty _) (h.examineNamed hV ht hx hkey
          ((hsilent.mono hPQ).opened hP hx htP) hbody).2
        have hblind : Subject.Blind (mustTripOver e P) := blind_mustTripOver hP
        have hsilent₂ := (hQ.examineNamed hV ht hx hkey (hsilent.opened hblind hx htQ) hbody).1
        exact ⟨htQ, hsilent₂.closed hblind hx htQ⟩

/-- **What trips over what is spared is spared**, as deep as evaluations go. -/
theorem sparing_mustTripOver (h : ∀ depth, Sparing e V types P depth) (depth : Nat) :
    Sparing e V types (mustTripOver e P) depth := by
  have htypes : ∀ t s, Fits e V types depth t s →
      Spares e V (mustTripOver e P) (typeWithin e depth t) (.ofType t) s := by
    induction depth with
    | zero =>
      intro t s ht
      exact absurd ht.need_le (Nat.not_le.mpr (need_pos s.memo t))
    | succ depth ih =>
      refine fun t s ht => (h (depth + 1)).spares_examineType hV hPQ hP (h depth) ⟨ih, ?_⟩ ht
      exact fun c s hc => (h depth).spares_examineClass hV hPQ hP ih hc
  exact ⟨htypes, fun c s hc => (h depth).spares_examineClass hV hPQ hP htypes hc⟩

end Step

/-! ## The whole evaluation -/

theorem blind_sUnion {S : Set (Set Subject)} (h : ∀ P ∈ S, Subject.Blind P) :
    Subject.Blind (⋃₀ S) :=
  fun x y hxy ⟨P, hP, hx⟩ => ⟨P, hP, h P hP x y hxy hx⟩

theorem spares_sUnion {S : Set (Set Subject)} {q : Query Bool}
    (h : ∀ P ∈ S, Spares e V P q x s) : Spares e V (⋃₀ S) q x s := by
  intro hsilent b s' hok
  have heach : ∀ P ∈ S, x ∉ P ∧ Silent e V P s'.memo := fun P hP =>
    h P hP (hsilent.mono (Set.subset_sUnion_of_mem hP)) b s' hok
  refine ⟨fun ⟨P, hP, hx⟩ => (heach P hP).1 hx, fun y hy hstate ⟨P, hP, hyP⟩ => ?_⟩
  exact (heach P hP).2 y hy hstate hyP

/-- **The evaluation spares what is bound to fail**, as deep as it goes. -/
theorem sparing_mustTrip {types : List TypeRef} (hV : ∀ t ∈ scope e types, t ∈ V.types)
    (depth : Nat) : Sparing e V types (mustTrip e) depth := by
  -- that the set trips over itself is kept along with it, for the next step to use
  let Spared (P : Set Subject) : Prop :=
    P ⊆ mustTripOver e P ∧ Subject.Blind P ∧ ∀ depth, Sparing e V types P depth
  have hspared : Spared (mustTrip e) := by
    refine OrderHom.lfp_induction (mustTripOver e) (fun P hP _ => ?_) fun S hS => ?_
    · obtain ⟨hPQ, hblind, h⟩ := hP
      exact ⟨(mustTripOver e).monotone hPQ, blind_mustTripOver hblind,
        sparing_mustTripOver hV hPQ hblind h⟩
    · refine ⟨?_, blind_sUnion fun P hP => (hS P hP).2.1, fun depth => ⟨?_, ?_⟩⟩
      · exact sSup_le fun P hP => (hS P hP).1.trans ((mustTripOver e).monotone (le_sSup hP))
      · exact fun t s ht => spares_sUnion fun P hP => ((hS P hP).2.2 depth).ofType t s ht
      · exact fun c s hc => spares_sUnion fun P hP => ((hS P hP).2.2 depth).ofClass c s hc
  exact hspared.2.2 depth

end Evaluator

end ExportSurface
