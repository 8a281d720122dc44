import ExportSurface.Proofs.Course
import ExportSurface.Proofs.SilentMemo
/-!
# Evaluations that look past some entries

What a session knows about subjects that can fail is hidden if their entries and
their verdicts are taken out of it (`Session.without`). The subjects that cannot
fail ask about no others, so their evaluation goes on as it does without what is
hidden: it comes to the same, and leaves behind the same with that taken out
(`Evaluator.Course.without`).
-/

namespace ExportSurface

/-- What is found in a table of which some keys are left. -/
theorem lookup_filter_key {κ V : Type} [BEq κ] [LawfulBEq κ] (p : κ → Bool) (key : κ)
    (es : List (κ × V)) :
    (es.filter fun entry => p entry.1).lookup key = if p key then es.lookup key else none := by
  induction es with
  | nil => simp
  | cons entry es ih =>
    obtain ⟨k, v⟩ := entry
    by_cases hself : key = k
    · subst hself
      cases hp : p key with
      | true => simp [hp]
      | false => simpa [hp] using ih
    · have hne : (key == k) = false := by simpa using hself
      cases hp : p k with
      | true => simpa [hp, List.lookup_cons, hne] using ih
      | false => simpa [hp, List.lookup_cons, hne] using ih

/-! ## Memos -/

namespace Memo

open Classical in
/-- The memo without the entries of some keys. -/
noncomputable def without (m : Memo) (K : Set MemoKey) : Memo :=
  { m with entries := m.entries.filter fun entry => decide (entry.1 ∉ K) }

variable {m : Memo} {K : Set MemoKey} {key : MemoKey} {state : MemoState} {answer : Bool}

theorem state?_without_of_not_mem (h : key ∉ K) : (m.without K).state? key = m.state? key := by
  classical
  exact (lookup_filter_key (fun k => decide (k ∉ K)) key m.entries).trans (if_pos (by simp [h]))

theorem state?_without_of_mem (h : key ∈ K) : (m.without K).state? key = none := by
  classical
  exact (lookup_filter_key (fun k => decide (k ∉ K)) key m.entries).trans (if_neg (by simp [h]))

theorem openCount_without (m : Memo) (K : Set MemoKey) : (m.without K).openCount = m.openCount :=
  rfl

theorem lean_without (m : Memo) (K : Set MemoKey) (d : Nat) :
    (m.without K).lean d = (m.lean d).without K := by
  cases m with
  | mk entries frames =>
    cases frames with
    | nil => rfl
    | cons low outer => rfl

theorem remove_without (m : Memo) (K : Set MemoKey) (key : MemoKey) :
    (m.without K).remove key = (m.remove key).without K := by
  simp only [remove, without, List.filter_filter]
  congr 1
  exact List.filter_congr fun entry _ => Bool.and_comm _ _

theorem set_without (h : key ∉ K) (state : MemoState) :
    (m.without K).set key state = (m.set key state).without K := by
  simp only [set, without, List.filter_cons, h, not_false_eq_true, decide_true, if_true,
    List.filter_filter]
  congr 2
  exact List.filter_congr fun entry _ => Bool.and_comm _ _

/-- Looking up what is not hidden. -/
theorem lookup_without (h : key ∉ K) :
    (m.without K).lookup key = ((m.lookup key).1, (m.lookup key).2.without K) := by
  unfold lookup
  rw [state?_without_of_not_mem h]
  cases hstate : m.state? key with
  | none => rfl
  | some state =>
    cases state with
    | resolved answer => rfl
    | inFlight depth =>
      dsimp only
      rw [lean_without]
      rfl

/-- Opening what is not hidden. -/
theorem begin_without (h : key ∉ K) : (m.without K).begin key = (m.begin key).without K := by
  unfold begin
  dsimp only
  rw [set_without h, openCount_without]
  rfl

/-- Closing what is not hidden. -/
theorem resolve_without (h : key ∉ K) :
    (m.without K).resolve key answer
      = ((m.resolve key answer).1, (m.resolve key answer).2.without K) := by
  change (
    let low := m.frames.head?.getD (m.openCount - 1)
    let closed := ({ m with frames := m.frames.tail } : Memo).without K
    if low < m.openCount - 1 then
      if answer then
        (false, { (closed.lean low).remove key with deferred := (closed.lean low).deferred + 1 })
      else (true, (closed.lean low).set key (.resolved false))
    else (true, closed.set key (.resolved answer))) = _
  unfold resolve
  dsimp only
  rw [lean_without, remove_without, set_without h, set_without h]
  split
  · cases answer with
    | true => rfl
    | false => rfl
  · rfl

end Memo

/-! ## Sessions -/

open Classical in
/-- The session without what it knows about some keys. -/
noncomputable def Session.without (s : Session) (K : Set MemoKey) : Session where
  memo := s.memo.without K
  verdicts := s.verdicts.filter fun entry => decide (.ofClass entry.1.text ∉ K)

namespace Evaluator

variable {e : Evaluator} {V : Vocabulary} {α : Type} {stack : List MemoKey} {task : Task α}
  {s s' : Session} {moments : List Moment} {r : Ending α} {t u : TypeRef} {c : ClassDecl}
  {key : MemoKey} {K : Set MemoKey} {types : List TypeRef} {m : Memo} {answer : Bool}
  {v : Verdict} {result : Except ModuleError Verdict}

theorem lookup_verdicts_without {name : QualifiedName} (h : .ofClass name.text ∉ K) :
    (s.without K).verdicts.lookup name = s.verdicts.lookup name := by
  classical
  exact (lookup_filter_key (fun name : QualifiedName => decide (.ofClass name.text ∉ K)) name
    s.verdicts).trans (if_pos (by simp [h]))

theorem opened_without (h : key ∉ K) : opened (s.without K) key = (opened s key).without K := by
  have hmemo : ((s.without K).memo.lookup key).2.begin key
      = ((s.memo.lookup key).2.begin key).without K := by
    rw [Session.without, Memo.lookup_without h, Memo.begin_without h]
  rw [opened, hmemo]
  rfl

theorem closed_without (h : key ∉ K) :
    closed (s.without K) key answer = (closed s key answer).without K := by
  have hmemo : ((s.without K).memo.resolve key answer).2
      = (s.memo.resolve key answer).2.without K := by
    rw [Session.without, Memo.resolve_without h]
  rw [closed, hmemo]
  rfl

theorem closedBy_without (h : .ofClass c.name.text ∉ K) :
    closedBy (s.without K) c v = (closedBy s c v).without K := by
  have hkept : ((s.without K).memo.resolve (.ofClass c.name.text) v.isExportable).1
      = (s.memo.resolve (.ofClass c.name.text) v.isExportable).1 := by
    rw [Session.without, Memo.resolve_without h]
  rw [closedBy, closedBy, hkept, closed_without h]
  split
  · simp only [Session.without, List.filter_cons, h, not_false_eq_true, decide_true, if_true]
  · rfl

theorem concluded_without (h : .ofClass c.name.text ∉ K) :
    concluded (s.without K) c result = (concluded s c result).without K := by
  cases result with
  | ok v => exact closedBy_without h
  | error failure => exact closed_without h

/-- The session after a key that is not hidden was looked up. -/
theorem looked_without (h : key ∉ K) :
    ({ s.without K with memo := ((s.without K).memo.lookup key).2 } : Session)
      = ({ s with memo := (s.memo.lookup key).2 } : Session).without K := by
  have hmemo : ((s.without K).memo.lookup key).2 = (s.memo.lookup key).2.without K := by
    rw [Session.without, Memo.lookup_without h]
  rw [hmemo]
  rfl

theorem fst_lookup_without (h : key ∉ K) :
    ((s.without K).memo.lookup key).1 = (s.memo.lookup key).1 := by
  rw [Session.without, Memo.lookup_without h]

/-! ## Subjects that can fail -/

/-- What can fail does not hang on nullability. -/
theorem blind_mayTrip : Subject.Blind (mayTrip e) := by
  let S : Set Subject := {x | ∀ y : Subject, x.erased = y.erased → y ∈ mayTrip e}
  have hsub : S ⊆ mayTrip e := fun x hx => hx x rfl
  have hblind : Subject.Blind S := fun x y hxy hx z hyz => hx z (hxy.trans hyz)
  have hle : mayTrip e ⊆ S := by
    refine OrderHom.lfp_le _ ?_
    rintro x ⟨A, hA, htrips⟩ y hxy
    have hy := htrips.of_erased_eq hA.blind hblind hxy
    exact mem_mayTrip_of_tripsGiven (hA.of_erased_eq hxy.symm) (hy.mono hsub)
  exact fun x y hxy hx => hle hx y hxy

variable (e V) in
/-- The keys of subjects that can fail. -/
def tainted : Set MemoKey := {key | ∃ x ∈ remembered e V, x ∈ mayTrip e ∧ x.key = key}

/-- The key of a subject that cannot fail is that of none that can. -/
theorem key_not_mem_tainted {x : Subject} (hx : x ∈ remembered e V) (hmay : x ∉ mayTrip e) :
    x.key ∉ tainted e V := by
  rintro ⟨y, hy, hin, hkey⟩
  exact hmay (blind_mayTrip y x (erased_eq_of_key_eq hy hx hkey) hin)

/-! ## Handled questions -/

theorem scope_singleton_subset (ht : t ∈ scope e types) : scope e [t] ⊆ scope e types := by
  intro u hu
  obtain ⟨w, hw, huw⟩ := List.mem_flatMap.mp hu
  rcases List.mem_append.mp hw with hclass | hself
  · exact List.mem_flatMap.mpr ⟨w, List.mem_append_left _ hclass, huw⟩
  · obtain ⟨x, hx, htx⟩ := List.mem_flatMap.mp ht
    rw [List.mem_singleton] at hself
    exact List.mem_flatMap.mpr ⟨x, hx, TypeRef.mem_parts_trans htx (hself ▸ huw)⟩

section Handled

variable (hV : ∀ t ∈ scope e types, t ∈ V.types)
include hV

theorem handles_typeExportable (ht : t ∈ scope e types) (hready : Ready e V s)
    (hopen : OpenLeads e V s.memo (.ofType t)) :
    Handles e V (typeExportable e t) (.ofType t) s :=
  serves_typeWithin (fun u hu => hV u (scope_singleton_subset ht hu)) _ t s
    { ready := hready
      mem_scope := mem_scope_of_mem (List.mem_singleton_self t)
      openLeads := hopen
      need_le := (need_le_room (mem_scope_of_mem (List.mem_singleton_self t))).trans
        room_le_bound }

theorem handles_class (hc : e.classNamed? c.name = some c) (hready : Ready e V s)
    (hopen : OpenLeads e V s.memo (.ofClass c)) :
    Handles e V (examineClass e (typeExportable e) c) (.ofClass c) s := by
  refine handles_examineClass hready hc hopen fun _ t ht s' hs' hg => ?_
  have hx : Subject.ofClass c ∈ remembered e V := hc
  exact handles_typeExportable hV (mem_scope_of_checks (mem_classes_of_classNamed? hc) ht) hs'
    ((hopen.opened hx (leads_of_checks ht)).of_grows hg)

end Handled

/-! ## Evaluations that cannot fail -/

variable (e V types) in
/-- What is evaluated in a memo where all that is in flight leads to it, of the
index and in scope, if it cannot fail. -/
def Untainted (m : Memo) : {α : Type} → Task α → Prop
  | _, .ofType t =>
    t ∈ scope e types ∧ OpenLeads e V m (.ofType t) ∧ Subject.ofType t ∉ mayTrip e
  | _, .ofClass c =>
    e.classNamed? c.name = some c ∧ OpenLeads e V m (.ofClass c) ∧ Subject.ofClass c ∉ mayTrip e
  | _, .ofRule q =>
    (q.Within fun t => t ∈ scope e types ∧ OpenLeads e V m (.ofType t)) ∧
      ∀ t ∈ q.asked (accepting (surfaceGiven e (inFlight e V m))), Subject.ofType t ∉ mayTrip e

/-- A rule that does not trip over what can fail asks about nothing that can. -/
theorem not_mem_mayTrip_of_asked {A : Set Subject} {q : Inquiry α}
    (h : ¬ InquiryTrips e (mayTrip e) A q) :
    ∀ t ∈ q.asked (accepting (surfaceGiven e A)), Subject.ofType t ∉ mayTrip e :=
  fun t ht hmay => h (Inquiry.trips_iff.mpr (Or.inr ⟨t, ht, hmay⟩))

/-- What is examined of a class type that cannot fail cannot fail. -/
theorem Untainted.insideNamed (h : Untainted e V types s.memo (.ofType t))
    (hx : Subject.ofType t ∈ remembered e V) :
    Untainted e V types (opened s (.ofType t.key)).memo (insideNamed e t) := by
  obtain ⟨hscope, hopen, hmay⟩ := h
  have hstar : t.hasStar = false := hx.2.2
  have hnot : ¬ TripsGiven e (mayTrip e) ∅ (.ofType t) := fun htrips =>
    hmay (mem_mayTrip_of_tripsGiven (around_empty t) htrips)
  have hopened : ∀ {y}, Leads e (.ofType t) y →
      OpenLeads e V (opened s (.ofType t.key)).memo y := hopen.opened hx
  refine insideNamed_induction (P := Untainted e V types (opened s (.ofType t.key)).memo)
    (fun b => ⟨trivial, fun _ hu => nomatch hu⟩) ?_ fun name c hbuiltin hname hc hmarked => ?_
  · refine ⟨Rule.within_accepts fun u hu => ⟨?_, ?_⟩, ?_⟩
    · exact mem_scope_of_mem_children hscope (TypeRef.mem_children_of_element? hu)
    · exact hopened (Relation.TransGen.single (.element hu rfl))
    · refine not_mem_mayTrip_of_asked fun htrips => hnot ?_
      obtain ⟨-, u, hu, hin⟩ := Inquiry.trips_accepts_iff.mp htrips
      cases t with
      | dynamic => cases hx.2.1
      | parameter => cases hx.2.1
      | named name args nullable => exact ⟨hstar, Or.inl ⟨u, hu, hin⟩⟩
  · refine ⟨classNamed?_self hc, hopened (Relation.TransGen.single (.declared hname hc)),
      fun hin => hnot ?_⟩
    cases t with
    | dynamic => cases hname
    | parameter => cases hname
    | named name' args nullable =>
      cases hname
      exact ⟨hstar, Or.inr ⟨hbuiltin, c, hc, hmarked, hin⟩⟩

/-- What is examined of a type on which answers are not remembered cannot fail
either. -/
theorem Untainted.inside_of_not_isRemembered (h : Untainted e V types m (.ofType t))
    (ht : ¬ t.IsRemembered) : Untainted e V types m (inside e t) := by
  obtain ⟨hscope, hopen, hmay⟩ := h
  have hdone : ∀ b : Bool, Untainted e V types m (.ofRule (pure b)) :=
    fun b => ⟨trivial, fun _ hu => nomatch hu⟩
  cases hstar : t.hasStar with
  | true =>
    rw [inside_of_hasStar hstar]
    exact hdone false
  | false =>
    cases t with
    | dynamic => exact hdone true
    | named name args nullable => exact absurd ⟨rfl, hstar⟩ ht
    | parameter name bounds nullable =>
      have haround : Around e (.ofType (.parameter name bounds nullable)) _ :=
        around_inFlight (fun z hz => Or.inr (hopen z hz)) fun _ hd => nomatch hd
      refine ⟨Inquiry.within_all fun u hu => ⟨mem_scope_of_mem_children hscope hu, ?_⟩,
        not_mem_mayTrip_of_asked fun htrips => hmay (mem_mayTrip_of_tripsGiven haround ?_)⟩
      · exact hopen.trans (Relation.TransGen.single (.bound hu rfl))
      · exact (inquiryTrips_inter_iff (within_leads_all name bounds nullable)).mpr htrips

/-- The rule of a class that cannot fail asks about nothing that can. -/
theorem Untainted.rule (h : Untainted e V types s.memo (.ofClass c)) :
    Untainted e V types (opened s (.ofClass c.name.text)).memo
      (.ofRule (Rule.ofClass e.options Inquiry.put c)) := by
  obtain ⟨hc, hopen, hmay⟩ := h
  have hx : Subject.ofClass c ∈ remembered e V := hc
  refine ⟨(Rule.within_ofClass e.options c).imp fun t ht => ⟨?_, ?_⟩,
    not_mem_mayTrip_of_asked fun htrips =>
      hmay (mem_mayTrip_of_tripsGiven (around_opened_ofClass hc hopen) ?_)⟩
  · exact mem_scope_of_checks (mem_classes_of_classNamed? hc) ht
  · exact hopen.opened hx (leads_of_checks ht)
  · exact (inquiryTrips_inter_iff (within_leads_ofClass e.options c)).mpr htrips

/-- **What cannot fail is evaluated as without what can.** Its course comes to the
same in the session without the entries of subjects that can fail, and leaves the
same behind with those taken out. -/
theorem Course.without (hV : ∀ t ∈ scope e types, t ∈ V.types)
    (h : Course e stack task s moments r s') (hready : Ready e V (s.without (tainted e V)))
    (huntainted : Untainted e V types (s.without (tainted e V)).memo task) :
    (task.query e).ask (s.without (tainted e V)) = (r.result, s'.without (tainted e V)) := by
  have hkeyType : ∀ {t}, t ∈ scope e types → Subject.ofType t ∉ mayTrip e → t.IsRemembered →
      Subject.ofType t ∈ remembered e V ∧ .ofType t.key ∉ tainted e V := by
    intro t ht hmay hrem
    have hx : Subject.ofType t ∈ remembered e V := ⟨⟨t, hV t ht, rfl⟩, hrem⟩
    exact ⟨hx, key_not_mem_tainted hx hmay⟩
  have hkeyClass : ∀ {c : ClassDecl}, e.classNamed? c.name = some c →
      Subject.ofClass c ∉ mayTrip e → .ofClass c.name.text ∉ tainted e V := by
    intro c hc hmay
    have hx : Subject.ofClass c ∈ remembered e V := hc
    exact key_not_mem_tainted hx hmay
  induction h with
  | done => rfl
  | fail => rfl
  | @ask α stack s s₁ s' t b next first rest r hfirst _ ihfirst ihrest =>
    obtain ⟨hwithin, hasked⟩ := huntainted
    have hmay : Subject.ofType t ∉ mayTrip e := hasked t List.mem_cons_self
    have hsame := ihfirst hready ⟨hwithin.1.1, hwithin.1.2, hmay⟩
    obtain ⟨hready₁, ha⟩ :=
      (handles_typeExportable hV hwithin.1.1 hready hwithin.1.2).answered hsame
    refine (Query.ask_bind_of_ok hsame).trans (ihrest hready₁ ⟨?_, fun u hu => hasked u ?_⟩)
    · exact (hwithin.2 b).imp fun u hu => ⟨hu.1, hu.2.of_grows ha.grows⟩
    · rw [inFlight_of_grows ha.grows] at hu
      change u ∈ t :: (next (accepting (surfaceGiven e (inFlight e V _)) t)).asked _
      rw [ha.accepting_inFlight]
      exact List.mem_cons_of_mem t hu
  | @askBroken α stack s s₁ t next moments failure keys hfirst ih =>
    obtain ⟨hwithin, hasked⟩ := huntainted
    have hmay : Subject.ofType t ∉ mayTrip e := hasked t List.mem_cons_self
    have hsame := ih hready ⟨hwithin.1.1, hwithin.1.2, hmay⟩
    -- a type that cannot fail is answered
    rcases handles_typeExportable hV hwithin.1.1 hready hwithin.1.2 with
      ⟨b, s₂, hask, -⟩ | ⟨-, hin⟩
    · cases hsame.symm.trans hask
    · exact absurd hin hmay
  | transient ht _ ih =>
    have hin := ih hready (huntainted.inside_of_not_isRemembered ht)
    rw [query_inside_of_not_isRemembered ht] at hin
    exact (ask_typeExportable_eq _ _ _).trans hin
  | @typeKnown stack s t b ht hfound =>
    obtain ⟨-, hkey⟩ := hkeyType huntainted.1 huntainted.2.2 ht
    rw [← fst_lookup_without hkey] at hfound
    rw [Task.query, ask_typeExportable_eq, ask_examineType_of_hit ht.1 ht.2 hfound,
      looked_without hkey]
    rfl
  | @typeExamined stack s s₂ t moments r ht hfound _ ih =>
    obtain ⟨hx, hkey⟩ := hkeyType huntainted.1 huntainted.2.2 ht
    rw [← fst_lookup_without hkey] at hfound
    have hstate := Memo.state?_of_lookup_fst_eq_none hfound
    rw [inside_of_isRemembered ht, ← opened_without hkey] at ih
    have hin := ih (hready.opened hstate) (huntainted.insideNamed hx)
    rw [query_insideNamed] at hin
    rw [Task.query, ask_typeExportable_eq, ask_examineType_of_miss ht.1 ht.2 hfound hin,
      Ending.result_closing, closed_without hkey]
  | @classKnown stack s c b hfound =>
    have hkey := hkeyClass huntainted.1 huntainted.2.2
    rw [← fst_lookup_without hkey] at hfound
    rw [Task.query, ask_examineClass_of_hit hfound, looked_without hkey]
    rfl
  | @classExamined stack s s₂ c moments r hfound _ ih =>
    have hkey := hkeyClass huntainted.1 huntainted.2.2
    rw [← fst_lookup_without hkey] at hfound
    have hstate := Memo.state?_of_lookup_fst_eq_none hfound
    rw [← opened_without hkey] at ih
    have hin := ih (hready.opened hstate) huntainted.rule
    rw [Task.query, Inquiry.run_ofClass] at hin
    rw [Task.query, ask_examineClass_of_miss hfound hin, Ending.result_closing, Ending.result_map,
      concluded_without hkey]

end Evaluator

end ExportSurface
