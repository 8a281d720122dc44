import ExportSurface.Proofs.Evaluation
import ExportSurface.Proofs.Failures
/-!
# The evaluation without its bound

Whatever is asked, of whatever evaluator and in whatever session, the memo only
grows, also when the question fails (`Evaluator.grows_typeWithin`). Hence the
need of a type measures how deep an evaluation goes without any condition on
keys or types: two bounds that both leave room for a type give one answer and
one session (`Evaluator.typeWithin_congr`). So the bound can be left out of
account: the question whether a type can be exported satisfies the equation of
the recursion that it is (`Evaluator.ask_typeExportable_eq`).
-/

namespace ExportSurface

/-! ## The memo grows -/

namespace Query

variable {α β : Type}

/-- The memo grows, whatever the question comes to. -/
def Grows (q : Query α) : Prop := ∀ s : Session, s.memo.Grows (q.ask s).2.memo

theorem grows_pure (a : α) : (pure a : Query α).Grows := fun s => .refl s.memo

theorem grows_throw (failure : ModuleError) : (throw failure : Query α).Grows :=
  fun s => .refl s.memo

theorem grows_bind {q : Query α} {f : α → Query β} (hq : q.Grows) (hf : ∀ a, (f a).Grows) :
    (q >>= f).Grows := by
  intro s
  have hfirst := hq s
  rw [ask_bind]
  cases hask : q.ask s with
  | mk result s₁ =>
    rw [hask] at hfirst
    cases result with
    | error failure => exact hfirst
    | ok a => exact hfirst.trans (hf a s₁)

theorem grows_map {q : Query α} (f : α → β) (hq : q.Grows) : (f <$> q).Grows := by
  rw [map_eq_pure_bind]
  exact grows_bind hq fun a => grows_pure (f a)

end Query

open Query

namespace Inquiry

variable {α : Type} {ask ask' : TypeRef → Query Bool} {q : Inquiry α} {s : Session}

theorem grows_run (hask : ∀ t, (ask t).Grows) (q : Inquiry α) : (q.run ask).Grows := by
  induction q with
  | done a => exact grows_pure a
  | fail failure => exact grows_throw failure
  | ask t next ih => exact grows_bind (hask t) ih

/-- A rule goes the same way in two sessions that answer its questions alike. -/
theorem run_congr {P : TypeRef → Prop} (hq : q.Within P) (hgrows : ∀ t, (ask t).Grows)
    (h : ∀ t, P t → ∀ s', s.memo.Grows s'.memo → (ask t).ask s' = (ask' t).ask s') :
    (q.run ask).ask s = (q.run ask').ask s := by
  induction q generalizing s with
  | done a => rfl
  | fail failure => rfl
  | ask t next ih =>
    have hfirst := h t hq.1 s (.refl _)
    have hg := hgrows t s
    rw [Inquiry.run, Inquiry.run, ask_bind, ask_bind, ← hfirst]
    cases hask : (ask t).ask s with
    | mk result s₁ =>
      rw [hask] at hg
      cases result with
      | error failure => rfl
      | ok b => exact ih b (hq.2 b) fun u hu s' hs' => h u hu s' (hg.trans hs')

end Inquiry

namespace Evaluator

variable {e : Evaluator} {ask ask' : TypeRef → Query Bool} {c : ClassDecl} {t : TypeRef}
  {s s₂ : Session} {types : List TypeRef} {depth : Nat}

/-! ### Growth -/

/-- An evaluation opened, gone through and closed has grown the memo. -/
theorem grows_closed {key : MemoKey} {answer : Bool} (hkey : s.memo.state? key = none)
    (h : (opened s key).memo.Grows s₂.memo) : s.memo.Grows (closed s₂ key answer).memo :=
  (Memo.grows_lookup s.memo key).trans
    (Memo.grows_resolve h ((Memo.state?_lookup s.memo key).trans hkey))

section Growth

variable (hask : ∀ t, (ask t).Grows)
include hask

theorem grows_examineClass (c : ClassDecl) : (examineClass e ask c).Grows := by
  intro s
  cases hfound : (s.memo.lookup (.ofClass c.name.text)).1 with
  | some b =>
    rw [ask_examineClass_of_hit hfound]
    exact Memo.grows_lookup s.memo _
  | none =>
    have hkey := Memo.state?_of_lookup_fst_eq_none hfound
    have hgrows : (opened s (.ofClass c.name.text)).memo.Grows
        ((Rule.ofClass e.options ask c).ask (opened s (.ofClass c.name.text))).2.memo := by
      rw [← Inquiry.run_ofClass]
      exact Inquiry.grows_run hask _ _
    cases hbody : (Rule.ofClass e.options ask c).ask (opened s (.ofClass c.name.text)) with
    | mk result s₂ =>
      rw [hbody] at hgrows
      rw [ask_examineClass_of_miss hfound hbody]
      cases result with
      | error failure => exact grows_closed hkey hgrows
      | ok v =>
        rw [concluded, memo_closedBy]
        exact grows_closed hkey hgrows

theorem grows_examineNamed (t : TypeRef) : (examineNamed e ask t).Grows :=
  examineNamed_induction grows_pure (Inquiry.grows_run hask _) fun _ c _ _ =>
    grows_examineClass hask c

theorem grows_examineType (t : TypeRef) : (examineType e ask t).Grows := by
  refine examineType_induction grows_pure (fun ts => Inquiry.grows_run hask _)
    fun hnamed hstar s => ?_
  cases hfound : (s.memo.lookup (.ofType t.key)).1 with
  | some b =>
    rw [ask_examineType_of_hit hnamed hstar hfound]
    exact Memo.grows_lookup s.memo _
  | none =>
    have hkey := Memo.state?_of_lookup_fst_eq_none hfound
    have hgrows := grows_examineNamed hask t (e := e) (opened s (.ofType t.key))
    cases hbody : (examineNamed e ask t).ask (opened s (.ofType t.key)) with
    | mk result s₂ =>
      rw [hbody] at hgrows
      rw [ask_examineType_of_miss hnamed hstar hfound hbody]
      exact grows_closed hkey hgrows

end Growth

/-- **Whatever is asked, the memo grows.** -/
theorem grows_typeWithin (depth : Nat) (t : TypeRef) : (typeWithin e depth t).Grows := by
  induction depth generalizing t with
  | zero => exact grows_pure false
  | succ depth ih => exact grows_examineType ih t

theorem grows_classVerdict (c : ClassDecl) : (classVerdict e c).Grows :=
  grows_bind (grows_examineClass (grows_typeWithin _) c) fun _ s => .refl s.memo

theorem grows_functionVerdict (f : FunctionDecl) : (functionVerdict e f).Grows := by
  rw [functionVerdict, ← Inquiry.run_ofFunction]
  exact Inquiry.grows_run (grows_typeWithin _) _

theorem grows_propertyVerdict (p : PropertyDecl) : (propertyVerdict e p).Grows := by
  rw [propertyVerdict, ← Inquiry.run_ofProperty]
  exact Inquiry.grows_run (grows_typeWithin _) _

/-! ## The bound does not matter -/

variable (e) in
/-- Types in scope are answered alike, where at most so many need be examined
one inside another. -/
def AlikeWithin (types : List TypeRef) (depth : Nat) (ask ask' : TypeRef → Query Bool) : Prop :=
  ∀ t ∈ scope e types, ∀ s, need e types s.memo t ≤ depth → (ask t).ask s = (ask' t).ask s

section Alike

variable (hgrows : ∀ t, (ask t).Grows) (h : AlikeWithin e types depth ask ask')
include hgrows h

/-- Where there is room for all types in scope, classes are answered alike. -/
theorem AlikeWithin.ask_examineClass (hc : c ∈ e.classes) (hroom : room e types s.memo ≤ depth) :
    (examineClass e ask c).ask s = (examineClass e ask' c).ask s := by
  cases hfound : (s.memo.lookup (.ofClass c.name.text)).1 with
  | some b => rw [ask_examineClass_of_hit hfound, ask_examineClass_of_hit hfound]
  | none =>
    have hsame : (Rule.ofClass e.options ask c).ask (opened s (.ofClass c.name.text))
        = (Rule.ofClass e.options ask' c).ask (opened s (.ofClass c.name.text)) := by
      rw [← Inquiry.run_ofClass, ← Inquiry.run_ofClass]
      refine Inquiry.run_congr (Rule.within_ofClass e.options c) hgrows fun t ht s' hg => ?_
      have hscope : t ∈ scope e types := mem_scope_of_checks hc ht
      refine h t hscope s' ?_
      calc need e types s'.memo t
          ≤ room e types s'.memo := need_le_room hscope
        _ = room e types (opened s (.ofClass c.name.text)).memo := room_of_grows hg
        _ = room e types s.memo := room_opened_ofClass _
        _ ≤ depth := hroom
    cases hbody : (Rule.ofClass e.options ask c).ask (opened s (.ofClass c.name.text)) with
    | mk result s₂ =>
      have hbody' := hsame.symm.trans hbody
      rw [ask_examineClass_of_miss hfound hbody, ask_examineClass_of_miss hfound hbody']

theorem AlikeWithin.ask_examineNamed (ht : t ∈ scope e types)
    (hroom : room e types s.memo ≤ depth) :
    (examineNamed e ask t).ask s = (examineNamed e ask' t).ask s := by
  cases hbuiltin : (Builtin.ofType? t).isSome with
  | true =>
    rw [examineNamed_of_builtin hbuiltin, examineNamed_of_builtin hbuiltin]
    refine Inquiry.run_congr (Rule.within_accepts fun u hu => hu) hgrows fun u hu s' hg => ?_
    have hscope := mem_scope_of_mem_children ht (TypeRef.mem_children_of_element? hu)
    exact h u hscope s' (Nat.le_trans (need_le_room hscope) (room_of_grows hg ▸ hroom))
  | false =>
    cases hfound : t.className?.bind e.classNamed? with
    | none =>
      rw [examineNamed_of_unknown hbuiltin hfound, examineNamed_of_unknown hbuiltin hfound]
    | some c =>
      rw [examineNamed_of_class hbuiltin hfound, examineNamed_of_class hbuiltin hfound]
      obtain ⟨name, -, hname⟩ := Option.bind_eq_some_iff.mp hfound
      split
      · rfl
      · exact h.ask_examineClass hgrows (mem_classes_of_classNamed? hname) hroom

/-- **One step**: where types are answered alike to a depth, examined types are
answered alike one deeper. -/
theorem AlikeWithin.examineType :
    AlikeWithin e types (depth + 1) (examineType e ask) (examineType e ask') := by
  intro t ht s hneed
  cases hstar : t.hasStar with
  | true => rw [examineType_of_hasStar hstar, examineType_of_hasStar hstar]
  | false =>
    cases t with
    | dynamic => rfl
    | parameter name bounds nullable =>
      rw [examineType_parameter, examineType_parameter]
      refine Inquiry.run_congr (Inquiry.within_all fun u hu => hu) hgrows fun u hu s' hg => ?_
      have hchild : u ∈ (TypeRef.parameter name bounds nullable).children := hu
      refine h u (mem_scope_of_mem_children ht hchild) s' ?_
      -- nothing was put in flight, but the bound is smaller than the parameter
      have hsize := TypeRef.size_lt_of_mem_children hchild
      rw [need_of_grows hg]
      unfold need at hneed ⊢
      omega
    | named name args nullable =>
      cases hfound : (s.memo.lookup (.ofType (TypeRef.named name args nullable).key)).1 with
      | some b =>
        rw [ask_examineType_of_hit rfl hstar hfound, ask_examineType_of_hit rfl hstar hfound]
      | none =>
        -- the key of the type is in flight now, which makes room for the whole scope again
        have hroom := room_opened_lt_need ht (Memo.state?_of_lookup_fst_eq_none hfound)
        have hsame := h.ask_examineNamed hgrows ht (Nat.le_of_lt_succ (hroom.trans_le hneed))
        cases hbody : (examineNamed e ask (.named name args nullable)).ask
            (opened s (.ofType (TypeRef.named name args nullable).key)) with
        | mk result s₂ =>
          have hbody' := hsame.symm.trans hbody
          rw [ask_examineType_of_miss rfl hstar hfound hbody,
            ask_examineType_of_miss rfl hstar hfound hbody']

end Alike

/-- **A higher bound changes nothing.** -/
theorem alikeWithin_typeWithin (depth more : Nat) :
    AlikeWithin e types depth (typeWithin e depth) (typeWithin e (depth + more)) := by
  induction depth with
  | zero =>
    intro t _ s hneed
    exact absurd hneed (Nat.not_le.mpr (need_pos s.memo t))
  | succ depth ih =>
    rw [Nat.add_right_comm]
    exact ih.examineType (grows_typeWithin depth)

/-- **Two bounds that leave room for a type** give one answer and one session. -/
theorem typeWithin_congr {types' : List TypeRef} {depth depth' : Nat} (ht : t ∈ scope e types)
    (ht' : t ∈ scope e types') (hneed : need e types s.memo t ≤ depth)
    (hneed' : need e types' s.memo t ≤ depth') :
    (typeWithin e depth t).ask s = (typeWithin e depth' t).ask s := by
  rcases Nat.le_total depth depth' with hle | hle
  · obtain ⟨more, rfl⟩ := Nat.exists_eq_add_of_le hle
    exact alikeWithin_typeWithin depth more t ht s hneed
  · obtain ⟨more, rfl⟩ := Nat.exists_eq_add_of_le hle
    exact (alikeWithin_typeWithin depth' more t ht' s hneed').symm

theorem ask_typeWithin_eq_typeExportable (ht : t ∈ scope e types)
    (hneed : need e types s.memo t ≤ depth) :
    (typeWithin e depth t).ask s = (typeExportable e t).ask s := by
  have hself : t ∈ scope e [t] := mem_scope_of_mem (List.mem_singleton_self t)
  exact typeWithin_congr ht hself hneed ((need_le_room hself).trans room_le_bound)

/-- **The equation of the evaluation**: a type can be exported where examining
it says so, with each question inside put to the evaluator anew. -/
theorem ask_typeExportable_eq (e : Evaluator) (t : TypeRef) (s : Session) :
    (typeExportable e t).ask s = (examineType e (typeExportable e) t).ask s := by
  have hself : t ∈ scope e [t] := mem_scope_of_mem (List.mem_singleton_self t)
  have hneed : need e [t] s.memo t ≤ e.bound [t] := (need_le_room hself).trans room_le_bound
  obtain ⟨depth, hdepth⟩ : ∃ depth, e.bound [t] = depth + 1 :=
    Nat.exists_eq_add_one.mpr (Nat.mul_pos (Nat.succ_pos _) (Nat.succ_pos _))
  have hstep : AlikeWithin e [t] (depth + 1) (examineType e (typeWithin e depth))
      (examineType e (typeExportable e)) :=
    AlikeWithin.examineType (grows_typeWithin depth) fun u hu s' hu' =>
      ask_typeWithin_eq_typeExportable hu hu'
  rw [typeExportable, hdepth]
  exact hstep t hself s (hdepth ▸ hneed)

/-! ## Questions without their bounds -/

/-- What a class asks about is in the scope of its own types. -/
theorem mem_scope_types_of_checks (h : c.Checks t) : t ∈ scope e c.types := by
  rcases h with h | ⟨a, ha, hel⟩
  · exact mem_scope_of_mem (mem_types_of_mem_surfaceTypes h)
  · exact mem_scope_of_mem_children (mem_scope_of_mem (mem_types_of_mem_surfaceTypes ha))
      (TypeRef.mem_children_of_element? hel)

/-- **A rule put with the bound of its types** goes as it does without one. -/
theorem ask_run_typeWithin {α : Type} {q : Inquiry α} (hq : q.Within (· ∈ scope e types)) :
    (q.run (typeWithin e (e.bound types))).ask s = (q.run (typeExportable e)).ask s :=
  Inquiry.run_congr hq (grows_typeWithin _) fun _ ht _ _ =>
    ask_typeWithin_eq_typeExportable ht ((need_le_room ht).trans room_le_bound)

/-- **A class put with the bound of its types** is examined as without one. -/
theorem ask_classExportable_eq (e : Evaluator) (c : ClassDecl) (s : Session) :
    (classExportable e c).ask s = (examineClass e (typeExportable e) c).ask s := by
  rw [classExportable]
  cases hfound : (s.memo.lookup (.ofClass c.name.text)).1 with
  | some b => rw [ask_examineClass_of_hit hfound, ask_examineClass_of_hit hfound]
  | none =>
    have hsame : (Rule.ofClass e.options (typeWithin e (e.bound c.types)) c).ask
          (opened s (.ofClass c.name.text))
        = (Rule.ofClass e.options (typeExportable e) c).ask (opened s (.ofClass c.name.text)) := by
      rw [← Inquiry.run_ofClass, ← Inquiry.run_ofClass]
      exact ask_run_typeWithin
        ((Rule.within_ofClass e.options c).imp fun t ht => mem_scope_types_of_checks ht)
    cases hbody : (Rule.ofClass e.options (typeExportable e) c).ask
        (opened s (.ofClass c.name.text)) with
    | mk result s₂ =>
      rw [ask_examineClass_of_miss hfound hbody,
        ask_examineClass_of_miss hfound (hsame.trans hbody)]

end Evaluator

end ExportSurface
