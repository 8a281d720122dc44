import ExportSurface.Proofs.Course
import ExportSurface.Proofs.Questions
import Mathlib.Data.Finset.Card
import Mathlib.Data.Finset.Dedup
/-!
# Open evaluations

While a question is answered, evaluations are open inside one another. Their
keys are those that the memo has in flight (`Evaluator.Tracks`), no two of them
alike, since an evaluation is opened only for a key that has no entry. And each
is the name of a class of the evaluator or of the class in question, or the key
of a class type that occurs in those classes or in the question
(`Evaluator.Question.keys`). So however often a class comes back to itself, no
more evaluations are open at a moment than there are such keys
(`Evaluator.course_of_question`).
-/

namespace ExportSurface

namespace Evaluator

/-! ## What a question has evaluated -/

namespace Question

/-- The class that a question is about, if it is about one. -/
def class? : Question → Option ClassDecl
  | .classExportable c => some c
  | .classVerdict c => some c
  | .typeExportable _ => none
  | .functionVerdict _ => none
  | .constructorVerdict _ => none
  | .propertyVerdict _ => none

/-- Whether a question about a class is about the one that the index finds. -/
def Indexed (e : Evaluator) (q : Question) : Prop :=
  ∀ c, q.class? = some c → e.classNamed? c.name = some c

/-- What is evaluated for a question. -/
def task (e : Evaluator) : Question → Task Bool
  | .typeExportable t => .ofType t
  | .classExportable c => .ofClass c
  | .classVerdict c => .ofClass c
  | .functionVerdict f => .ofRule (Verdict.isExportable <$> Rule.ofFunction Inquiry.put f)
  | .constructorVerdict k => .ofRule (Verdict.isExportable <$> Rule.ofConstructor Inquiry.put k)
  | .propertyVerdict p =>
    .ofRule (Verdict.isExportable <$> Rule.ofProperty e.options Inquiry.put p)

/-- The answer to a question, in the session that its evaluation has left with a
value: the verdict on a class is looked up there. -/
def reading (s : Session) : Question → Bool → Bool
  | .classVerdict c, _ => ((s.verdicts.lookup c.name).getD .exportable).isExportable
  | .typeExportable _, b => b
  | .classExportable _, b => b
  | .functionVerdict _, b => b
  | .constructorVerdict _, b => b
  | .propertyVerdict _, b => b

/-- The keys that evaluations can have while a question is answered: the names
of the classes of the evaluator and of the class in question, and the keys of
all class types inside the types of those classes and of the question. -/
def keys (e : Evaluator) (q : Question) : List MemoKey :=
  (e.classes ++ q.class?.toList).map (fun c => .ofClass c.name.text) ++
    ((scope e q.mentioned).filter (·.className?.isSome)).map fun t => .ofType t.key

end Question

variable {e : Evaluator} {α : Type} {stack : List MemoKey} {task : Task α} {s s' s₂ : Session}
  {moments : List Moment} {r : Ending α} {t : TypeRef} {c : ClassDecl} {m m' : Memo}
  {key : MemoKey} {types : List TypeRef} {q : Question}

theorem within_types_of_task {i : Inquiry Bool} (h : q.task e = .ofRule i) :
    i.Within (· ∈ scope e q.mentioned) := by
  cases q with
  | typeExportable t => cases h
  | classExportable c => cases h
  | classVerdict c => cases h
  | functionVerdict f =>
    cases h
    exact (Rule.within_ofFunction fun t ht => mem_scope_of_mem ht).map
  | constructorVerdict k =>
    cases h
    exact (Rule.within_ofConstructor fun t ht => mem_scope_of_mem ht).map
  | propertyVerdict p =>
    cases h
    exact (Rule.within_ofProperty fun t ht => mem_scope_of_mem ht).map

theorem ask_put_of_rule {i : Inquiry Verdict} {v : Query Verdict} {result : Except ModuleError Bool}
    (hi : i.Within (· ∈ types)) (hv : i.run (typeWithin e (e.bound types)) = v)
    (h : ((Task.ofRule (Verdict.isExportable <$> i)).query e).ask s = (result, s')) :
    (Verdict.isExportable <$> v).ask s = (result, s') := by
  have hscope : i.Within (· ∈ scope e types) := hi.imp fun t ht => mem_scope_of_mem ht
  rw [← hv, ← Inquiry.run_map, ask_run_typeWithin hscope.map]
  exact h

/-- **A question is answered by its evaluation.** -/
theorem ask_put_of_ask_task {result : Except ModuleError Bool}
    (h : ((q.task e).query e).ask s = (result, s')) :
    (q.put e).ask s = (result.map (q.reading s'), s') := by
  have hid : result.map (fun b => b) = result := by
    cases result with
    | error failure => rfl
    | ok b => rfl
  cases q with
  | typeExportable t =>
    change _ = (result.map (fun b => b), s')
    rw [hid]
    exact h
  | classExportable c =>
    change _ = (result.map (fun b => b), s')
    rw [hid]
    exact (ask_classExportable_eq e c s).trans h
  | classVerdict c =>
    have hclass : (classExportable e c).ask s = (result, s') :=
      (ask_classExportable_eq e c s).trans h
    rw [Question.put, classVerdict, map_eq_pure_bind, Query.ask_bind, Query.ask_bind, hclass]
    cases result with
    | error failure => rfl
    | ok b => rfl
  | functionVerdict f =>
    change _ = (result.map (fun b => b), s')
    rw [hid]
    exact ask_put_of_rule (Rule.within_ofFunction fun t ht => ht) (Inquiry.run_ofFunction _ f) h
  | constructorVerdict k =>
    change _ = (result.map (fun b => b), s')
    rw [hid]
    exact ask_put_of_rule (Rule.within_ofConstructor fun t ht => ht)
      (Inquiry.run_ofConstructor _ k) h
  | propertyVerdict p =>
    change _ = (result.map (fun b => b), s')
    rw [hid]
    exact ask_put_of_rule (Rule.within_ofProperty fun t ht => ht)
      (Inquiry.run_ofProperty _ e.options p) h

theorem Course.ask_put_eq {r : Ending Bool} (h : Course e stack (q.task e) s moments r s') :
    (q.put e).ask s = (r.result.map (q.reading s'), s') :=
  ask_put_of_ask_task h.ask_eq

theorem grows_put (q : Question) : (q.put e).Grows := by
  intro s
  have hgrows := (q.task e).grows_query (e := e) s
  cases hask : ((q.task e).query e).ask s with
  | mk result s' =>
    rw [hask] at hgrows
    rw [ask_put_of_ask_task hask]
    exact hgrows

/-- The evaluation for a question takes a course. -/
theorem terminates_task (e : Evaluator) (q : Question) (s : Session) :
    Terminates e (q.task e) s := by
  cases htask : q.task e with
  | ofType t => exact terminates_ofType e t s
  | ofClass c => exact terminates_ofClass fun t _ s' _ => terminates_ofType e t s'
  | ofRule i =>
    exact terminates_ofRule (within_types_of_task htask) fun t _ s' _ => terminates_ofType e t s'

/-! ## The memo and the stack -/

/-- The entries of a memo in flight are those with the keys on a stack. -/
structure Tracks (stack : List MemoKey) (m : Memo) : Prop where
  nodup : stack.Nodup
  mem_iff : ∀ key, key ∈ stack ↔ isOpen m key = true
  length_eq : stack.length = m.openCount

theorem tracks_empty : Tracks [] {} := ⟨List.nodup_nil, fun _ => ⟨nofun, nofun⟩, rfl⟩

theorem Tracks.of_grows (h : Tracks stack m) (hgrows : m.Grows m') : Tracks stack m' where
  nodup := h.nodup
  mem_iff k := (h.mem_iff k).trans (by rw [isOpen_of_grows hgrows])
  length_eq := h.length_eq.trans hgrows.openCount.symm

/-- An evaluation is opened for a key that is not on the stack. -/
theorem Tracks.opened (h : Tracks stack s.memo) (hkey : s.memo.state? key = none) :
    Tracks (key :: stack) (opened s key).memo := by
  have h' := h.of_grows (Memo.grows_lookup s.memo key)
  refine ⟨List.nodup_cons.mpr ⟨fun hmem => ?_, h.nodup⟩, fun k => ?_,
    congrArg Nat.succ h'.length_eq⟩
  · have hopen := (h.mem_iff key).mp hmem
    rw [isOpen, hkey] at hopen
    cases hopen
  · by_cases hk : k = key
    · subst hk
      exact iff_of_true List.mem_cons_self (isOpen_begin_self _ k)
    · rw [List.mem_cons, or_iff_right hk, h'.mem_iff]
      exact (isOpen_begin_of_ne hk ▸ Iff.rfl)

/-! ## Moments in order -/

/-- A moment in order while a question is answered: the keys on its stack are
those in flight, no two of them alike, and the question gives rise to them. -/
structure Moment.Orderly (e : Evaluator) (q : Question) (now : Moment) : Prop
    extends Tracks now.stack now.memo where
  subset : now.stack ⊆ q.keys e

/-- Keys of a question, no two of them alike, are no more than it has. -/
theorem Moment.Orderly.length_le {now : Moment} (h : now.Orderly e q) :
    now.stack.length ≤ (q.keys e).toFinset.card := by
  rw [← List.toFinset_card_of_nodup h.nodup]
  refine Finset.card_le_card fun key hkey => ?_
  exact List.mem_toFinset.mpr (h.subset (List.mem_toFinset.mp hkey))

theorem Question.mentioned_of_class? (h : q.class? = some c) : q.mentioned = c.types := by
  cases q with
  | classExportable d => exact Option.some.inj h ▸ rfl
  | classVerdict d => exact Option.some.inj h ▸ rfl
  | _ => cases h

/-- The classes and types that a question gives rise to. -/
def Arises (e : Evaluator) (q : Question) (task : Task α) : Prop :=
  task.Of (· ∈ e.classes ++ q.class?.toList) (· ∈ scope e q.mentioned)

/-- They lead to no others. -/
theorem confined_question (e : Evaluator) (q : Question) :
    Confined e (· ∈ e.classes ++ q.class?.toList) (· ∈ scope e q.mentioned) where
  child ht hu := mem_scope_of_mem_children ht hu
  found hc := List.mem_append_left _ (mem_classes_of_classNamed? hc)
  checked {c t} hc ht := by
    rcases List.mem_append.mp hc with hclass | hasked
    · exact mem_scope_of_checks hclass ht
    · rw [Question.mentioned_of_class? (Option.mem_toList.mp hasked)]
      exact mem_scope_types_of_checks ht

/-- What is evaluated for a question is about its class and the types in its
scope. -/
theorem of_task {C : ClassDecl → Prop} (hC : ∀ c, q.class? = some c → C c) :
    (q.task e).Of C (· ∈ scope e q.mentioned) := by
  cases htask : q.task e with
  | ofRule i => exact within_types_of_task htask
  | ofType t =>
    cases q with
    | typeExportable u =>
      cases htask
      exact mem_scope_of_mem (List.mem_singleton_self t)
    | _ => cases htask
  | ofClass c =>
    cases q with
    | classExportable d =>
      cases htask
      exact hC c rfl
    | classVerdict d =>
      cases htask
      exact hC c rfl
    | _ => cases htask

theorem arises_task (e : Evaluator) (q : Question) : Arises e q (q.task e) :=
  of_task fun _ hc => List.mem_append_right _ (Option.mem_toList.mpr hc)

theorem mem_keys_of_type (h : t ∈ scope e q.mentioned) (ht : t.IsRemembered) :
    .ofType t.key ∈ q.keys e :=
  List.mem_append_right _ (List.mem_map_of_mem (List.mem_filter.mpr ⟨h, ht.1⟩))

theorem mem_keys_of_class (h : c ∈ e.classes ++ q.class?.toList) :
    .ofClass c.name.text ∈ q.keys e :=
  List.mem_append_left _ (List.mem_map.mpr ⟨c, h, rfl⟩)

/-- An evaluation opened, gone through and closed keeps its moments in order. -/
theorem orderly_closed (htracks : Tracks stack s.memo) (hstack : stack ⊆ q.keys e)
    (hkey : s.memo.state? key = none) (hmem : key ∈ q.keys e) (hgrows : s.memo.Grows m)
    (hin : Tracks (key :: stack) (opened s key).memo → key :: stack ⊆ q.keys e →
      ∀ now ∈ moments, now.Orderly e q) :
    ∀ now ∈ ⟨key :: stack, (opened s key).memo⟩ :: moments ++ [⟨stack, m⟩], now.Orderly e q := by
  have hopened := htracks.opened hkey
  have hsubset := List.cons_subset.mpr ⟨hmem, hstack⟩
  intro now hnow
  rw [List.cons_append, List.mem_cons, List.mem_append, List.mem_singleton] at hnow
  rcases hnow with rfl | hnow | rfl
  · exact ⟨hopened, hsubset⟩
  · exact hin hopened hsubset now hnow
  · exact ⟨htracks.of_grows hgrows, hstack⟩

/-- **One step after another keeps the moments in order.** -/
theorem Course.orderly (h : Course e stack task s moments r s') (harises : Arises e q task)
    (htracks : Tracks stack s.memo) (hstack : stack ⊆ q.keys e) :
    ∀ now ∈ moments, now.Orderly e q := by
  induction h with
  | done => exact fun now hnow => nomatch hnow
  | fail => exact fun now hnow => nomatch hnow
  | ask hfirst _ first rest =>
    intro now hnow
    rcases List.mem_append.mp hnow with hnow | hnow
    · exact first harises.1 htracks hstack now hnow
    · exact rest (harises.2 _) (htracks.of_grows hfirst.grows) hstack now hnow
  | askBroken _ ih => exact ih harises.1 htracks hstack
  | transient _ _ ih => exact ih ((confined_question e q).inside harises) htracks hstack
  | @typeKnown stack s t b _ _ =>
    intro now hnow
    rw [List.mem_singleton] at hnow
    subst hnow
    exact ⟨htracks.of_grows (Memo.grows_lookup s.memo _), hstack⟩
  | typeExamined ht hfound hin ih =>
    refine orderly_closed htracks hstack (Memo.state?_of_lookup_fst_eq_none hfound)
      (mem_keys_of_type harises ht) ?_ fun hopened hsubset =>
        ih ((confined_question e q).inside harises) hopened hsubset
    exact (Course.typeExamined ht hfound hin).grows
  | @classKnown stack s c b _ =>
    intro now hnow
    rw [List.mem_singleton] at hnow
    subst hnow
    exact ⟨htracks.of_grows (Memo.grows_lookup s.memo _), hstack⟩
  | classExamined hfound hin ih =>
    refine orderly_closed htracks hstack (Memo.state?_of_lookup_fst_eq_none hfound)
      (mem_keys_of_class harises) ?_ fun hopened hsubset =>
        ih ((confined_question e q).rule harises) hopened hsubset
    exact (Course.classExamined hfound hin).grows

/-! ## Questions one after another -/

/-- The session that questions put one after another leave behind. -/
def after (e : Evaluator) (s : Session) : List Question → Session
  | [] => s
  | q :: qs => after e ((q.put e).ask s).2 qs

theorem grows_after (e : Evaluator) (s : Session) (qs : List Question) :
    s.memo.Grows (after e s qs).memo := by
  induction qs generalizing s with
  | nil => exact .refl s.memo
  | cons q qs ih => exact (grows_put q s).trans (ih _)

/-- **Every evaluation comes to an end, and no more are open than there are keys.**
After any questions put to an evaluator of a module, whatever they came to, the
next one has an evaluation that takes a course, and so a finite one, and any course
it takes ends with the evaluator's answer. At each of its moments the keys of the
open evaluations are those that the memo has in flight, no two of them alike, each
is the name of a class of the evaluator or of the class in question, or the key of
a class type inside the types of those classes or of the question, and no more are
open than there are such keys. No condition is put on the module. -/
theorem course_of_question (m : SourceModule) (options : RuleOptions) (before : List Question)
    (q : Question) :
    (∃ moments r s', Course (ofModule m options) [] (q.task (ofModule m options))
      (after (ofModule m options) {} before) moments r s') ∧
    ∀ moments r s', Course (ofModule m options) [] (q.task (ofModule m options))
        (after (ofModule m options) {} before) moments r s' →
      (q.put (ofModule m options)).ask (after (ofModule m options) {} before)
          = (r.result.map (q.reading s'), s') ∧
      ∀ now ∈ moments, now.Orderly (ofModule m options) q ∧
        now.stack.length ≤ (q.keys (ofModule m options)).toFinset.card := by
  refine ⟨terminates_task _ q _ [], fun moments r s' h => ⟨h.ask_put_eq, fun now hnow => ?_⟩⟩
  have htracks := tracks_empty.of_grows (grows_after (ofModule m options) {} before)
  have horderly := h.orderly (arises_task _ q) htracks (List.nil_subset _) now hnow
  exact ⟨horderly, horderly.length_le⟩

end Evaluator

end ExportSurface
