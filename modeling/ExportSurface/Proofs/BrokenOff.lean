import ExportSurface.Proofs.Namesakes
import ExportSurface.Proofs.OpenEvaluations
/-!
# Evaluations broken off

The answer on a class is in the memo, the verdict that goes with it in a table
beside it, and where the table has none, a class passes for exportable. The two
are kept in step, except that a failure closes every open evaluation with a
`false` and leaves no verdict (`Evaluator.Paired`). So the answer on a class and
the verdict on it agree just where no failure has broken an evaluation of a
class of its name off, and where one has, the answer is no and the verdict is
yes ever after (`Evaluator.verdict_agrees_iff`).
-/

namespace ExportSurface

/-- The answer that an entry has been resolved with. -/
def MemoState.answer? : MemoState → Option Bool
  | .inFlight _ => none
  | .resolved answer => some answer

/-- The answer that the memo keeps for a key. -/
def Memo.answer? (m : Memo) (key : MemoKey) : Option Bool :=
  (m.state? key).bind MemoState.answer?

namespace Evaluator

variable {e : Evaluator} {α : Type} {stack : List MemoKey} {task : Task α} {s s' s₂ : Session}
  {moments : List Moment} {r : Ending α} {t : TypeRef} {c : ClassDecl} {m m₁ : Memo}
  {key k : MemoKey} {answer b : Bool} {v : Verdict} {broken broken' : Set MemoKey}
  {q : Question} {qs : List Question}

theorem answer?_of_grows_begin (h : (m.begin key).Grows m₁) : m₁.answer? key = none := by
  rw [Memo.answer?, Memo.state?_of_grows_begin h]
  rfl

theorem answer?_opened (hkey : s.memo.state? key = none) (k : MemoKey) :
    (opened s key).memo.answer? k = s.memo.answer? k := by
  change ((s.memo.lookup key).2.begin key).answer? k = _
  by_cases hk : k = key
  · subst hk
    rw [Memo.answer?, Memo.answer?, Memo.state?_begin_self, hkey]
    rfl
  · rw [Memo.answer?, Memo.answer?, Memo.state?_begin_of_ne hk, Memo.state?_lookup]

theorem answer?_closed_of_ne (h : k ≠ key) : (closed s key b).memo.answer? k = s.memo.answer? k :=
  congrArg (·.bind MemoState.answer?) (Memo.state?_resolve_of_ne h)

/-! ## Answers and verdicts -/

/-- The answers of the memo and the verdicts beside it, with evaluations of some
keys broken off: they go together, but for those keys, which have a `false` and
no verdict. -/
structure Paired (broken : Set MemoKey) (s : Session) : Prop where
  rejected : ∀ key ∈ broken, s.memo.answer? key = some false
  silent : ∀ name : QualifiedName, .ofClass name.text ∈ broken → s.verdicts.lookup name = none
  recorded : ∀ name : QualifiedName, .ofClass name.text ∉ broken →
    (s.verdicts.lookup name).map (·.isExportable) = s.memo.answer? (.ofClass name.text)

namespace Paired

theorem empty : Paired ∅ {} := ⟨nofun, nofun, fun _ _ => rfl⟩

/-- An evaluation without an answer has no verdict either, and was not broken
off. -/
theorem lookup_eq_none {name : QualifiedName} (hs : Paired broken s)
    (h : s.memo.answer? (.ofClass name.text) = none) : s.verdicts.lookup name = none := by
  by_cases hmem : .ofClass name.text ∈ broken
  · exact hs.silent name hmem
  · have hrecorded := hs.recorded name hmem
    rw [h] at hrecorded
    exact Option.map_eq_none_iff.mp hrecorded

theorem not_mem (hs : Paired broken s) (h : s.memo.answer? key = none) : key ∉ broken := by
  intro hmem
  cases h.symm.trans (hs.rejected key hmem)

/-- Pairing hangs on the answers and verdicts alone. -/
theorem of_answer?_eq (hs : Paired broken s) (hverdicts : s'.verdicts = s.verdicts)
    (h : ∀ k, s'.memo.answer? k = s.memo.answer? k) : Paired broken s' where
  rejected k hk := (h k).trans (hs.rejected k hk)
  silent name hname := hverdicts ▸ hs.silent name hname
  recorded name hname := by rw [hverdicts, h, hs.recorded name hname]

theorem lookup (hs : Paired broken s) (key : MemoKey) :
    Paired broken { s with memo := (s.memo.lookup key).2 } :=
  hs.of_answer?_eq rfl fun _ => congrArg (·.bind MemoState.answer?) (Memo.state?_lookup s.memo key)

theorem opened (hs : Paired broken s) (hkey : s.memo.state? key = none) :
    Paired broken (opened s key) :=
  hs.of_answer?_eq rfl (answer?_opened hkey)

/-- The evaluation of a type is closed with a value. -/
theorem closed_ofType {name : String} (hs : Paired broken s)
    (h : s.memo.answer? (.ofType name) = none) : Paired broken (closed s (.ofType name) b) where
  rejected k hk := by
    have hne : k ≠ .ofType name := fun heq => hs.not_mem h (heq ▸ hk)
    exact (answer?_closed_of_ne hne).trans (hs.rejected k hk)
  silent := hs.silent
  recorded name' hname' := by
    have hne : MemoKey.ofClass name'.text ≠ .ofType name := fun heq => nomatch heq
    exact (hs.recorded name' hname').trans (answer?_closed_of_ne hne).symm

/-- **The evaluation of a class is closed with a verdict**, which is remembered if
the answer is kept. -/
theorem closedBy (hs : Paired broken s) (h : s.memo.answer? (.ofClass c.name.text) = none) :
    Paired broken (closedBy s c v) := by
  have hself := hs.lookup_eq_none h
  have hmemo := memo_closedBy s c v
  have hkey : ∀ name : QualifiedName, name ≠ c.name →
      MemoKey.ofClass name.text ≠ .ofClass c.name.text := fun name hne heq =>
    hne (QualifiedName.eq_of_text_eq (MemoKey.ofClass.inj heq))
  have hanswer : ∀ k, k ≠ .ofClass c.name.text →
      (Evaluator.closedBy s c v).memo.answer? k = s.memo.answer? k := by
    intro k hk
    rw [hmemo]
    exact congrArg (·.bind MemoState.answer?) (Memo.state?_resolve_of_ne hk)
  have hverdict : ∀ name : QualifiedName, name ≠ c.name →
      (Evaluator.closedBy s c v).verdicts.lookup name = s.verdicts.lookup name := by
    intro name hne
    unfold Evaluator.closedBy
    split
    · have hfalse : (name == c.name) = false := by simpa using hne
      change List.lookup name ((c.name, v) :: s.verdicts) = _
      rw [List.lookup_cons, hfalse]
    · rfl
  refine ⟨fun k hk => ?_, fun name hname => ?_, fun name hname => ?_⟩
  · have hne : k ≠ .ofClass c.name.text := fun heq => hs.not_mem h (heq ▸ hk)
    exact (hanswer k hne).trans (hs.rejected k hk)
  · have hne : name ≠ c.name := fun heq => hs.not_mem h (heq ▸ hname)
    exact (hverdict name hne).trans (hs.silent name hname)
  · by_cases hne : name = c.name
    · subst hne
      rw [hmemo, Memo.answer?, Memo.state?_resolve_self, Evaluator.closedBy]
      cases hkept : (s.memo.resolve (.ofClass c.name.text) v.isExportable).1 with
      | true =>
        rw [if_pos rfl, if_pos rfl]
        exact congrArg _ List.lookup_cons_self
      | false =>
        rw [if_neg (by simp), if_neg (by simp)]
        exact congrArg _ hself
    · rw [hverdict name hne, hanswer _ (hkey name hne)]
      exact hs.recorded name hname

/-- **An evaluation is broken off**: it is closed with a `false`, and no verdict
is remembered. -/
theorem closed_broken (hs : Paired broken s) (hgrows : (m.begin key).Grows s.memo) :
    Paired (insert key broken) (closed s key false) := by
  have hopen := answer?_of_grows_begin hgrows
  have hkept : (closed s key false).memo.answer? key = some false := by
    have hstate : (s.memo.resolve key false).2.state? key = some (.resolved false) :=
      (Memo.state?_resolve_eq_some_iff hgrows).mpr ⟨rfl, nofun⟩
    exact congrArg (·.bind MemoState.answer?) hstate
  refine ⟨fun k hk => ?_, fun name hname => ?_, fun name hname => ?_⟩
  · by_cases hself : k = key
    · exact hself ▸ hkept
    · rw [answer?_closed_of_ne hself]
      exact hs.rejected k (hk.resolve_left hself)
  · by_cases hself : .ofClass name.text = key
    · exact hs.lookup_eq_none (hself ▸ hopen)
    · exact hs.silent name (hname.resolve_left hself)
  · obtain ⟨hself, hmem⟩ := not_or.mp hname
    rw [answer?_closed_of_ne hself]
    exact hs.recorded name hmem

/-- Where an answer is kept, the verdict found agrees with it just if no
evaluation of the name was broken off. -/
theorem reads {name : QualifiedName} (hs : Paired broken s)
    (h : s.memo.answer? (.ofClass name.text) = some b) :
    (.ofClass name.text ∉ broken →
        ((s.verdicts.lookup name).getD .exportable).isExportable = b) ∧
      (.ofClass name.text ∈ broken →
        b = false ∧ (s.verdicts.lookup name).getD .exportable = .exportable) := by
  constructor
  · intro hmem
    have hrecorded := hs.recorded name hmem
    rw [h] at hrecorded
    obtain ⟨v, hv, hvb⟩ := Option.map_eq_some_iff.mp hrecorded
    rw [hv]
    exact hvb
  · intro hmem
    rw [hs.silent name hmem]
    exact ⟨Option.some.inj (h.symm.trans (hs.rejected _ hmem)), rfl⟩

end Paired

/-! ## Courses -/

/-- **A course keeps answers and verdicts paired**, but for the evaluations that it
breaks off. -/
theorem Course.paired (h : Course e stack task s moments r s') (hs : Paired broken s) :
    Paired ({k | k ∈ r.brokenOff} ∪ broken) s' := by
  have hnone : ∀ broken : Set MemoKey, {k | k ∈ ([] : List MemoKey)} ∪ broken = broken :=
    fun broken => Set.ext fun k => ⟨fun hk => hk.resolve_left nofun, Or.inr⟩
  have hcons : ∀ (key : MemoKey) (keys : List MemoKey) (broken : Set MemoKey),
      {k | k ∈ key :: keys} ∪ broken = insert key ({k | k ∈ keys} ∪ broken) :=
    fun key keys broken => Set.ext fun k => by simp [or_assoc]
  induction h generalizing broken with
  | done => exact (hnone broken).symm ▸ hs
  | fail => exact (hnone broken).symm ▸ hs
  | ask _ _ first rest => exact rest (hnone broken ▸ first hs)
  | askBroken _ ih => exact ih hs
  | transient _ _ ih => exact ih hs
  | typeKnown _ _ => exact (hnone broken).symm ▸ hs.lookup _
  | @typeExamined stack s s₂ t moments r _ hfound hin ih =>
    have hs₂ := ih (hs.opened (Memo.state?_of_lookup_fst_eq_none hfound))
    cases r with
    | value b => exact hs₂.closed_ofType (answer?_of_grows_begin hin.grows)
    | broken failure keys =>
      rw [Ending.closing, Ending.brokenOff, hcons]
      exact hs₂.closed_broken hin.grows
  | classKnown _ => exact (hnone broken).symm ▸ hs.lookup _
  | @classExamined stack s s₂ c moments r hfound hin ih =>
    have hs₂ := ih (hs.opened (Memo.state?_of_lookup_fst_eq_none hfound))
    cases r with
    | value v => exact hs₂.closedBy (answer?_of_grows_begin hin.grows)
    | broken failure keys =>
      rw [Ending.map, Ending.closing, Ending.brokenOff, hcons]
      exact hs₂.closed_broken hin.grows

/-- Whether an evaluation of a key is broken off while questions are put one
after another, from a session on. -/
def BrokenOff (e : Evaluator) (key : MemoKey) (s : Session) : List Question → Prop
  | [] => False
  | q :: qs =>
    (∃ moments r s', Course e [] (q.task e) s moments r s' ∧ key ∈ r.brokenOff) ∨
      BrokenOff e key ((q.put e).ask s).2 qs

theorem Paired.after (hs : Paired broken s) (qs : List Question) :
    Paired {key | BrokenOff e key s qs ∨ key ∈ broken} (after e s qs) := by
  induction qs generalizing s broken with
  | nil =>
    have hbroken : {key | BrokenOff e key s [] ∨ key ∈ broken} = broken :=
      Set.ext fun key => or_iff_right id
    exact hbroken.symm ▸ hs
  | cons q qs ih =>
    obtain ⟨moments, r, s', hcourse⟩ := terminates_task e q s []
    have hsession : ((q.put e).ask s).2 = s' := congrArg Prod.snd hcourse.ask_put_eq
    have hafter := ih (hsession ▸ hcourse.paired hs)
    have hbroken : {key | BrokenOff e key s (q :: qs) ∨ key ∈ broken}
        = {key | BrokenOff e key ((q.put e).ask s).2 qs ∨
          key ∈ {k | k ∈ r.brokenOff} ∪ broken} := by
      ext key
      -- the question has no other course
      have hfirst : (∃ moments r s', Course e [] (q.task e) s moments r s' ∧ key ∈ r.brokenOff) ↔
          key ∈ r.brokenOff :=
        ⟨fun ⟨_, _, _, h, hkey⟩ => (hcourse.unique h).2.1 ▸ hkey,
          fun hkey => ⟨_, _, _, hcourse, hkey⟩⟩
      change (_ ∨ _) ∨ _ ↔ _ ∨ _ ∨ _
      rw [hfirst, or_assoc, or_left_comm]
      exact Iff.rfl
    exact hbroken.symm ▸ hafter

/-! ## The answer on a class and the verdict -/

/-- In a session, the answer on a class and the verdict on it are asked for one
after the other, in either order, and both are given. -/
def AnswersInTurn (e : Evaluator) (c : ClassDecl) (s : Session) (b : Bool) (v : Verdict) : Prop :=
  ((classExportable e c).ask s).1 = .ok b ∧
      ((classVerdict e c).ask ((classExportable e c).ask s).2).1 = .ok v ∨
    ((classVerdict e c).ask s).1 = .ok v ∧
      ((classExportable e c).ask ((classVerdict e c).ask s).2).1 = .ok b

/-- An answer on a class that is kept is given again. -/
theorem ask_classExportable_of_answer? (h : s.memo.answer? (.ofClass c.name.text) = some b) :
    (classExportable e c).ask s
      = (.ok b, { s with memo := (s.memo.lookup (.ofClass c.name.text)).2 }) := by
  refine ask_examineClass_of_hit ?_
  obtain ⟨state, hstate, hanswer⟩ := Option.bind_eq_some_iff.mp h
  cases state with
  | inFlight depth => cases hanswer
  | resolved answer =>
    cases hanswer
    rw [Memo.lookup, hstate]

/-- Both are what is kept after the first. -/
theorem AnswersInTurn.reads (hstacked : s.memo.Stacked) (hopen : s.memo.openCount = 0)
    (h : AnswersInTurn e c s b v) :
    ∃ s₁, (classExportable e c).ask s = (.ok b, s₁) ∧
      s₁.memo.answer? (.ofClass c.name.text) = some b ∧
      (s₁.verdicts.lookup c.name).getD .exportable = v := by
  have hkept : ∀ {b s₁}, (classExportable e c).ask s = (.ok b, s₁) →
      s₁.memo.answer? (.ofClass c.name.text) = some b := fun hask =>
    congrArg (·.bind MemoState.answer?)
      (state?_of_ask_examineClass (grows_typeWithin _) hstacked hopen hask)
  have hverdict : ∀ {s b s₁}, (classExportable e c).ask s = (.ok b, s₁) →
      (classVerdict e c).ask s = (.ok ((s₁.verdicts.lookup c.name).getD .exportable), s₁) := by
    intro s b s₁ hask
    rw [classVerdict, Query.ask_bind_of_ok hask, Query.ask_bind_of_ok (Query.ask_get s₁),
      Query.ask_pure]
  cases hask : (classExportable e c).ask s with
  | mk result s₁ =>
    cases result with
    | error failure =>
      rcases h with ⟨hb, -⟩ | ⟨hv, -⟩
      · rw [hask] at hb
        cases hb
      · rw [classVerdict, Query.ask_bind, hask] at hv
        cases hv
    | ok b₁ =>
      have hagain := ask_classExportable_of_answer? (e := e) (hkept hask)
      rcases h with ⟨hb, hv⟩ | ⟨hv, hb⟩
      · rw [hask] at hb hv
        cases hb
        rw [hverdict hagain] at hv
        exact ⟨s₁, rfl, hkept hask, Except.ok.inj hv⟩
      · rw [hverdict hask] at hb hv
        rw [hagain] at hb
        cases hb
        exact ⟨s₁, rfl, hkept hask, Except.ok.inj hv⟩

/-- **The answer on a class and the verdict on it agree just where no evaluation
of a class of its name was broken off.** After any questions put to an evaluator of
a module, whatever they came to, if a class can be asked about both ways in turn,
the verdict lets it pass just where the answer does, unless one of the questions
has failed while an evaluation of a class of that name was open. Then the answer
is no and the verdict is yes. No condition is put on the module or the class. -/
theorem verdict_agrees_iff (m : SourceModule) (options : RuleOptions) (qs : List Question)
    (c : ClassDecl) (b : Bool) (v : Verdict)
    (h : AnswersInTurn (ofModule m options) c (after (ofModule m options) {} qs) b v) :
    (¬ BrokenOff (ofModule m options) (.ofClass c.name.text) {} qs → v.isExportable = b) ∧
      (BrokenOff (ofModule m options) (.ofClass c.name.text) {} qs →
        b = false ∧ v = .exportable) := by
  have hgrows := grows_after (ofModule m options) {} qs
  have hstacked := hgrows.stacked ⟨fun h => (nomatch h), fun h => (nomatch h)⟩
  obtain ⟨s₁, hask, hanswer, rfl⟩ := h.reads hstacked hgrows.openCount
  obtain ⟨moments, r, s', hcourse⟩ :=
    terminates_task (ofModule m options) (.classExportable c) (after (ofModule m options) {} qs) []
  -- the class is asked about without failing, so nothing more is broken off
  have hsame := (ask_classExportable_eq _ c _).symm.trans hask
  have hends := hcourse.ask_eq.symm.trans hsame
  have hpaired := hcourse.paired (Paired.empty.after qs)
  cases r with
  | broken failure keys => cases hends
  | value b₁ =>
    obtain rfl : s' = s₁ := congrArg Prod.snd hends
    obtain ⟨hagree, hcontradict⟩ := hpaired.reads hanswer
    refine ⟨fun hnot => hagree ?_, fun hbroken => hcontradict (Or.inr (Or.inl hbroken))⟩
    rintro (hnil | hbroken | hempty)
    · cases hnil
    · exact hnot hbroken
    · exact hempty

/-- A class with a property without a type. -/
def unbacked : ClassDecl where
  name := ⟨"test.A"⟩
  members := [.property { name := ⟨"test.A.x"⟩ }]

/-- An evaluator of a module of that class. -/
def ofUnbacked : Evaluator := ofModule (Pass.moduleOf [unbacked.toDeclaration]) {}

/-- Asked about again after its evaluation has failed, the class has an answer and
a verdict. -/
theorem answersInTurn_unbacked :
    AnswersInTurn ofUnbacked unbacked (after ofUnbacked {} [.classExportable unbacked])
      false .exportable :=
  Or.inl (by decide +kernel)

/-- A contradiction that shows an evaluation broken off. -/
theorem verdict_agrees_iff_unbacked :
    AnswersInTurn ofUnbacked unbacked (after ofUnbacked {} [.classExportable unbacked])
        false .exportable ∧
      BrokenOff ofUnbacked (.ofClass "test.A") {} [.classExportable unbacked] := by
  refine ⟨answersInTurn_unbacked, by_contra fun hnot => ?_⟩
  have hagree := (verdict_agrees_iff (Pass.moduleOf [unbacked.toDeclaration]) {}
    [.classExportable unbacked] unbacked false .exportable answersInTurn_unbacked).1 hnot
  cases hagree

/-- **An answer and a verdict that contradict one another.** The only class of a
module has a property without a type. The first question about it fails, and from
then on it cannot be exported, and its verdict is that it can. -/
theorem verdict_contradicts :
    ofUnbacked.classNamed? unbacked.name = some unbacked ∧
      ((classExportable ofUnbacked unbacked).ask {}).1
        = .error (.untypedProperty ⟨"test.A.x"⟩) ∧
      ((classExportable ofUnbacked unbacked).ask
        (after ofUnbacked {} [.classExportable unbacked])).1 = .ok false ∧
      ((classVerdict ofUnbacked unbacked).ask
        (after ofUnbacked {} [.classExportable unbacked, .classExportable unbacked])).1
          = .ok .exportable := by
  decide +kernel

end Evaluator

end ExportSurface
