import ExportSurface.Evaluator
/-!
# How a question goes

A question put in a session ends with an answer or a failure and leaves a
session behind. These are the equations for the steps questions are made of:
everything later is said through `Query.ask`, and no proof looks into the
monads below it.
-/

namespace ExportSurface

namespace Query

variable {α β : Type}

@[simp] theorem ask_pure (a : α) (s : Session) : (pure a : Query α).ask s = (.ok a, s) := rfl

@[simp] theorem ask_throw (e : ModuleError) (s : Session) :
    (throw e : Query α).ask s = (.error e, s) := rfl

@[simp] theorem ask_get (s : Session) : (get : Query Session).ask s = (.ok s, s) := rfl

/-- A question goes on from the session the first part left, unless the first
part failed. -/
theorem ask_bind (q : Query α) (f : α → Query β) (s : Session) :
    (q >>= f).ask s =
      match q.ask s with
      | (.ok a, s') => (f a).ask s'
      | (.error e, s') => (.error e, s') := by
  change (ExceptT.bindCont f (q.ask s).1) (q.ask s).2 = _
  rcases q.ask s with ⟨_ | a, s'⟩
  · rfl
  · rfl

theorem ask_bind_of_ok {q : Query α} {f : α → Query β} {s s' : Session} {a : α}
    (h : q.ask s = (.ok a, s')) : (q >>= f).ask s = (f a).ask s' := by
  rw [ask_bind, h]

/-- Whether a question put in a session fails. -/
def Fails (q : Query α) (s : Session) : Prop := ∃ failure s', q.ask s = (.error failure, s')

theorem Fails.bind {q : Query α} {s : Session} (h : q.Fails s) (f : α → Query β) :
    (q >>= f).Fails s := by
  obtain ⟨failure, s', hask⟩ := h
  exact ⟨failure, s', by rw [ask_bind, hask]⟩

/-- Asking for the outcome never fails. -/
@[simp] theorem ask_outcome (q : Query α) (s : Session) :
    q.outcome.ask s = (.ok (q.ask s).1, (q.ask s).2) := rfl

/-! ## The memo and the verdicts -/

@[simp] theorem ask_lookup (key : MemoKey) (s : Session) :
    (lookup key).ask s
      = (.ok (s.memo.lookup key).1, { s with memo := (s.memo.lookup key).2 }) := rfl

@[simp] theorem ask_begin (key : MemoKey) (s : Session) :
    (begin key).ask s = (.ok (), { s with memo := s.memo.begin key }) := rfl

@[simp] theorem ask_resolve (key : MemoKey) (answer : Bool) (s : Session) :
    (resolve key answer).ask s
      = (.ok (s.memo.resolve key answer).1,
          { s with memo := (s.memo.resolve key answer).2 }) := rfl

@[simp] theorem ask_remember (name : QualifiedName) (verdict : Verdict) (s : Session) :
    (remember name verdict).ask s
      = (.ok (), { s with verdicts := (name, verdict) :: s.verdicts }) := rfl

end Query

end ExportSurface
