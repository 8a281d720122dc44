import ExportSurface.Proofs.SoundMemo
/-!
# How deep an evaluation goes

The types an evaluation can come across are those inside the types of the
evaluator's classes and of the question (`Evaluator.scope`), as many as
`Evaluator.bound` counts. A type is only examined inside another if it is
smaller, or if a key of the scope has been put in flight in between. So the
number of types in scope whose keys are not in flight (`Evaluator.pending`),
weighted by the length of the scope, bounds together with the size of the type
how deep the evaluation can go (`Evaluator.need`), and
the evaluator's bound leaves room for every question (`Evaluator.room_le_bound`).
-/

namespace ExportSurface

namespace Evaluator

variable (e : Evaluator) (types : List TypeRef)

/-! ## The scope of a question -/

/-- All types inside those of the evaluator's classes and of a question. -/
def scope : List TypeRef :=
  (e.classes.flatMap ClassDecl.types ++ types).flatMap TypeRef.parts

theorem length_scope : (scope e types).length
    = TypeRef.sizes (e.classes.flatMap ClassDecl.types ++ types) :=
  TypeRef.length_flatMap_parts fun t _ => t.length_parts

variable {e types} {c : ClassDecl} {t u : TypeRef} {name : QualifiedName}

theorem mem_scope_of_mem (h : t ∈ types) : t ∈ scope e types :=
  List.mem_flatMap.mpr ⟨t, List.mem_append_right _ h, t.self_mem_parts⟩

theorem mem_scope_of_mem_types (hc : c ∈ e.classes) (h : t ∈ c.types) : t ∈ scope e types :=
  List.mem_flatMap.mpr
    ⟨t, List.mem_append_left _ (List.mem_flatMap.mpr ⟨c, hc, h⟩), t.self_mem_parts⟩

theorem mem_scope_of_mem_children (ht : t ∈ scope e types) (hu : u ∈ t.children) :
    u ∈ scope e types := by
  obtain ⟨v, hv, htv⟩ := List.mem_flatMap.mp ht
  exact List.mem_flatMap.mpr ⟨v, hv, TypeRef.mem_parts_of_mem_children htv hu⟩

theorem mem_classes_of_classNamed? (h : e.classNamed? name = some c) : c ∈ e.classes :=
  List.mem_of_find?_eq_some h

theorem name_of_classNamed? (h : e.classNamed? name = some c) : c.name = name := by
  simpa using List.find?_some h

/-- A class that was found is the class of its own name. -/
theorem classNamed?_self (h : e.classNamed? name = some c) :
    e.classNamed? c.name = some c := by
  rw [name_of_classNamed? h, h]

theorem mem_types_of_mem_surfaceTypes (h : t ∈ c.surfaceTypes) : t ∈ c.types := by
  simp only [ClassDecl.surfaceTypes, ClassDecl.types, Rule.publicConstructors, List.mem_append,
    List.mem_flatMap, List.mem_filter] at h ⊢
  rcases h with ((h | ⟨k, hk, ht⟩) | ⟨p, hp, ht⟩) | ⟨f, hf, ht⟩
  · exact Or.inl (Or.inl (Or.inl h))
  · exact Or.inl (Or.inl (Or.inr ⟨k, hk.1, ht⟩))
  · exact Or.inl (Or.inr ⟨p, hp.1, ht⟩)
  · exact Or.inr ⟨f, hf.1, ht⟩

/-- What a class of the evaluator asks about is in scope. -/
theorem mem_scope_of_checks (hc : c ∈ e.classes) (h : c.Checks t) : t ∈ scope e types := by
  rcases h with h | ⟨a, ha, hel⟩
  · exact mem_scope_of_mem_types hc (mem_types_of_mem_surfaceTypes h)
  · exact mem_scope_of_mem_children
      (mem_scope_of_mem_types hc (mem_types_of_mem_surfaceTypes ha))
      (TypeRef.mem_children_of_element? hel)

theorem size_le_length_scope (h : t ∈ scope e types) : t.size ≤ (scope e types).length := by
  obtain ⟨v, hv, htv⟩ := List.mem_flatMap.mp h
  rw [length_scope]
  exact Nat.le_trans (TypeRef.size_le_of_mem_parts htv) (TypeRef.size_le_sizes hv)

/-! ## Keys still to be put in flight -/

/-- Whether the evaluation of a key is open. -/
def isOpen (m : Memo) (key : MemoKey) : Bool :=
  match m.state? key with
  | some (.inFlight _) => true
  | _ => false

variable (e types)

/-- The number of types in scope whose keys are not in flight. -/
def pending (m : Memo) : Nat :=
  (scope e types).countP fun t => !isOpen m (.ofType t.key)

/-- How many types can be examined inside one another, starting with a type. -/
def need (m : Memo) (t : TypeRef) : Nat :=
  pending e types m * ((scope e types).length + 1) + t.size

/-- What is enough for every type in scope. -/
def room (m : Memo) : Nat :=
  pending e types m * ((scope e types).length + 1) + (scope e types).length

variable {e types} {m m' : Memo} {key : MemoKey}

theorem isOpen_eq_true_iff : isOpen m key = true ↔ ∃ d, m.state? key = some (.inFlight d) := by
  unfold isOpen
  split
  · rename_i d h
    exact ⟨fun _ => ⟨d, h⟩, fun _ => rfl⟩
  · rename_i h
    exact ⟨fun hf => (by cases hf), fun ⟨d, hd⟩ => (h d hd).elim⟩

theorem isOpen_of_grows (h : m.Grows m') : isOpen m' key = isOpen m key := by
  rw [Bool.eq_iff_iff, isOpen_eq_true_iff, isOpen_eq_true_iff]
  exact exists_congr fun d => h.inFlight

theorem isOpen_begin_self (m : Memo) (key : MemoKey) : isOpen (m.begin key) key = true :=
  isOpen_eq_true_iff.mpr ⟨_, Memo.state?_begin_self m key⟩

theorem isOpen_begin_of_ne {k : MemoKey} (h : k ≠ key) : isOpen (m.begin key) k = isOpen m k := by
  rw [isOpen, isOpen, Memo.state?_begin_of_ne h]

theorem pending_of_grows (h : m.Grows m') : pending e types m' = pending e types m := by
  simp only [pending, isOpen_of_grows h]

theorem need_of_grows (h : m.Grows m') : need e types m' t = need e types m t := by
  rw [need, need, pending_of_grows h]

theorem room_of_grows (h : m.Grows m') : room e types m' = room e types m := by
  rw [room, room, pending_of_grows h]

theorem pending_le : pending e types m ≤ (scope e types).length := List.countP_le_length

theorem pending_begin_ofClass (name : String) :
    pending e types (m.begin (.ofClass name)) = pending e types m :=
  List.countP_congr fun t _ => by
    rw [isOpen_begin_of_ne (fun h : MemoKey.ofType t.key = .ofClass name => by cases h)]

/-- A count falls where one of those counted no longer is and no other is
added. -/
theorem countP_lt_countP {α : Type} {p q : α → Bool} {as : List α} {a : α} (ha : a ∈ as)
    (hp : p a = false) (hq : q a = true) (hpq : ∀ b, p b = true → q b = true) :
    as.countP p < as.countP q := by
  obtain ⟨before, after, rfl⟩ := List.append_of_mem ha
  have hbefore : before.countP p ≤ before.countP q := List.countP_mono_left fun b _ => hpq b
  have hafter : after.countP p ≤ after.countP q := List.countP_mono_left fun b _ => hpq b
  simp only [List.countP_append, List.countP_cons, hp, hq]
  simp only [Bool.false_eq_true, if_false, if_true]
  omega

/-- **Putting a type's key in flight leaves fewer pending.** -/
theorem pending_begin_lt (ht : t ∈ scope e types) (h : m.state? (.ofType t.key) = none) :
    pending e types (m.begin (.ofType t.key)) < pending e types m := by
  refine countP_lt_countP ht ?_ ?_ fun u hu => ?_
  · rw [isOpen_begin_self]
    rfl
  · rw [isOpen, h]
    rfl
  · by_cases hkey : MemoKey.ofType u.key = .ofType t.key
    · rw [hkey, isOpen_begin_self] at hu
      cases hu
    · rwa [isOpen_begin_of_ne hkey] at hu

/-- Every type needs to be examined itself. -/
theorem need_pos (m : Memo) (t : TypeRef) : 0 < need e types m t :=
  Nat.add_pos_right _ t.size_pos

theorem need_le_room (ht : t ∈ scope e types) : need e types m t ≤ room e types m :=
  Nat.add_le_add_left (size_le_length_scope ht) _

/-- **Once a type's key is in flight there is room for the whole scope**, in
less than the type needed. -/
theorem room_begin_lt_need (ht : t ∈ scope e types) (h : m.state? (.ofType t.key) = none) :
    room e types (m.begin (.ofType t.key)) < need e types m t := by
  -- one pending type less is worth the length of the scope and one
  have hlt := pending_begin_lt ht h
  have hmul : (pending e types (m.begin (.ofType t.key)) + 1) * ((scope e types).length + 1)
      ≤ pending e types m * ((scope e types).length + 1) :=
    Nat.mul_le_mul_right _ hlt
  rw [Nat.add_mul, Nat.one_mul] at hmul
  rw [room, need]
  have := t.size_pos
  omega

/-- The evaluator's bound leaves room for every question. -/
theorem room_le_bound : room e types m ≤ e.bound types := by
  have hmul : pending e types m * ((scope e types).length + 1)
      ≤ (scope e types).length * ((scope e types).length + 1) :=
    Nat.mul_le_mul_right _ pending_le
  have hbound : e.bound types
      = (scope e types).length * ((scope e types).length + 1) + ((scope e types).length + 1) := by
    rw [bound, ← length_scope, Nat.add_mul, Nat.one_mul]
  rw [room, hbound]
  omega

end Evaluator

end ExportSurface
