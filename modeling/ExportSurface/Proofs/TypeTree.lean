import ExportSurface.Proofs.Criteria
/-!
# The types inside a type

`TypeRef.parts` lists a type and all types inside it, arguments and bounds
alike; there are `TypeRef.size` of them. `TypeRef.erased` is a type with its
nullability erased at every level. Two types of one erasure have the same key
and the same star projections (`key_erased`, `hasStar_erased`), and their
bounds and elements have the same erasures too (`exists_bound_of_erased_eq`,
`exists_element_of_erased_eq`), so nullability is never seen by what looks at
those alone.
-/

namespace ExportSurface

namespace TypeArgument

/-- The type that an argument is. -/
def type? : TypeArgument → Option TypeRef
  | .star => none
  | .type t => some t

@[simp] theorem filterMap_type?_cons_star (as : List TypeArgument) :
    (star :: as).filterMap type? = as.filterMap type? := rfl

@[simp] theorem filterMap_type?_cons_type (t : TypeRef) (as : List TypeArgument) :
    (type t :: as).filterMap type? = t :: as.filterMap type? := rfl

end TypeArgument

namespace TypeRef

/-- The types directly inside a type. -/
def children : TypeRef → List TypeRef
  | .named _ args _ => args.filterMap TypeArgument.type?
  | .parameter _ bounds _ => bounds
  | .dynamic => []

theorem mem_children_of_mem_args {name : QualifiedName} {args : List TypeArgument}
    {nullable : Bool} {u : TypeRef} (h : .type u ∈ args) :
    u ∈ (named name args nullable).children :=
  List.mem_filterMap.mpr ⟨_, h, rfl⟩

theorem mem_children_of_element? {t u : TypeRef} (h : t.element? = some u) :
    u ∈ t.children := by
  unfold element? at h
  split at h
  · rename_i v as hkind hargs
    cases t with
    | named name args nullable =>
      change args = .type v :: as at hargs
      simp [children, hargs, Option.some.inj h]
    | parameter => cases hargs
    | dynamic => cases hargs
  · cases h

/-! ## Size -/

theorem size_le_sizes {t : TypeRef} {ts : List TypeRef} (h : t ∈ ts) : t.size ≤ sizes ts := by
  induction ts with
  | nil => cases h
  | cons u ts ih =>
    rw [sizes]
    rcases List.mem_cons.mp h with rfl | hmem
    · omega
    · have := ih hmem
      omega

theorem sizes_append (ts us : List TypeRef) : sizes (ts ++ us) = sizes ts + sizes us := by
  induction ts with
  | nil => simp [sizes]
  | cons t ts ih => rw [List.cons_append, sizes, sizes, ih, Nat.add_assoc]

theorem size_eq (t : TypeRef) : t.size = sizes t.children + 1 := by
  cases t with
  | named name args nullable =>
    rw [size, children]
    congr 1
    induction args with
    | nil => rfl
    | cons a as ih =>
      cases a with
      | star => simp [TypeArgument.sizes, TypeArgument.size, ih]
      | type u => simp [TypeArgument.sizes, TypeArgument.size, sizes, ih]
  | parameter name bounds nullable => rfl
  | dynamic => rfl

theorem size_pos (t : TypeRef) : 0 < t.size := by
  rw [size_eq]
  omega

/-- What is directly inside a type is smaller. -/
theorem size_lt_of_mem_children {t u : TypeRef} (h : u ∈ t.children) : u.size < t.size := by
  have := size_le_sizes h
  rw [t.size_eq]
  omega

/-- **Induction into a type**: what holds of a type when it holds of all that
is directly inside it holds of every type. -/
theorem induct_children {P : TypeRef → Prop} (step : ∀ t, (∀ u ∈ t.children, P u) → P t) :
    ∀ t, P t := by
  intro t
  induction hn : t.size using Nat.strongRecOn generalizing t with
  | _ n ih =>
    subst hn
    exact step t fun u hu => ih u.size (size_lt_of_mem_children hu) u rfl

end TypeRef

/-! ## Parts -/

mutual

/-- The type and all types inside it. -/
def TypeRef.parts : TypeRef → List TypeRef
  | .named name args nullable => .named name args nullable :: TypeArgument.partsAll args
  | .parameter name bounds nullable =>
    .parameter name bounds nullable :: TypeRef.partsAll bounds
  | .dynamic => [.dynamic]

/-- The types inside an argument. -/
def TypeArgument.parts : TypeArgument → List TypeRef
  | .star => []
  | .type t => t.parts

/-- The types inside a list of types. -/
def TypeRef.partsAll : List TypeRef → List TypeRef
  | [] => []
  | t :: ts => t.parts ++ TypeRef.partsAll ts

/-- The types inside a list of arguments. -/
def TypeArgument.partsAll : List TypeArgument → List TypeRef
  | [] => []
  | a :: as => a.parts ++ TypeArgument.partsAll as

end

namespace TypeRef

@[simp] theorem partsAll_eq_flatMap (ts : List TypeRef) : partsAll ts = ts.flatMap parts := by
  induction ts with
  | nil => rfl
  | cons t ts ih => rw [partsAll, ih, List.flatMap_cons]

/-- The parts of a type are itself and the parts of all directly inside it. -/
theorem parts_eq_cons (t : TypeRef) : t.parts = t :: t.children.flatMap parts := by
  cases t with
  | named name args nullable =>
    rw [parts, children]
    congr 1
    induction args with
    | nil => rfl
    | cons a as ih =>
      cases a with
      | star => simp [TypeArgument.partsAll, TypeArgument.parts, ih]
      | type u => simp [TypeArgument.partsAll, TypeArgument.parts, ih]
  | parameter name bounds nullable => rw [parts, partsAll_eq_flatMap, children]
  | dynamic => rfl

theorem self_mem_parts (t : TypeRef) : t ∈ t.parts := by
  rw [parts_eq_cons]
  exact List.mem_cons_self

/-- What is directly inside a part is a part. -/
theorem mem_parts_of_mem_children {t u v : TypeRef} (hu : u ∈ t.parts) (hv : v ∈ u.children) :
    v ∈ t.parts := by
  induction t using induct_children with
  | step t ih =>
    rw [parts_eq_cons] at hu ⊢
    refine List.mem_cons_of_mem _ (List.mem_flatMap.mpr ?_)
    rcases List.mem_cons.mp hu with rfl | hin
    · exact ⟨v, hv, v.self_mem_parts⟩
    · obtain ⟨w, hw, huw⟩ := List.mem_flatMap.mp hin
      exact ⟨w, hw, ih w hw huw⟩

theorem mem_parts_trans {t u v : TypeRef} (hu : u ∈ t.parts) (hv : v ∈ u.parts) : v ∈ t.parts := by
  induction u using induct_children with
  | step u ih =>
    rw [parts_eq_cons] at hv
    rcases List.mem_cons.mp hv with rfl | hin
    · exact hu
    · obtain ⟨w, hw, hvw⟩ := List.mem_flatMap.mp hin
      exact ih w hw (mem_parts_of_mem_children hu hw) hvw

theorem size_le_of_mem_parts {t u : TypeRef} (hu : u ∈ t.parts) : u.size ≤ t.size := by
  induction t using induct_children with
  | step t ih =>
    rw [parts_eq_cons] at hu
    rcases List.mem_cons.mp hu with rfl | hin
    · exact Nat.le_refl _
    · obtain ⟨w, hw, huw⟩ := List.mem_flatMap.mp hin
      exact Nat.le_trans (ih w hw huw) (Nat.le_of_lt (size_lt_of_mem_children hw))

theorem length_flatMap_parts {ts : List TypeRef} (h : ∀ t ∈ ts, t.parts.length = t.size) :
    (ts.flatMap parts).length = sizes ts := by
  induction ts with
  | nil => rfl
  | cons t ts ih =>
    rw [List.flatMap_cons, List.length_append, h t List.mem_cons_self, sizes,
      ih fun u hu => h u (List.mem_cons_of_mem t hu)]

theorem length_parts (t : TypeRef) : t.parts.length = t.size := by
  induction t using induct_children with
  | step t ih => rw [parts_eq_cons, List.length_cons, length_flatMap_parts ih, size_eq]

end TypeRef

/-! ## Nullability erased -/

mutual

/-- The type with its nullability erased at every level. -/
def TypeRef.erased : TypeRef → TypeRef
  | .named name args _ => .named name (TypeArgument.erasedAll args) false
  | .parameter name bounds _ => .parameter name (TypeRef.erasedAll bounds) false
  | .dynamic => .dynamic

/-- The argument with its nullability erased. -/
def TypeArgument.erased : TypeArgument → TypeArgument
  | .star => .star
  | .type t => .type t.erased

/-- The types with their nullability erased. -/
def TypeRef.erasedAll : List TypeRef → List TypeRef
  | [] => []
  | t :: ts => t.erased :: TypeRef.erasedAll ts

/-- The arguments with their nullability erased. -/
def TypeArgument.erasedAll : List TypeArgument → List TypeArgument
  | [] => []
  | a :: as => a.erased :: TypeArgument.erasedAll as

end

@[simp] theorem TypeRef.erasedAll_eq_map (ts : List TypeRef) :
    TypeRef.erasedAll ts = ts.map TypeRef.erased := by
  induction ts with
  | nil => rfl
  | cons t ts ih => rw [TypeRef.erasedAll, ih, List.map_cons]

@[simp] theorem TypeArgument.erasedAll_eq_map (as : List TypeArgument) :
    TypeArgument.erasedAll as = as.map TypeArgument.erased := by
  induction as with
  | nil => rfl
  | cons a as ih => rw [TypeArgument.erasedAll, ih, List.map_cons]

namespace TypeRef

theorem key_erased (t : TypeRef) : t.erased.key = t.key := by
  induction t using induct_children with
  | step t ih =>
    cases t with
    | named name args nullable =>
      rw [erased, key, key, TypeArgument.erasedAll_eq_map, TypeArgument.keys_eq_map,
        TypeArgument.keys_eq_map, List.map_map]
      congr 1
      refine List.map_congr_left fun a ha => ?_
      cases a with
      | star => rfl
      | type u => exact ih u (mem_children_of_mem_args ha)
    | parameter name bounds nullable =>
      rw [erased, key, key, erasedAll_eq_map, keys_eq_map, keys_eq_map, List.map_map]
      congr 1
      exact List.map_congr_left ih
    | dynamic => rfl

theorem hasStar_erased (t : TypeRef) : t.erased.hasStar = t.hasStar := by
  induction t using induct_children with
  | step t ih =>
    cases t with
    | named name args nullable =>
      rw [erased, hasStar, hasStar, TypeArgument.erasedAll_eq_map, TypeArgument.anyStar_eq_any,
        TypeArgument.anyStar_eq_any, List.any_map]
      rw [Bool.eq_iff_iff, List.any_eq_true, List.any_eq_true]
      refine exists_congr fun a => and_congr_right fun ha => ?_
      cases a with
      | star => exact Iff.rfl
      | type u => exact Bool.eq_iff_iff.mp (ih u (mem_children_of_mem_args ha))
    | parameter name bounds nullable => rfl
    | dynamic => rfl

theorem className?_erased (t : TypeRef) : t.erased.className? = t.className? := by
  cases t with
  | named name args nullable => rfl
  | parameter name bounds nullable => rfl
  | dynamic => rfl

theorem ofType?_erased (t : TypeRef) : Builtin.ofType? t.erased = Builtin.ofType? t := by
  rw [Builtin.ofType?, className?_erased, Builtin.ofType?]

theorem arguments_erased (t : TypeRef) :
    t.erased.arguments = t.arguments.map TypeArgument.erased := by
  cases t with
  | named name args nullable => exact TypeArgument.erasedAll_eq_map args
  | parameter name bounds nullable => rfl
  | dynamic => rfl

theorem element?_erased (t : TypeRef) : t.erased.element? = t.element?.map erased := by
  rw [element?, element?, ofType?_erased, arguments_erased]
  cases Builtin.ofType? t with
  | none => rfl
  | some kind =>
    cases t.arguments with
    | nil => cases kind <;> rfl
    | cons a as =>
      cases a with
      | star => cases kind <;> rfl
      | type u => cases kind <;> rfl

/-- A bound of one of two parameters that differ in nullability is one of the
other, up to nullability. -/
theorem exists_bound_of_erased_eq {name name' : String} {bounds bounds' : List TypeRef}
    {nullable nullable' : Bool} {b' : TypeRef}
    (h : (parameter name bounds nullable).erased = (parameter name' bounds' nullable').erased)
    (hb' : b' ∈ bounds') : ∃ b ∈ bounds, b.erased = b'.erased := by
  have hbounds : bounds.map erased = bounds'.map erased := by
    simpa using (TypeRef.parameter.inj h).2.1
  have hmem : b'.erased ∈ bounds.map erased := hbounds ▸ List.mem_map_of_mem hb'
  exact List.mem_map.mp hmem

/-- Types that differ in nullability have elements that do. -/
theorem exists_element_of_erased_eq {t u v : TypeRef} (htu : t.erased = u.erased)
    (hv : u.element? = some v) : ∃ w, t.element? = some w ∧ w.erased = v.erased := by
  have helement : t.element?.map erased = some v.erased := by
    rw [← t.element?_erased, htu, u.element?_erased, hv, Option.map_some]
  exact Option.map_eq_some_iff.mp helement

/-- Classes without arguments are told apart by their keys. -/
theorem erased_eq_of_plain {t u : TypeRef} (ht : ∃ name, t = plain name)
    (hu : ∃ name, u = plain name) (h : t.key = u.key) : t.erased = u.erased := by
  obtain ⟨name, rfl⟩ := ht
  obtain ⟨name', rfl⟩ := hu
  have hname : name = name' := h
  rw [hname]

end TypeRef

end ExportSurface
