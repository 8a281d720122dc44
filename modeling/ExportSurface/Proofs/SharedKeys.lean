import ExportSurface.Proofs.KeyReading
import ExportSurface.Proofs.Unfolding
/-!
# Answers under one key

The memo keeps answers on class types under their keys, so types of one key had
better be answered alike. With names that keys can be read back from they are
(`Evaluator.exists_answer_of_key_eq`), in a fresh session and in any other, as
long as nothing in one type has the key of something of another kind in the
other (`TypeRef.AlikeInKind`): a type parameter is judged by its leaves, and a
class type by its class and its element.

Without that condition they are not. The key of a class without arguments is
that of a type parameter of the same name, and of `dynamic`, if that is the
name. Inside an array the first is judged by the class rule and the other two
are accepted, and whichever is asked about first has its answer kept for all
(`Evaluator.shared_key`).
-/

namespace ExportSurface

namespace TypeRef

/-- Whatever in one type has the key of something in the other is a class type
if and only if that is. -/
def AlikeInKind (t u : TypeRef) : Prop :=
  ∀ a ∈ t.parts, ∀ b ∈ u.parts, a.key = b.key → (a.className?.isSome ↔ b.className?.isSome)

instance (t u : TypeRef) : Decidable (t.AlikeInKind u) :=
  inferInstanceAs (Decidable (∀ a ∈ t.parts, ∀ b ∈ u.parts,
    a.key = b.key → (a.className?.isSome ↔ b.className?.isSome)))

variable {t u v w : TypeRef}

theorem exists_eq_named {name : QualifiedName} (h : t.className? = some name) :
    ∃ args nullable, t = .named name args nullable := by
  cases t with
  | named name' args nullable =>
    obtain rfl := Option.some.inj h
    exact ⟨args, nullable, rfl⟩
  | parameter => cases h
  | dynamic => cases h

theorem AlikeInKind.of_mem_parts (h : t.AlikeInKind u) (hv : v ∈ t.parts) (hw : w ∈ u.parts) :
    v.AlikeInKind w :=
  fun a ha b hb => h a (mem_parts_trans hv ha) b (mem_parts_trans hw hb)

end TypeRef

namespace Evaluator

variable {e : Evaluator} {ask : TypeRef → Query Bool} {t u : TypeRef} {ts us : List TypeRef}

/-! ## Lists of types -/

theorem allAccepted_singleton (t : TypeRef) : allAccepted ask [t] = ask t := by
  have hlast : (fun b : Bool => if b = true then allAccepted ask [] else pure false)
      = (pure : Bool → Query Bool) := by
    funext b
    cases b with
    | true => rfl
    | false => rfl
  rw [allAccepted, hlast, bind_pure]

theorem allAccepted_append (ts us : List TypeRef) :
    allAccepted ask (ts ++ us)
      = (do if ← allAccepted ask ts then allAccepted ask us else pure false) := by
  induction ts with
  | nil => simp [allAccepted]
  | cons t ts ih =>
    rw [List.cons_append, allAccepted, allAccepted, bind_assoc]
    congr 1
    funext b
    cases b with
    | true => exact ih
    | false => simp

/-- Types that come to lists of types are accepted as the lists together. -/
theorem allAccepted_flatMap {f : TypeRef → List TypeRef}
    (h : ∀ t ∈ ts, ask t = allAccepted ask (f t)) :
    allAccepted ask ts = allAccepted ask (ts.flatMap f) := by
  induction ts with
  | nil => rfl
  | cons t ts ih =>
    rw [allAccepted, List.flatMap_cons, allAccepted_append, h t List.mem_cons_self,
      ih fun u hu => h u (List.mem_cons_of_mem t hu)]

theorem allAccepted_congr (h : List.Forall₂ (fun a b => a.key = b.key) ts us)
    (hask : ∀ a ∈ ts, ∀ b ∈ us, a.key = b.key → ask a = ask b) :
    allAccepted ask ts = allAccepted ask us := by
  induction h with
  | nil => rfl
  | @cons a b ts us hkey hkeys ih =>
    rw [allAccepted, allAccepted, hask a List.mem_cons_self b List.mem_cons_self hkey,
      ih fun a' ha' b' hb' =>
        hask a' (List.mem_cons_of_mem a ha') b' (List.mem_cons_of_mem b hb')]

/-! ## Types of one key -/

theorem typeExportable_eq (e : Evaluator) (t : TypeRef) :
    typeExportable e t = examineType e (typeExportable e) t :=
  funext fun s => ask_typeExportable_eq e t s

/-- **A type is judged by its leaves.** -/
theorem typeExportable_eq_leaves (e : Evaluator) (t : TypeRef) :
    typeExportable e t = allAccepted (typeExportable e) t.leaves := by
  induction t using TypeRef.induct_children with
  | step t ih =>
    cases hbounded : t.isBounded with
    | false => rw [TypeRef.leaves_of_not_isBounded hbounded, allAccepted_singleton]
    | true =>
      obtain ⟨name, b, bs, nullable, rfl⟩ := TypeRef.exists_bounds_of_isBounded hbounded
      rw [TypeRef.leaves_bounded, typeExportable_eq, examineType_parameter, Inquiry.run_all]
      exact allAccepted_flatMap ih

section Named

variable {name : QualifiedName} {args args' : List TypeArgument} {nullable nullable' : Bool}
  (ht : (TypeRef.named name args nullable).Legible)
  (hu : (TypeRef.named name args' nullable').Legible)
  (hkey : (TypeRef.named name args nullable).key = (TypeRef.named name args' nullable').key)
  (hask : ∀ v w, .type v ∈ args → .type w ∈ args' → v.key = w.key → ask v = ask w)
include ht hu hkey hask

theorem accepts_congr : Builtin.accepts ask (.named name args nullable)
    = Builtin.accepts ask (.named name args' nullable') := by
  have hargs := (TypeRef.named_of_key_eq ht hu hkey).2
  have hkind : Builtin.ofType? (.named name args nullable)
      = Builtin.ofType? (.named name args' nullable') := rfl
  unfold Builtin.accepts
  rw [TypeRef.hasStar_eq_of_key_eq ht hu hkey, hkind]
  split
  · rfl
  split
  · rfl
  · cases args with
    | nil =>
      obtain rfl := List.map_eq_nil_iff.mp hargs.symm
      rfl
    | cons a as =>
      cases args' with
      | nil => cases hargs
      | cons b bs =>
        have hfirst := (List.cons.inj hargs).1
        cases a with
        | star =>
          cases b with
          | star => rfl
          | type w =>
            exact absurd hfirst.symm (TypeRef.key_ne_star (hu.of_mem_args List.mem_cons_self))
        | type v =>
          cases b with
          | star => exact absurd hfirst (TypeRef.key_ne_star (ht.of_mem_args List.mem_cons_self))
          | type w => exact hask v w List.mem_cons_self List.mem_cons_self hfirst
  · rfl

/-- Class types of one key are examined alike, if their arguments are answered
alike. -/
theorem examineType_named_congr : examineType e ask (.named name args nullable)
    = examineType e ask (.named name args' nullable') := by
  have hnamed : examineNamed e ask (.named name args nullable)
      = examineNamed e ask (.named name args' nullable') := by
    unfold examineNamed
    rw [accepts_congr ht hu hkey hask]
    rfl
  unfold examineType
  rw [TypeRef.hasStar_eq_of_key_eq ht hu hkey, hkey, hnamed]

end Named

/-- What is no class type and has no bounds is accepted. -/
theorem typeExportable_of_className?_eq_none (hclass : t.className? = none)
    (hbounded : t.isBounded = false) : typeExportable e t = pure true := by
  rw [typeExportable_eq]
  cases t with
  | named => cases hclass
  | dynamic => rfl
  | parameter name bounds nullable =>
    cases bounds with
    | nil => rfl
    | cons b bs => cases hbounded

/-- **Types of one key are answered alike** in every session. -/
theorem typeExportable_congr (ht : t.Legible) (hu : u.Legible) (hkinds : t.AlikeInKind u)
    (hkey : t.key = u.key) : typeExportable e t = typeExportable e u := by
  induction hn : t.size + u.size using Nat.strongRecOn generalizing t u with
  | _ n ih =>
    subst hn
    have hin : ∀ v ∈ t.parts, ∀ w ∈ u.parts, v.size + w.size < t.size + u.size → v.key = w.key →
        typeExportable e v = typeExportable e w := fun v hv w hw hlt hvw =>
      ih _ hlt (ht.of_mem_parts hv) (hu.of_mem_parts hw) (hkinds.of_mem_parts hv hw) hvw rfl
    cases hbounded : t.isBounded || u.isBounded with
    | true =>
      -- leaves of bounds are smaller, on one side at least
      rw [typeExportable_eq_leaves e t, typeExportable_eq_leaves e u]
      refine allAccepted_congr (TypeRef.forall₂_leaves ht hu hkey) fun a ha b hb hab => ?_
      have hat := TypeRef.mem_parts_of_mem_leaves ha
      have hbu := TypeRef.mem_parts_of_mem_leaves hb
      refine hin a hat b hbu ?_ hab
      rcases Bool.or_eq_true_iff.mp hbounded with htb | hub
      · exact Nat.add_lt_add_of_lt_of_le (TypeRef.size_lt_of_mem_leaves htb ha)
          (TypeRef.size_le_of_mem_parts hbu)
      · exact Nat.add_lt_add_of_le_of_lt (TypeRef.size_le_of_mem_parts hat)
          (TypeRef.size_lt_of_mem_leaves hub hb)
    | false =>
      obtain ⟨htb, hub⟩ := Bool.or_eq_false_iff.mp hbounded
      have hkind := hkinds t t.self_mem_parts u u.self_mem_parts hkey
      cases hclass : t.className? with
      | none =>
        have hclass' : u.className? = none := by simpa [hclass] using hkind
        rw [typeExportable_of_className?_eq_none hclass htb,
          typeExportable_of_className?_eq_none hclass' hub]
      | some name =>
        obtain ⟨args, nullable, rfl⟩ := TypeRef.exists_eq_named hclass
        obtain ⟨name', hclass'⟩ := Option.isSome_iff_exists.mp (hkind.mp rfl)
        obtain ⟨args', nullable', rfl⟩ := TypeRef.exists_eq_named hclass'
        obtain ⟨rfl, -⟩ := TypeRef.named_of_key_eq ht hu hkey
        rw [typeExportable_eq, typeExportable_eq]
        refine examineType_named_congr ht hu hkey fun v w hv hw hvw => ?_
        have hvt : v ∈ (TypeRef.named name args nullable).children :=
          TypeRef.mem_children_of_mem_args hv
        have hwu : w ∈ (TypeRef.named name args' nullable').children :=
          TypeRef.mem_children_of_mem_args hw
        exact hin v (TypeRef.mem_parts_of_mem_children (TypeRef.self_mem_parts _) hvt)
          w (TypeRef.mem_parts_of_mem_children (TypeRef.self_mem_parts _) hwu)
          (Nat.add_lt_add (TypeRef.size_lt_of_mem_children hvt)
            (TypeRef.size_lt_of_mem_children hwu)) hvw

/-! ## Fresh evaluators -/

/-- **Types of one key have one answer.** In a fresh session of an evaluator
whose properties have types, both are answered, and answered alike; and so they
are in any session, which may hold the answer to the other. -/
theorem exists_answer_of_key_eq (m : SourceModule) (options : RuleOptions)
    (htyped : ∀ c ∈ m.allClasses, ∀ p ∈ c.properties, p.valueType?.isSome)
    (ht : t.Legible) (hu : u.Legible) (hkinds : t.AlikeInKind u) (hkey : t.key = u.key) :
    (∃ b, ((typeExportable (.ofModule m options) t).ask {}).1 = .ok b
      ∧ ((typeExportable (.ofModule m options) u).ask {}).1 = .ok b)
    ∧ ∀ s, (typeExportable (.ofModule m options) t).ask s
      = (typeExportable (.ofModule m options) u).ask s := by
  have hsame := typeExportable_congr (e := .ofModule m options) ht hu hkinds hkey
  have hnever : (typeExportable (.ofModule m options) t).FailsOnly fun _ => False := by
    refine failsOnly_typeWithin (fun c hc p hp hnone => ?_) _ t
    have hsome := htyped c (List.mem_reverse.mp hc) p hp
    rw [hnone] at hsome
    cases hsome
  obtain ⟨b, s', hask⟩ := Query.exists_of_failsOnly_false hnever {}
  refine ⟨⟨b, by rw [hask], by rw [← hsame, hask]⟩, fun s => by rw [hsame]⟩

/-- A type parameter inside an array, of one bound that has two bounds. -/
def boundOfTwo : TypeRef :=
  .named ⟨"kotlin.Array"⟩ [.type (.parameter "T"
    [.parameter "U" [.plain "kotlin.Int", .plain "kotlin.Long"] false] false)] false

/-- One of two bounds, the first of which has one bound. -/
def twoBounds : TypeRef :=
  .named ⟨"kotlin.Array"⟩ [.type (.parameter "T"
    [.parameter "U" [.plain "kotlin.Int"] false, .plain "kotlin.Long"] false)] false

/-- Bounds that run together have one key and one answer. -/
theorem exists_answer_of_bounds_regrouped :
    boundOfTwo ≠ twoBounds ∧ boundOfTwo.key = twoBounds.key ∧
    ∃ b, ((typeExportable (.ofModule { name := "test" } {}) boundOfTwo).ask {}).1 = .ok b ∧
      ((typeExportable (.ofModule { name := "test" } {}) twoBounds).ask {}).1 = .ok b := by
  have hkey : boundOfTwo.key = twoBounds.key := by decide +kernel
  have hlegible : boundOfTwo.Legible ∧ twoBounds.Legible := by decide +kernel
  have hkinds : boundOfTwo.AlikeInKind twoBounds := by decide +kernel
  exact ⟨by decide +kernel, hkey, (exists_answer_of_key_eq { name := "test" } {} (by decide)
    hlegible.1 hlegible.2 hkinds hkey).1⟩

/-- An array of a type parameter without bounds. -/
def arrayOfParameter : TypeRef :=
  .named ⟨"kotlin.Array"⟩ [.type (.unbounded "T")] false

/-- An array of a class that is named as the parameter. -/
def arrayOfClass : TypeRef :=
  .named ⟨"kotlin.Array"⟩ [.type (.plain "T")] false

/-- **An array of a type parameter and one of a class share a key** and are not
answered alike. In one session the second takes the answer on the first. -/
theorem shared_key :
    arrayOfParameter.Legible ∧ arrayOfClass.Legible ∧
    arrayOfParameter.hasStar = false ∧ arrayOfClass.hasStar = false ∧
    arrayOfParameter.key = arrayOfClass.key ∧
    ((typeExportable (.ofModule { name := "test" } {}) arrayOfParameter).ask {}).1 = .ok true ∧
    ((typeExportable (.ofModule { name := "test" } {}) arrayOfClass).ask {}).1 = .ok false ∧
    ((typeExportable (.ofModule { name := "test" } {}) arrayOfClass).ask
      ((typeExportable (.ofModule { name := "test" } {}) arrayOfParameter).ask {}).2).1
        = .ok true := by
  decide +kernel

end Evaluator

end ExportSurface
