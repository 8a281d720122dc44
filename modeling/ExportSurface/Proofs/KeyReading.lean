import ExportSurface.Proofs.TypeTree
import Mathlib.Data.List.Forall2
import Mathlib.Data.List.TakeWhile
/-!
# Reading keys

What the key of a type says about the type, where the names in it are free of
the characters that a key is written with (`TypeRef.Legible`). A key is read up
to a mark outside brackets (`Key.upTo`); a name goes through whole, and so does
what stands in brackets (`Key.Passes`). So a key can be taken apart into the
keys of the arguments and of the bounds.

It does not tell types apart. Bounds of bounds are run together, so of a type
parameter no more is known than its leaves, the types that its bounds come to
(`TypeRef.forall₂_leaves`). A class type is known by its class and the keys of
its arguments (`TypeRef.named_of_key_eq`), but without arguments it has the key
of a type parameter of its name. Star projections are known in any case
(`TypeRef.hasStar_eq_of_key_eq`).
-/

namespace ExportSurface

namespace Key

/-- The characters that keys and texts of types are written with, names
apart. -/
def characters : List Char := [' ', '<', '>', ',', ':', '&', '*', '?']

/-- Whether a name is free of them. -/
def Plain (name : String) : Prop := ∀ c ∈ name.toList, c ∉ characters

instance (name : String) : Decidable (Plain name) := List.decidableBAll _ _

/-! ## Reading up to a mark -/

/-- What comes before the first mark outside brackets. -/
def upTo (mark : Char) : Nat → List Char → List Char
  | _, [] => []
  | depth, c :: cs =>
    if c = '<' then c :: upTo mark (depth + 1) cs
    else if c = '>' then c :: upTo mark (depth - 1) cs
    else if c = mark ∧ depth = 0 then []
    else c :: upTo mark depth cs

/-- A text that goes through whole, if it stands inside so many brackets. -/
def Passes (mark : Char) (least : Nat) (text : List Char) : Prop :=
  ∀ depth, least ≤ depth → ∀ rest,
    upTo mark depth (text ++ rest) = text ++ upTo mark depth rest

variable {mark : Char} {least : Nat} {text text' rest rest' : List Char}

theorem passes_nil : Passes mark least [] := fun _ _ _ => rfl

theorem Passes.append (h : Passes mark least text) (h' : Passes mark least text') :
    Passes mark least (text ++ text') := by
  intro depth hdepth rest
  rw [List.append_assoc, h depth hdepth, h' depth hdepth, List.append_assoc]

theorem Passes.weaken (h : Passes mark 0 text) : Passes mark least text :=
  fun depth _ => h depth (Nat.zero_le depth)

theorem passes_of_forall
    (h : ∀ c ∈ text, c ≠ '<' ∧ c ≠ '>' ∧ (c ≠ mark ∨ 0 < least)) : Passes mark least text := by
  induction text with
  | nil => exact passes_nil
  | cons c cs ih =>
    intro depth hdepth rest
    obtain ⟨hopen, hclose, hmark⟩ := h c List.mem_cons_self
    have hnot : ¬ (c = mark ∧ depth = 0) := by
      rintro ⟨hc, hzero⟩
      rcases hmark with hne | hpos
      · exact hne hc
      · omega
    rw [List.cons_append, upTo, if_neg hopen, if_neg hclose, if_neg hnot,
      ih (fun d hd => h d (List.mem_cons_of_mem c hd)) depth hdepth, List.cons_append]

theorem passes_of_plain {name : String} (h : Plain name) (hmark : mark ∈ characters) :
    Passes mark least name.toList := by
  refine passes_of_forall fun c hc => ⟨?_, ?_, Or.inl ?_⟩
  · rintro rfl
    exact h _ hc (by decide)
  · rintro rfl
    exact h _ hc (by decide)
  · rintro rfl
    exact h _ hc hmark

/-- What goes through inside brackets goes through with brackets around it. -/
theorem Passes.bracketed (h : Passes mark 1 text) : Passes mark 0 ('<' :: (text ++ ['>'])) := by
  intro depth _ rest
  have hinside := h (depth + 1) (Nat.le_add_left 1 depth) ('>' :: rest)
  simp only [List.cons_append, List.append_assoc, List.nil_append, upTo, if_true] at hinside ⊢
  rw [hinside]
  rfl

/-- Two texts that go through are read apart from what follows, if that is
nothing or begins with the mark. -/
theorem eq_of_append_eq (h : Passes mark 0 text) (h' : Passes mark 0 text')
    (hrest : upTo mark 0 rest = []) (hrest' : upTo mark 0 rest' = [])
    (heq : text ++ rest = text' ++ rest') : text = text' ∧ rest = rest' := by
  have hread := congrArg (upTo mark 0) heq
  rw [h 0 (Nat.le_refl 0), h' 0 (Nat.le_refl 0), hrest, hrest', List.append_nil,
    List.append_nil] at hread
  exact ⟨hread, List.append_cancel_left (hread ▸ heq)⟩

theorem upTo_cons_mark (hmark : mark ≠ '<' ∧ mark ≠ '>') (cs : List Char) :
    upTo mark 0 (mark :: cs) = [] := by
  rw [upTo, if_neg hmark.1, if_neg hmark.2, if_pos ⟨rfl, rfl⟩]

/-! ## Lists of texts -/

/-- What follows the first of several texts with a separator between. -/
def afterFirst (separator : String) : List String → List Char
  | [] => []
  | k :: ks => separator.toList ++ (separator.intercalate (k :: ks)).toList

theorem toList_intercalate_cons (separator k : String) (ks : List String) :
    (separator.intercalate (k :: ks)).toList = k.toList ++ afterFirst separator ks := by
  cases ks with
  | nil => simp [afterFirst]
  | cons l ls => simp [afterFirst, String.intercalate_cons_cons]

theorem upTo_afterFirst {separator : String} (hmark : mark ≠ '<' ∧ mark ≠ '>')
    (hseparator : separator.toList.head? = some mark) (ks : List String) :
    upTo mark 0 (afterFirst separator ks) = [] := by
  cases ks with
  | nil => rfl
  | cons k ks =>
    obtain ⟨cs, hcs⟩ := List.head?_eq_some_iff.mp hseparator
    rw [afterFirst, hcs, List.cons_append]
    exact upTo_cons_mark hmark _

theorem passes_intercalate {separator : String} {ks : List String}
    (hseparator : Passes mark least separator.toList)
    (h : ∀ k ∈ ks, Passes mark least k.toList) :
    Passes mark least (separator.intercalate ks).toList := by
  induction ks with
  | nil => exact passes_nil
  | cons k ks ih =>
    have hrest := ih fun l hl => h l (List.mem_cons_of_mem k hl)
    rw [toList_intercalate_cons]
    refine (h k List.mem_cons_self).append ?_
    cases ks with
    | nil => exact passes_nil
    | cons l ls => exact hseparator.append hrest

theorem afterFirst_eq_nil_iff {separator : String} (hne : separator.toList ≠ [])
    {ks : List String} : afterFirst separator ks = [] ↔ ks = [] := by
  cases ks with
  | nil => simp [afterFirst]
  | cons k ks => simp [afterFirst, hne]

theorem intercalate_eq_of_afterFirst_eq {separator : String} (hne : separator.toList ≠ [])
    {ks ls : List String} (h : afterFirst separator ks = afterFirst separator ls) :
    (ks = [] ↔ ls = []) ∧ separator.intercalate ks = separator.intercalate ls := by
  have hnil : ks = [] ↔ ls = [] := by
    rw [← afterFirst_eq_nil_iff hne, h, afterFirst_eq_nil_iff hne]
  refine ⟨hnil, ?_⟩
  cases ks with
  | nil => rw [hnil.mp rfl]
  | cons k ks =>
    cases ls with
    | nil => cases hnil.mpr rfl
    | cons l ls => exact String.toList_inj.mp (List.append_cancel_left h)

/-- **A list of texts is read apart** by its separator, outside brackets. -/
theorem eq_of_intercalate_eq {separator : String} (hmark : mark ≠ '<' ∧ mark ≠ '>')
    (hseparator : separator.toList.head? = some mark) {ks ls : List String}
    (hks : ∀ k ∈ ks, Passes mark 0 k.toList) (hls : ∀ l ∈ ls, Passes mark 0 l.toList)
    (hk : ks ≠ []) (hl : ls ≠ [])
    (heq : separator.intercalate ks = separator.intercalate ls) : ks = ls := by
  have hafter := upTo_afterFirst hmark hseparator
  have hne : separator.toList ≠ [] := fun h => by simp [h] at hseparator
  induction ks generalizing ls with
  | nil => exact absurd rfl hk
  | cons k ks ih =>
    obtain ⟨l, ls, rfl⟩ := List.exists_cons_of_ne_nil hl
    have hchars := congrArg String.toList heq
    rw [toList_intercalate_cons, toList_intercalate_cons] at hchars
    obtain ⟨hfirst, hrest⟩ := eq_of_append_eq (hks k List.mem_cons_self)
      (hls l List.mem_cons_self) (hafter ks) (hafter ls) hchars
    obtain ⟨hnil, hrest⟩ := intercalate_eq_of_afterFirst_eq hne hrest
    have hsame : ks = ls := by
      by_cases hempty : ks = []
      · rw [hempty, hnil.mp hempty]
      · exact ih (fun m hm => hks m (List.mem_cons_of_mem k hm))
          (fun m hm => hls m (List.mem_cons_of_mem l hm)) hempty (mt hnil.mpr hempty) hrest
    rw [String.toList_inj.mp hfirst, hsame]

theorem toList_intercalate_append {separator : String} {ks ls : List String} (hk : ks ≠ []) :
    (separator.intercalate ks).toList ++ afterFirst separator ls
      = (separator.intercalate (ks ++ ls)).toList := by
  cases ls with
  | nil => rw [afterFirst, List.append_nil, List.append_nil]
  | cons l ls =>
    rw [afterFirst, String.intercalate_append_of_ne_nil hk (List.cons_ne_nil l ls),
      String.toList_append, String.toList_append, List.append_assoc]

end Key

/-! ## Keys of types -/

namespace TypeRef

/-- What the key of a type begins with. -/
def headText : TypeRef → String
  | .named name _ _ => name.text
  | .parameter name _ _ => name
  | .dynamic => "dynamic"

/-- Whether all names in a type are free of the characters keys are written
with. -/
def Legible (t : TypeRef) : Prop := ∀ u ∈ t.parts, Key.Plain u.headText

instance (t : TypeRef) : Decidable t.Legible :=
  inferInstanceAs (Decidable (∀ u ∈ t.parts, Key.Plain u.headText))

variable {t u : TypeRef} {mark : Char} {least : Nat}

theorem Legible.head (h : t.Legible) : Key.Plain t.headText := h t t.self_mem_parts

theorem Legible.of_mem_parts (h : t.Legible) (hu : u ∈ t.parts) : u.Legible :=
  fun _ hv => h _ (mem_parts_trans hu hv)

theorem Legible.of_mem_children (h : t.Legible) (hu : u ∈ t.children) : u.Legible :=
  h.of_mem_parts (mem_parts_of_mem_children t.self_mem_parts hu)

theorem key_bare (name : QualifiedName) (nullable : Bool) :
    (TypeRef.named name [] nullable).key = name.text := rfl

theorem key_unbounded (name : String) (nullable : Bool) :
    (TypeRef.parameter name [] nullable).key = name := rfl

theorem toList_key_applied (name : QualifiedName) (a : TypeArgument) (as : List TypeArgument)
    (nullable : Bool) :
    (TypeRef.named name (a :: as) nullable).key.toList = name.text.toList ++
      '<' :: ((", ".intercalate ((a :: as).map TypeArgument.key)).toList ++ ['>']) := by
  simp [key, applied, String.toList_append]

theorem toList_key_bounded (name : String) (b : TypeRef) (bs : List TypeRef) (nullable : Bool) :
    (TypeRef.parameter name (b :: bs) nullable).key.toList = name.toList ++
      ([' ', ':', ' '] ++ (" & ".intercalate ((b :: bs).map key)).toList) := by
  simp [key, bounded, String.toList_append]

/-! ### Keys go through -/

theorem passes_key_argument {a : TypeArgument} (hmark : mark ≠ '*' ∨ 0 < least)
    (h : ∀ u, a = .type u → Key.Passes mark least u.key.toList) :
    Key.Passes mark least a.key.toList := by
  cases a with
  | star =>
    refine Key.passes_of_forall fun c hc => ?_
    obtain rfl : c = '*' := by simpa [TypeArgument.key] using hc
    exact ⟨by decide, by decide, hmark.imp_left Ne.symm⟩
  | type u => exact h u rfl

/-- The key of a class type goes through, if those of its arguments do inside
brackets. -/
theorem passes_key_named {name : QualifiedName} {args : List TypeArgument} {nullable : Bool}
    (hmark : mark ∈ Key.characters) (hname : Key.Plain name.text)
    (h : ∀ u ∈ (TypeRef.named name args nullable).children, Key.Passes mark 1 u.key.toList) :
    Key.Passes mark 0 (TypeRef.named name args nullable).key.toList := by
  cases args with
  | nil => exact Key.passes_of_plain hname hmark
  | cons a as =>
    rw [toList_key_applied]
    refine (Key.passes_of_plain hname hmark).append (Key.Passes.bracketed ?_)
    refine Key.passes_intercalate (Key.passes_of_forall (by simp)) fun k hk => ?_
    obtain ⟨b, hb, rfl⟩ := List.mem_map.mp hk
    exact passes_key_argument (Or.inr Nat.one_pos) fun u hu =>
      h u (mem_children_of_mem_args (hu ▸ hb))

/-- What stands between bounds goes through inside brackets, and up to a comma
in any case. -/
theorem passes_separators (hplace : mark = ',' ∨ 0 < least) :
    Key.Passes mark least [' ', ':', ' '] ∧ Key.Passes mark least " & ".toList := by
  have hand : " & ".toList = [' ', '&', ' '] := rfl
  have hfree : ∀ c ∈ [' ', ':', ' ', ' ', '&', ' '], c ≠ '<' ∧ c ≠ '>' ∧ c ≠ ',' := by simp
  have hpass : ∀ c ∈ [' ', ':', ' '] ++ [' ', '&', ' '],
      c ≠ '<' ∧ c ≠ '>' ∧ (c ≠ mark ∨ 0 < least) := by
    intro c hc
    obtain ⟨hopen, hclose, hcomma⟩ := hfree c hc
    refine ⟨hopen, hclose, ?_⟩
    rcases hplace with rfl | hpos
    · exact Or.inl hcomma
    · exact Or.inr hpos
  rw [hand]
  exact ⟨Key.passes_of_forall fun c hc => hpass c (List.mem_append_left _ hc),
    Key.passes_of_forall fun c hc => hpass c (List.mem_append_right _ hc)⟩

/-- **The key of a type goes through** whole inside brackets, and up to a comma
in any case. -/
theorem passes_key (ht : t.Legible) (hmark : mark ∈ Key.characters)
    (hplace : mark = ',' ∨ 0 < least) : Key.Passes mark least t.key.toList := by
  induction t using induct_children generalizing least with
  | step t ih =>
    have hchildren : ∀ u ∈ t.children, ∀ {least}, mark = ',' ∨ 0 < least →
        Key.Passes mark least u.key.toList := fun u hu => ih u hu (ht.of_mem_children hu)
    cases t with
    | named name args nullable =>
      exact (passes_key_named hmark ht.head fun u hu => hchildren u hu (Or.inr Nat.one_pos)).weaken
    | parameter name bounds nullable =>
      cases bounds with
      | nil => exact Key.passes_of_plain ht.head hmark
      | cons b bs =>
        obtain ⟨hcolon, hand⟩ := passes_separators hplace
        rw [toList_key_bounded]
        refine (Key.passes_of_plain ht.head hmark).append (hcolon.append ?_)
        refine Key.passes_intercalate hand fun k hk => ?_
        obtain ⟨c, hc, rfl⟩ := List.mem_map.mp hk
        exact hchildren c hc hplace
    | dynamic => exact Key.passes_of_plain ht.head hmark

end TypeRef

/-! ## Leaves -/

mutual

/-- The types that the bounds of a type parameter come to, through bounds that
are type parameters with bounds themselves; of any other type, the type. -/
def TypeRef.leaves : TypeRef → List TypeRef
  | .named name args nullable => [.named name args nullable]
  | .parameter name [] nullable => [.parameter name [] nullable]
  | .parameter _ (b :: bs) _ => b.leaves ++ TypeRef.leavesAll bs
  | .dynamic => [.dynamic]

/-- The leaves of a list of types. -/
def TypeRef.leavesAll : List TypeRef → List TypeRef
  | [] => []
  | t :: ts => t.leaves ++ TypeRef.leavesAll ts

end

namespace TypeRef

variable {t u : TypeRef} {ts us : List TypeRef}

/-- Whether a type is a type parameter with bounds. -/
def isBounded : TypeRef → Bool
  | .parameter _ (_ :: _) _ => true
  | _ => false

theorem leavesAll_eq_flatMap (ts : List TypeRef) : leavesAll ts = ts.flatMap leaves := by
  induction ts with
  | nil => rfl
  | cons t ts ih => rw [leavesAll, ih, List.flatMap_cons]

theorem leaves_bounded (name : String) (b : TypeRef) (bs : List TypeRef) (nullable : Bool) :
    (parameter name (b :: bs) nullable).leaves = (b :: bs).flatMap leaves := by
  rw [leaves, leavesAll_eq_flatMap, List.flatMap_cons]

theorem exists_bounds_of_isBounded (h : t.isBounded = true) :
    ∃ name b bs nullable, t = .parameter name (b :: bs) nullable := by
  unfold isBounded at h
  split at h
  · exact ⟨_, _, _, _, rfl⟩
  · cases h

theorem leaves_of_not_isBounded (h : t.isBounded = false) : t.leaves = [t] := by
  cases t with
  | named name args nullable => rfl
  | dynamic => rfl
  | parameter name bounds nullable =>
    cases bounds with
    | nil => rfl
    | cons b bs => cases h

theorem mem_parts_of_mem_leaves (h : u ∈ t.leaves) : u ∈ t.parts := by
  induction t using induct_children with
  | step t ih =>
    cases hbounded : t.isBounded with
    | false =>
      rw [leaves_of_not_isBounded hbounded, List.mem_singleton] at h
      exact h ▸ t.self_mem_parts
    | true =>
      obtain ⟨name, b, bs, nullable, rfl⟩ := exists_bounds_of_isBounded hbounded
      rw [leaves_bounded] at h
      obtain ⟨c, hc, huc⟩ := List.mem_flatMap.mp h
      exact mem_parts_trans (mem_parts_of_mem_children (self_mem_parts _) hc) (ih c hc huc)

/-- The leaves of a type parameter with bounds are smaller. -/
theorem size_lt_of_mem_leaves (ht : t.isBounded = true) (h : u ∈ t.leaves) : u.size < t.size := by
  obtain ⟨name, b, bs, nullable, rfl⟩ := exists_bounds_of_isBounded ht
  rw [leaves_bounded] at h
  obtain ⟨c, hc, huc⟩ := List.mem_flatMap.mp h
  exact Nat.lt_of_le_of_lt (size_le_of_mem_parts (mem_parts_of_mem_leaves huc))
    (size_lt_of_mem_children hc)

/-! ### Reading bounds -/

/-- A key that is not that of a type parameter with bounds goes through. -/
theorem passes_key_of_not_isBounded {mark : Char} (ht : t.Legible) (h : t.isBounded = false)
    (hmark : mark ∈ Key.characters) : Key.Passes mark 0 t.key.toList := by
  cases t with
  | named name args nullable =>
    exact passes_key_named hmark ht.head fun u hu =>
      passes_key (ht.of_mem_children hu) hmark (Or.inr Nat.one_pos)
  | dynamic => exact Key.passes_of_plain ht.head hmark
  | parameter name bounds nullable =>
    cases bounds with
    | nil => exact Key.passes_of_plain ht.head hmark
    | cons b bs => cases h

/-- The keys of bounds, run together. -/
def joined (ts : List TypeRef) : List Char := (" & ".intercalate (ts.map key)).toList

theorem joined_cons (t : TypeRef) (ts : List TypeRef) :
    joined (t :: ts) = t.key.toList ++ Key.afterFirst " & " (ts.map key) := by
  rw [joined, List.map_cons, Key.toList_intercalate_cons]

theorem joined_singleton (t : TypeRef) : joined [t] = t.key.toList := by
  rw [joined_cons, List.map_nil, Key.afterFirst, List.append_nil]

/-- The bounds of a bound run on into what follows it. -/
theorem joined_cons_bounded (name : String) (b : TypeRef) (bs ts : List TypeRef)
    (nullable : Bool) :
    joined (parameter name (b :: bs) nullable :: ts)
      = name.toList ++ ([' ', ':', ' '] ++ joined (b :: bs ++ ts)) := by
  rw [joined_cons, toList_key_bounded, List.append_assoc, List.append_assoc,
    Key.toList_intercalate_append (by simp), joined, List.map_append]

theorem upTo_colon (cs : List Char) : Key.upTo ' ' 0 ([' ', ':', ' '] ++ cs) = [] :=
  Key.upTo_cons_mark (by decide) _

theorem joined_cons_ne (ht : t.Legible) (hu : u.Legible) (htb : t.isBounded = false)
    (hub : u.isBounded = true) : joined (t :: ts) ≠ joined (u :: us) := by
  obtain ⟨name, b, bs, nullable, rfl⟩ := exists_bounds_of_isBounded hub
  intro h
  rw [joined_cons, joined_cons_bounded] at h
  have hrest := (Key.eq_of_append_eq (passes_key_of_not_isBounded ht htb (by decide))
    (Key.passes_of_plain hu.head (by decide)) (Key.upTo_afterFirst (by decide) rfl _)
    (upTo_colon _) h).2
  cases ts with
  | nil => simp [Key.afterFirst] at hrest
  | cons t ts => simp [Key.afterFirst] at hrest

theorem joined_cons_inj (ht : t.Legible) (hu : u.Legible) (htb : t.isBounded = false)
    (hub : u.isBounded = false) (h : joined (t :: ts) = joined (u :: us)) :
    t.key = u.key ∧ (ts = [] ↔ us = []) ∧ joined ts = joined us := by
  rw [joined_cons, joined_cons] at h
  obtain ⟨hfirst, hrest⟩ := Key.eq_of_append_eq (passes_key_of_not_isBounded ht htb (by decide))
    (passes_key_of_not_isBounded hu hub (by decide)) (Key.upTo_afterFirst (by decide) rfl _)
    (Key.upTo_afterFirst (by decide) rfl _) h
  obtain ⟨hnil, hrest⟩ := Key.intercalate_eq_of_afterFirst_eq (by decide) hrest
  exact ⟨String.toList_inj.mp hfirst, by simpa using hnil, congrArg String.toList hrest⟩

theorem joined_bounds_inj {name name' : String} {b c : TypeRef} {bs cs : List TypeRef}
    {nullable nullable' : Bool} (hname : Key.Plain name) (hname' : Key.Plain name')
    (h : joined (parameter name (b :: bs) nullable :: ts)
      = joined (parameter name' (c :: cs) nullable' :: us)) :
    joined (b :: bs ++ ts) = joined (c :: cs ++ us) := by
  rw [joined_cons_bounded, joined_cons_bounded] at h
  exact List.append_cancel_left (Key.eq_of_append_eq (Key.passes_of_plain hname (by decide))
    (Key.passes_of_plain hname' (by decide)) (upTo_colon _) (upTo_colon _) h).2

/-- Bounds that run together to one text come to leaves of the same keys. -/
theorem forall₂_flatMap_leaves (hts : ∀ t ∈ ts, t.Legible) (hus : ∀ u ∈ us, u.Legible)
    (hnil : ts = [] ↔ us = []) (h : joined ts = joined us) :
    List.Forall₂ (fun a b => a.key = b.key) (ts.flatMap leaves) (us.flatMap leaves) := by
  induction hn : sizes ts using Nat.strongRecOn generalizing ts us with
  | _ n ih =>
    subst hn
    cases ts with
    | nil => rw [hnil.mp rfl]; exact .nil
    | cons t ts =>
      obtain ⟨u, us, rfl⟩ := List.exists_cons_of_ne_nil (mt hnil.mpr (List.cons_ne_nil t ts))
      have ht := hts t List.mem_cons_self
      have hu := hus u List.mem_cons_self
      have hts' : ∀ v ∈ ts, v.Legible := fun v hv => hts v (List.mem_cons_of_mem t hv)
      have hus' : ∀ v ∈ us, v.Legible := fun v hv => hus v (List.mem_cons_of_mem u hv)
      cases htb : t.isBounded with
      | false =>
        cases hub : u.isBounded with
        | false =>
          obtain ⟨hkey, hnil', hrest⟩ := joined_cons_inj ht hu htb hub h
          have hsmaller : sizes ts < sizes (t :: ts) := Nat.lt_add_of_pos_left t.size_pos
          rw [List.flatMap_cons, List.flatMap_cons, leaves_of_not_isBounded htb,
            leaves_of_not_isBounded hub]
          exact .cons hkey (ih _ hsmaller hts' hus' hnil' hrest rfl)
        | true => exact absurd h (joined_cons_ne ht hu htb hub)
      | true =>
        cases hub : u.isBounded with
        | false => exact absurd h.symm (joined_cons_ne hu ht hub htb)
        | true =>
          obtain ⟨name, b, bs, nullable, rfl⟩ := exists_bounds_of_isBounded htb
          obtain ⟨name', c, cs, nullable', rfl⟩ := exists_bounds_of_isBounded hub
          -- the bounds of both are run together with what follows them
          have hsmaller :
              sizes (b :: bs ++ ts) < sizes (parameter name (b :: bs) nullable :: ts) := by
            simp only [sizes_append, sizes, size]
            omega
          have hbs : ∀ v ∈ b :: bs ++ ts, v.Legible := fun v hv =>
            (List.mem_append.mp hv).elim ht.of_mem_children (hts' v)
          have hcs : ∀ v ∈ c :: cs ++ us, v.Legible := fun v hv =>
            (List.mem_append.mp hv).elim hu.of_mem_children (hus' v)
          have hsame :=
            ih _ hsmaller hbs hcs (by simp) (joined_bounds_inj ht.head hu.head h) rfl
          rwa [List.flatMap_append, ← leaves_bounded name b bs nullable, List.flatMap_append,
            ← leaves_bounded name' c cs nullable', ← List.flatMap_cons,
            ← List.flatMap_cons] at hsame

/-- **Types of one key have leaves of the same keys**, one by one. -/
theorem forall₂_leaves (ht : t.Legible) (hu : u.Legible) (h : t.key = u.key) :
    List.Forall₂ (fun a b => a.key = b.key) t.leaves u.leaves := by
  have hjoined : joined [t] = joined [u] := by rw [joined_singleton, joined_singleton, h]
  simpa using forall₂_flatMap_leaves (List.forall_mem_singleton.mpr ht)
    (List.forall_mem_singleton.mpr hu) (by simp) hjoined

/-! ## Class types of one key -/

/-- A key begins with a name. What follows is nothing, or begins with a bracket
or a blank. -/
theorem exists_toList_key_eq (t : TypeRef) : ∃ rest, t.key.toList = t.headText.toList ++ rest
    ∧ (rest = [] ∨ rest.head? = some '<' ∨ rest.head? = some ' ') := by
  cases t with
  | named name args nullable =>
    cases args with
    | nil => exact ⟨[], by rw [key_bare]; simp [headText], Or.inl rfl⟩
    | cons a as => exact ⟨_, toList_key_applied name a as nullable, Or.inr (Or.inl rfl)⟩
  | parameter name bounds nullable =>
    cases bounds with
    | nil => exact ⟨[], by rw [key_unbounded]; simp [headText], Or.inl rfl⟩
    | cons b bs => exact ⟨_, toList_key_bounded name b bs nullable, Or.inr (Or.inr rfl)⟩
  | dynamic => exact ⟨[], by simp [key, headText], Or.inl rfl⟩

theorem key_ne_star (ht : t.Legible) : t.key ≠ TypeArgument.star.key := by
  intro h
  obtain ⟨rest, hrest, hhead⟩ := t.exists_toList_key_eq
  have hchars : ['*'] = t.headText.toList ++ rest := by rw [← hrest, h]; rfl
  cases hname : t.headText.toList with
  | nil =>
    rw [hname, List.nil_append] at hchars
    simp [← hchars] at hhead
  | cons c cs =>
    rw [hname, List.cons_append] at hchars
    obtain ⟨rfl, -⟩ := List.cons.inj hchars
    exact ht.head '*' (hname ▸ List.mem_cons_self) (by decide)

theorem passes_argument_of_legible {a : TypeArgument} (h : ∀ u, a = .type u → u.Legible) :
    Key.Passes ',' 0 a.key.toList :=
  passes_key_argument (Or.inl (by decide)) fun u hu => passes_key (h u hu) (by decide) (Or.inl rfl)

theorem Legible.of_mem_args {name : QualifiedName} {args : List TypeArgument} {nullable : Bool}
    (h : (named name args nullable).Legible) (hu : .type u ∈ args) : u.Legible :=
  h.of_mem_children (mem_children_of_mem_args hu)

theorem takeWhile_key_named {name : QualifiedName} {args : List TypeArgument} {nullable : Bool}
    (h : Key.Plain name.text) :
    (named name args nullable).key.toList.takeWhile (· ≠ '<') = name.text.toList := by
  have hname : ∀ c ∈ name.text.toList, decide (c ≠ '<') = true := fun c hc =>
    decide_eq_true fun hopen => h c hc (hopen ▸ by decide)
  cases args with
  | nil => rw [key_bare, List.takeWhile_eq_self_iff.mpr hname]
  | cons a as =>
    rw [toList_key_applied, List.takeWhile_append_of_pos hname]
    simp

/-- **Class types of one key** are of one class, and their arguments have the
same keys. -/
theorem named_of_key_eq {name name' : QualifiedName} {args args' : List TypeArgument}
    {nullable nullable' : Bool} (ht : (named name args nullable).Legible)
    (hu : (named name' args' nullable').Legible)
    (h : (named name args nullable).key = (named name' args' nullable').key) :
    name = name' ∧ args.map TypeArgument.key = args'.map TypeArgument.key := by
  obtain rfl : name = name' := by
    have hread := congrArg (fun k => k.toList.takeWhile (· ≠ '<')) h
    simp only [takeWhile_key_named ht.head, takeWhile_key_named hu.head] at hread
    exact QualifiedName.eq_of_text_eq (String.toList_inj.mp hread)
  refine ⟨rfl, ?_⟩
  have hchars := congrArg String.toList h
  cases args with
  | nil =>
    cases args' with
    | nil => rfl
    | cons b bs =>
      rw [key_bare, toList_key_applied] at hchars
      simp at hchars
  | cons a as =>
    cases args' with
    | nil =>
      rw [key_bare, toList_key_applied] at hchars
      simp at hchars
    | cons b bs =>
      rw [toList_key_applied, toList_key_applied] at hchars
      have hinside := List.append_cancel_right (List.cons.inj (List.append_cancel_left hchars)).2
      have hcomma : ',' ≠ '<' ∧ ',' ≠ '>' := by decide
      refine Key.eq_of_intercalate_eq hcomma (by decide) ?_ ?_ (by simp) (by simp)
        (String.toList_inj.mp hinside)
      · exact List.forall_mem_map.mpr fun a' ha' =>
          passes_argument_of_legible fun v hv => ht.of_mem_args (hv ▸ ha')
      · exact List.forall_mem_map.mpr fun a' ha' =>
          passes_argument_of_legible fun v hv => hu.of_mem_args (hv ▸ ha')

/-- A class type with the key of what is no class type has no arguments. -/
theorem args_eq_nil_of_key_eq {name : QualifiedName} {args : List TypeArgument} {nullable : Bool}
    (ht : (named name args nullable).Legible) (hu : u.Legible) (hclass : u.className? = none)
    (h : (named name args nullable).key = u.key) : args = [] := by
  cases args with
  | nil => rfl
  | cons a as =>
    exfalso
    cases hub : u.isBounded with
    | true =>
      have hjoined : joined [named name (a :: as) nullable] = joined [u] := by
        rw [joined_singleton, joined_singleton, h]
      exact joined_cons_ne ht hu rfl hub hjoined
    | false =>
      have hkey : u.key = u.headText := by
        cases u with
        | named => cases hclass
        | dynamic => rfl
        | parameter name' bounds nullable' =>
          cases bounds with
          | nil => rfl
          | cons b bs => cases hub
      refine hu.head '<' ?_ (by decide)
      rw [← hkey, ← h, toList_key_applied]
      simp

theorem any_hasStar_eq_of_map_key_eq {args args' : List TypeArgument}
    (h : args.map TypeArgument.key = args'.map TypeArgument.key)
    (hsame : ∀ a ∈ args, ∀ b ∈ args', a.key = b.key → a.hasStar = b.hasStar) :
    args.any TypeArgument.hasStar = args'.any TypeArgument.hasStar := by
  induction args generalizing args' with
  | nil => rw [List.map_eq_nil_iff.mp h.symm]
  | cons a as ih =>
    cases args' with
    | nil => cases h
    | cons b bs =>
      obtain ⟨hkey, hkeys⟩ := List.cons.inj h
      rw [List.any_cons, List.any_cons, hsame a List.mem_cons_self b List.mem_cons_self hkey,
        ih hkeys fun a' ha' b' hb' =>
          hsame a' (List.mem_cons_of_mem a ha') b' (List.mem_cons_of_mem b hb')]

/-- **Types of one key have star projections alike.** -/
theorem hasStar_eq_of_key_eq (ht : t.Legible) (hu : u.Legible) (h : t.key = u.key) :
    t.hasStar = u.hasStar := by
  induction t using induct_children generalizing u with
  | step t ih =>
    cases t with
    | named name args nullable =>
      cases u with
      | named name' args' nullable' =>
        rw [hasStar, hasStar, TypeArgument.anyStar_eq_any, TypeArgument.anyStar_eq_any]
        refine any_hasStar_eq_of_map_key_eq (named_of_key_eq ht hu h).2 fun a ha b hb hab => ?_
        cases a with
        | star =>
          cases b with
          | star => rfl
          | type v => exact absurd hab.symm (key_ne_star (hu.of_mem_args hb))
        | type v =>
          cases b with
          | star => exact absurd hab (key_ne_star (ht.of_mem_args ha))
          | type w =>
            exact ih v (mem_children_of_mem_args ha) (ht.of_mem_args ha) (hu.of_mem_args hb) hab
      | parameter => rw [args_eq_nil_of_key_eq ht hu rfl h]; rfl
      | dynamic => rw [args_eq_nil_of_key_eq ht hu rfl h]; rfl
    | parameter =>
      cases u with
      | named => rw [args_eq_nil_of_key_eq hu ht rfl h.symm]; rfl
      | parameter => rfl
      | dynamic => rfl
    | dynamic =>
      cases u with
      | named => rw [args_eq_nil_of_key_eq hu ht rfl h.symm]; rfl
      | parameter => rfl
      | dynamic => rfl

end TypeRef

end ExportSurface
