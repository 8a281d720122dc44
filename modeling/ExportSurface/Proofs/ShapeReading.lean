import ExportSurface.Proofs.ReadBack
import ExportSurface.Schema.Shape
import Mathlib.Data.List.Forall2
import Mathlib.Data.List.Nodup
/-!
# Shapes — what a decoder reads back

`Decoder.Reads d j a`: the decoder gives `a` for the value `j`, and straight
from the text it refuses every cut of `j` as it refuses any text that nests
too deep. The second half does not follow from the first. A decoder that
passed `j` over without looking would take a cut of it just as well, so each
shape has to look at everything it is given.

There is one law for each shape. A record is read member by member, which is
the relation `Fills`; a tagged record is read through its tag and then as what
is left of it.
-/

namespace ExportSurface

namespace Decoder

open Json (Plain PlainItems PlainMembers cutItems cutMembers depthItems depthMembers)

variable {α β : Type} {d : Decoder α} {j : Json} {a : α}

/-- **The decoder reads the value back**, just if it fits. Nothing is held
that does not fit. -/
structure Reads (d : Decoder α) (j : Json) (a : α) : Prop where
  plain : j.Plain
  cut : ∀ s room, (s = .held → j.depth ≤ room) →
    d s (j.cut room) = if j.depth ≤ room then .ok a else .error .malformed

namespace Reads

/-- As written, the value is accepted. -/
theorem whole (h : Reads d j a) (s : Setting) : d s j = .ok a := by
  have hcut := h.cut s j.depth (fun _ => Nat.le_refl _)
  rwa [Json.cut_of_depth_le (Nat.le_refl _), if_pos (Nat.le_refl _)] at hcut

/-- A value without containers is read back if it is accepted. -/
theorem of_depth_zero (hplain : j.Plain) (hdepth : j.depth = 0) (h : ∀ s, d s j = .ok a) :
    Reads d j a where
  plain := hplain
  cut s room _ := by
    have hfits : j.depth ≤ room := by omega
    rw [Json.cut_of_depth_le hfits, h, if_pos hfits]

/-- An object is read back if its members are read as far as they fit. With no
room at all the decoder has to refuse what it is given. -/
theorem of_members {ms : List (String × Json)} (hplain : PlainMembers ms)
    (hbeyond : d .direct Json.beyond = .error .malformed)
    (h : ∀ s room, (s = .held → depthMembers ms ≤ room) →
      d s (.object (cutMembers room ms))
        = if depthMembers ms ≤ room then .ok a else .error .malformed) :
    Reads d (.object ms) a where
  plain := hplain
  cut s room hs := by
    simp only [Json.depth] at hs ⊢
    cases room with
    | zero =>
      cases s with
      | direct => exact hbeyond
      | held => exact absurd (hs rfl) (by omega)
    | succ room =>
      simp only [Json.cut, Nat.add_sub_cancel, Nat.add_le_add_iff_right] at hs ⊢
      exact h s room hs

/-! ## Plain values -/

protected theorem string (s : String) : Reads Decoder.string (.string s) s :=
  of_depth_zero trivial rfl fun _ => rfl

protected theorem bool (b : Bool) : Reads Decoder.bool (.bool b) b :=
  of_depth_zero trivial rfl fun _ => rfl

protected theorem word {table : List (String × α)} {w : String} (h : table.lookup w = some a) :
    Reads (Decoder.word table) (.string w) a :=
  of_depth_zero trivial rfl fun s => by simp [Decoder.word, h]

protected theorem map (f : α → β) (h : Reads d j a) : Reads (Decoder.map f d) j (f a) where
  plain := h.plain
  cut s room hs := by
    rw [Decoder.map, h.cut s room hs]
    split <;> rfl

protected theorem none : Reads (Decoder.option d) .null none :=
  of_depth_zero trivial rfl fun _ => rfl

protected theorem some (h : Reads d j a) (hj : j ≠ .null) :
    Reads (Decoder.option d) j (some a) where
  plain := h.plain
  cut s room hs := by
    -- What is not `null` is decoded as the value itself.
    have hoption : ∀ {v : Json}, v ≠ .null → Decoder.option d s v = some <$> d s v := by
      intro v hv
      cases v <;> first | rfl | exact absurd rfl hv
    rw [hoption (Json.cut_ne_null hj), h.cut s room hs]
    split <;> rfl

/-! ## Lists -/

/-- A list is decoded item by item. -/
theorem list_cons {v : Json} {vs : List Json} (s : Setting) (h : ∀ flaw, v ≠ .gap flaw) :
    Decoder.list d s (.array (v :: vs)) = do
      let a ← d s v
      let as ← Decoder.list d s (.array vs)
      return a :: as := by
  simp only [Decoder.list, List.mapM_cons]

/-- The items are read one after the other, up to the first that does not fit. -/
theorem list_cutItems {js : List Json} {as : List α} (h : List.Forall₂ (Reads d) js as)
    (s : Setting) (room : Nat) (hs : s = .held → depthItems js ≤ room) :
    Decoder.list d s (.array (cutItems room js))
      = if depthItems js ≤ room then .ok as else .error .malformed := by
  induction h with
  | nil => rfl
  | @cons j a js as hj _ ih =>
    simp only [depthItems, Nat.max_le] at hs ⊢
    rw [cutItems, list_cons _ (fun flaw => Json.cut_ne_gap flaw hj.plain),
      hj.cut s room (fun h => (hs h).1), ih (fun h => (hs h).2)]
    by_cases hfits : j.depth ≤ room
    · by_cases hrest : depthItems js ≤ room <;> simp [hfits, hrest] <;> rfl
    · simp only [hfits, false_and, if_false]
      rfl

/-- **A list is read back if its items are.** -/
protected theorem list {js : List Json} {as : List α} (h : List.Forall₂ (Reads d) js as) :
    Reads (Decoder.list d) (.array js) as where
  plain := by
    induction h with
    | nil => trivial
    | cons hj _ ih => exact ⟨hj.plain, ih⟩
  cut s room hs := by
    simp only [Json.depth] at hs ⊢
    cases room with
    | zero =>
      cases s with
      | direct => rfl
      | held => exact absurd (hs rfl) (by omega)
    | succ room =>
      simp only [Json.cut, Nat.add_sub_cancel, Nat.add_le_add_iff_right] at hs ⊢
      exact list_cutItems h s room hs

/-- A list is read back if every item is, as it is written. -/
theorem list_map {f : α → Json} {as : List α} (h : ∀ a ∈ as, Reads d (f a) a) :
    Reads (Decoder.list d) (.array (as.map f)) as :=
  .list (List.forall₂_map_left_iff.mpr (List.forall₂_same.mpr h))

end Reads

/-! ## Records -/

@[simp] theorem Field.needed_name (name : String) (value : Decoder β) (put : β → α → α) :
    (Field.needed name value put).name = name := rfl

@[simp] theorem Field.free_name (name : String) (value : Decoder β) (put : β → α → α) :
    (Field.free name value put).name = name := rfl

/-- **Filling a record member by member**: each field finds a member of its
name in its place, or need not be there. -/
inductive Fills : List (Field α) → α → List (String × Json) → α → Prop where
  | nil (a : α) : Fills [] a [] a
  | skip {f : Field α} {fields : List (Field α)} {a b : α} {ms : List (String × Json)}
      (hfree : f.required = false) (tail : Fills fields a ms b) : Fills (f :: fields) a ms b
  | cons {f : Field α} {fields : List (Field α)} {a b : α} {j : Json} {put : α → α}
      {ms : List (String × Json)} (head : Reads f.fill j put) (tail : Fills fields (put a) ms b) :
      Fills (f :: fields) a ((f.name, j) :: ms) b

namespace Fills

variable {fields all : List (Field α)} {b : α} {ms : List (String × Json)}

theorem plain (h : Fills fields a ms b) : PlainMembers ms := by
  induction h with
  | nil => trivial
  | skip _ _ ih => exact ih
  | cons head _ ih => exact ⟨head.plain, ih⟩

/-- Whether `fields` are those of the record that may yet be seen, the rest of
them having been seen or left out. -/
structure Remaining (all fields : List (Field α)) (seen : List String) : Prop where
  nodup : (fields.map (·.name)).Nodup
  found : ∀ f ∈ fields, all.find? (·.name = f.name) = some f
  unseen : ∀ f ∈ fields, f.name ∉ seen
  filled : ∀ f ∈ all, f ∈ fields ∨ f.name ∈ seen ∨ f.required = false

/-- A field is found by its name. -/
theorem find?_name {f : Field α} (h : (all.map (·.name)).Nodup) (hf : f ∈ all) :
    all.find? (·.name = f.name) = some f := by
  induction all with
  | nil => cases hf
  | cons g all ih =>
    obtain ⟨hg, hnodup⟩ := List.nodup_cons.mp h
    obtain rfl | hf := List.mem_cons.mp hf
    · simp
    · have hne : g.name ≠ f.name := by
        intro heq
        exact hg (List.mem_map.mpr ⟨f, hf, heq.symm⟩)
      simpa [hne] using ih hnodup hf

/-- At first every field has yet to be filled. -/
theorem Remaining.start (h : (all.map (·.name)).Nodup) : Remaining all all [] where
  nodup := h
  found _ hf := find?_name h hf
  unseen _ _ := List.not_mem_nil
  filled _ hf := .inl hf

/-- Leaving out the next field leaves the others. -/
theorem Remaining.skip {f : Field α} {seen : List String} (h : Remaining all (f :: fields) seen)
    (hfree : f.required = false) : Remaining all fields seen where
  nodup := (List.nodup_cons.mp h.nodup).2
  found g hg := h.found g (List.mem_cons_of_mem _ hg)
  unseen g hg := h.unseen g (List.mem_cons_of_mem _ hg)
  filled g hg := by
    obtain hmem | hdone := h.filled g hg
    · obtain rfl | hmem := List.mem_cons.mp hmem
      · exact .inr (.inr hfree)
      · exact .inl hmem
    · exact .inr hdone

/-- Filling the next field leaves the others. -/
theorem Remaining.next {f : Field α} {seen : List String} (h : Remaining all (f :: fields) seen) :
    Remaining all fields (f.name :: seen) where
  nodup := (List.nodup_cons.mp h.nodup).2
  found g hg := h.found g (List.mem_cons_of_mem _ hg)
  unseen g hg := by
    have hnew : g.name ≠ f.name := by
      intro heq
      exact (List.nodup_cons.mp h.nodup).1 (List.mem_map.mpr ⟨g, hg, heq⟩)
    have hold := h.unseen g (List.mem_cons_of_mem _ hg)
    simp [hnew, hold]
  filled g hg := by
    obtain hmem | hseen | hfree := h.filled g hg
    · obtain rfl | hmem := List.mem_cons.mp hmem
      · exact .inr (.inl List.mem_cons_self)
      · exact .inl hmem
    · exact .inr (.inl (List.mem_cons_of_mem _ hseen))
    · exact .inr (.inr hfree)

/-- **The members are read one after the other**, up to the first that does
not fit. -/
theorem fillByName_cutMembers {seen : List String} (h : Fills fields a ms b)
    (hall : Remaining all fields seen) (s : Setting) (room : Nat)
    (hs : s = .held → depthMembers ms ≤ room) :
    fillByName all s seen a (cutMembers room ms)
      = if depthMembers ms ≤ room then .ok b else .error .malformed := by
  induction h generalizing seen with
  | nil a =>
    have hfilled : all.all (fun f => !f.required || seen.contains f.name) = true := by
      refine List.all_eq_true.mpr fun f hf => ?_
      obtain hmem | hseen | hfree := hall.filled f hf
      · cases hmem
      · simp [hseen]
      · simp [hfree]
    simp only [cutMembers, fillByName, hfilled, if_true, depthMembers, Nat.zero_le]
  | skip hfree _ ih => exact ih (hall.skip hfree) hs
  | @cons f fields a b j put ms head tail ih =>
    simp only [depthMembers, Nat.max_le] at hs ⊢
    have hfound := hall.found f List.mem_cons_self
    have hunseen := hall.unseen f List.mem_cons_self
    have hgap : ∀ flaw, j.cut room ≠ .gap flaw := fun flaw => Json.cut_ne_gap flaw head.plain
    have hfill := head.cut s room (fun h => (hs h).1)
    have hrest := ih hall.next (fun h => (hs h).2)
    simp only [cutMembers, fillByName, hfound, List.contains_eq_mem, hunseen, decide_false,
      Bool.false_eq_true, if_false, hfill]
    by_cases hfits : j.depth ≤ room
    · simp only [hfits, true_and, if_true]
      exact hrest
    · simp only [hfits, false_and, if_false]
      rfl

end Fills

/-- **A record is read back if its members fill it.** -/
theorem Reads.record {fields : List (Field α)} {blank b : α} {ms : List (String × Json)}
    (hnodup : (fields.map (·.name)).Nodup) (h : Fills fields blank ms b) :
    Reads (Decoder.record fields blank) (.object ms) b :=
  .of_members h.plain rfl fun s room hs => h.fillByName_cutMembers (.start hnodup) s room hs

/-! ## Tagged records -/

section Tagged

variable {tag w : String} {words : List String} {ms : List (String × Json)}

/-- After the tag the members are read in full. -/
theorem splitMembers_cutMembers (hms : PlainMembers ms) (htag : ∀ m ∈ ms, m.1 ≠ tag)
    (s : Setting) (room : Nat) :
    splitMembers tag words s (some w) (cutMembers room ms)
      = if depthMembers ms ≤ room then .ok (w, ms) else .error .malformed := by
  induction ms with
  | nil => rfl
  | cons m ms ih =>
    obtain ⟨k, v⟩ := m
    have hk : k ≠ tag := htag _ List.mem_cons_self
    have hrest := ih hms.2 (fun m hm => htag m (List.mem_cons_of_mem _ hm))
    simp only [cutMembers, splitMembers, hk, if_false, Json.readFault_cut hms.1, hrest,
      depthMembers, Nat.max_le]
    by_cases hfits : v.depth ≤ room
    · by_cases hmore : depthMembers ms ≤ room <;>
        simp [hfits, hmore, Json.cut_of_depth_le]
    · simp [hfits]

/-- **A tagged record is read through its tag**, and what is left of it as the
tag says. A cut of it is refused before that, so what is done then may depend
on the whole. -/
theorem Reads.tagged {k : Json → String × Json → Except Fault α}
    (hd : ∀ s j, d s j = Decoder.tagged tag words s j >>= k j) (hword : w ∈ words)
    (htag : ∀ m ∈ ms, m.1 ≠ tag) (hrest : PlainMembers ms)
    (hk : k (.object ((tag, .string w) :: ms)) (w, .object ms) = .ok a) :
    Reads d (.object ((tag, .string w) :: ms)) a := by
  refine .of_members ⟨trivial, hrest⟩ (hd .direct _) fun s room _ => ?_
  have hcontains : words.contains w = true := by simpa using hword
  have hsplit : splitMembers tag words s none ((tag, .string w) :: cutMembers room ms)
      = if depthMembers ms ≤ room then .ok (w, ms) else .error .malformed := by
    simp only [splitMembers, if_true, Option.isSome_none, Bool.false_eq_true, if_false,
      tagWord, hcontains]
    exact splitMembers_cutMembers hrest htag s room
  have htagged : Decoder.tagged tag words s (.object ((tag, .string w) :: cutMembers room ms))
      = if depthMembers ms ≤ room then .ok (w, .object ms) else .error .malformed := by
    rw [Decoder.tagged, hsplit]
    split <;> rfl
  simp only [cutMembers, Json.cut, hd, htagged, depthMembers, Json.depth, Nat.zero_max]
  by_cases hfits : depthMembers ms ≤ room
  · rw [if_pos hfits, if_pos hfits, Json.cutMembers_of_depth_le hfits]
    exact hk
  · rw [if_neg hfits, if_neg hfits]
    rfl

end Tagged

end Decoder

end ExportSurface
