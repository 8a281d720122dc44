import ExportSurface.Json.Reader
import ExportSurface.Schema.Shape
/-!
# Nesting — how deep a text is read, and what is decoded from it

What is read nests no deeper than there is room for, whatever the text. What
is decoded from it may nest deeper when it is written again, since a record is
written in full and its text may have left out a list or a record inside it:
`Deepens d depth` bounds that by one container. A default is at most one
container deep, and it stands inside a record whose own container was there.
-/

namespace ExportSurface

/-! ## Reading -/

namespace Json

theorem depth_scanWord {v : Json} (hv : v.depth = 0) (word cs : List Char) :
    (scanWord v word cs).1.depth = 0 := by
  induction word generalizing cs with
  | nil => exact hv
  | cons w word ih =>
    cases cs with
    | nil => rfl
    | cons c cs =>
      rw [scanWord]
      split
      · exact ih cs
      · rfl

theorem depth_scanNumber (cs : List Char) : (scanNumber cs).1.depth = 0 := by
  unfold scanNumber
  simp only []
  repeat' split
  all_goals rfl

/-- A container read in the room that is left when it has been opened. -/
theorem depth_within_le {room : Nat} {v : Json} (h : v.depth ≤ room - 1 + 1) :
    (within room v).depth ≤ room := by
  unfold within
  split
  · exact Nat.zero_le _
  · omega

/-- Whether a number of steps reads nothing that nests deeper than there is
room for. -/
structure ReadsWithin (fuel : Nat) : Prop where
  value : ∀ room cs, (scanValue fuel room cs).1.depth ≤ room
  items : ∀ room first cs, depthItems (scanItems fuel room first cs).1 ≤ room
  item : ∀ room cs, depthItems (scanItem fuel room cs).1 ≤ room
  members : ∀ room first cs, depthMembers (scanMembers fuel room first cs).1 ≤ room
  member : ∀ room first cs, depthMembers (scanMember fuel room first cs).1 ≤ room

section Step

variable {fuel : Nat} (ih : ReadsWithin fuel) (room : Nat) (cs : List Char)
include ih

theorem depth_scanValue_succ : (scanValue (fuel + 1) room cs).1.depth ≤ room := by
  have hword : ∀ (v : Json) word cs, v.depth = 0 → (scanWord v word cs).1.depth ≤ room := by
    intro v word cs hv
    rw [depth_scanWord hv]
    exact Nat.zero_le _
  rw [scanValue]
  split
  · exact Nat.zero_le _
  · exact hword _ _ _ rfl
  · exact hword _ _ _ rfl
  · exact hword _ _ _ rfl
  · split <;> exact Nat.zero_le _
  · exact depth_within_le (Nat.succ_le_succ (ih.items _ _ _))
  · exact depth_within_le (Nat.succ_le_succ (ih.members _ _ _))
  · split
    · rw [depth_scanNumber]
      exact Nat.zero_le _
    · exact Nat.zero_le _

theorem depth_scanItems_succ (first : Bool) :
    depthItems (scanItems (fuel + 1) room first cs).1 ≤ room := by
  rw [scanItems]
  repeat' split
  all_goals first | exact ih.item _ _ | exact Nat.zero_le _

theorem depth_scanItem_succ : depthItems (scanItem (fuel + 1) room cs).1 ≤ room := by
  have hvalue := ih.value room cs
  rw [scanItem]
  split <;> rename_i heq <;> rw [heq] at hvalue
  · exact Nat.max_le.mpr ⟨hvalue, Nat.zero_le _⟩
  · exact Nat.max_le.mpr ⟨hvalue, ih.items _ _ _⟩

theorem depth_scanMembers_succ (first : Bool) :
    depthMembers (scanMembers (fuel + 1) room first cs).1 ≤ room := by
  rw [scanMembers]
  repeat' split
  all_goals first | exact ih.member _ _ _ | exact Nat.zero_le _

theorem depth_scanMember_succ (first : Bool) :
    depthMembers (scanMember (fuel + 1) room first cs).1 ≤ room := by
  rw [scanMember.eq_def]
  split
  · exact Nat.zero_le _
  case h_2 fuel' text hfuel =>
    obtain rfl : fuel = fuel' := Nat.succ.inj hfuel
    split
    case h_1 => exact Nat.zero_le _
    case h_2 reversed flaw rest _ =>
      cases flaw with
      | some _ => exact Nat.zero_le _
      | none =>
        -- The member's value is read first, and then the members from where it ends.
        refine Nat.max_le.mpr ⟨?_, ?_⟩
        · split
          · exact ih.value _ _
          · exact Nat.zero_le _
        · generalize hafter : Prod.snd _ = after
          cases after with
          | none => exact Nat.zero_le _
          | some rest => exact ih.members _ _ _
  · simp only
    split <;> exact Nat.zero_le _

end Step

/-- **Nothing that is read nests deeper than there is room for.** -/
theorem readsWithin (fuel : Nat) : ReadsWithin fuel := by
  induction fuel with
  | zero =>
    refine ⟨fun _ _ => ?_, fun _ _ _ => ?_, fun _ _ => ?_, fun _ _ _ => ?_, fun _ _ _ => ?_⟩ <;>
      simp [scanValue, scanItems, scanItem, scanMembers, scanMember, broken, brokenOff, depth,
        depthItems, depthMembers]
  | succ fuel ih =>
    exact ⟨depth_scanValue_succ ih, fun room first cs => depth_scanItems_succ ih room cs first,
      depth_scanItem_succ ih, fun room first cs => depth_scanMembers_succ ih room cs first,
      fun room first cs => depth_scanMember_succ ih room cs first⟩

/-- **A document nests no deeper than a document may.** -/
theorem depth_ofText_le (text : String) : (Document.ofText text).root.depth ≤ maxDepth := by
  have hvalue := (readsWithin (3 * text.toList.length + 3)).value maxDepth text.toList
  simp only [Document.ofText]
  split <;> rename_i heq <;> rwa [heq] at hvalue

end Json

/-! ## Decoding -/

namespace Decoder

open Json (depthItems depthMembers)

variable {α β : Type}

theorem of_bind_eq_ok {x : Except Fault α} {f : α → Except Fault β} {b : β}
    (h : x >>= f = .ok b) : ∃ a, x = .ok a ∧ f a = .ok b := by
  cases x with
  | error fault => cases h
  | ok a => exact ⟨a, rfl, h⟩

theorem of_map_eq_ok {x : Except Fault α} {f : α → β} {b : β} (h : f <$> x = .ok b) :
    ∃ a, x = .ok a ∧ f a = b := by
  cases x with
  | error fault => cases h
  | ok a => exact ⟨a, rfl, Except.ok.inj h⟩

/-- **What is decoded is at most one container deeper than what it is decoded
from**, `depth` being that of its written form. -/
def Deepens (d : Decoder α) (depth : α → Nat) : Prop :=
  ∀ (s : Setting) (j : Json) (a : α), d s j = .ok a → depth a ≤ j.depth + 1

namespace Deepens

variable {d : Decoder α} {depth : α → Nat}

theorem map {f : α → β} {depth' : β → Nat} (h : Deepens d depth)
    (hf : ∀ a, depth' (f a) ≤ depth a) : Deepens (Decoder.map f d) depth' := by
  intro s j b hb
  obtain ⟨a, ha, rfl⟩ := of_map_eq_ok hb
  exact Nat.le_trans (hf a) (h _ _ _ ha)

/-- `null` takes the place of what is absent. -/
theorem option {toJson : α → Json} (h : Deepens d fun a => (toJson a).depth) :
    Deepens (Decoder.option d) fun a => (Json.option toJson a).depth := by
  intro s j a ha
  unfold Decoder.option at ha
  split at ha
  · cases ha
    exact Nat.zero_le _
  · obtain ⟨b, hb, rfl⟩ := of_map_eq_ok ha
    exact h _ _ _ hb

/-- **A list is as deep as its items make it.** -/
theorem list {toJson : α → Json} (h : Deepens d fun a => (toJson a).depth) :
    Deepens (Decoder.list d) fun as => (Json.array (as.map toJson)).depth := by
  intro s j as has
  unfold Decoder.list at has
  split at has
  · rename_i items
    simp only [Json.depth, Nat.add_le_add_iff_right]
    induction items generalizing as with
    | nil =>
      cases has
      exact Nat.zero_le _
    | cons v vs ih =>
      rw [List.mapM_cons] at has
      obtain ⟨b, hb, hrest⟩ := of_bind_eq_ok has
      obtain ⟨bs, hbs, hall⟩ := of_bind_eq_ok hrest
      cases hall
      have hv : (toJson b).depth ≤ v.depth + 1 := by
        split at hb
        · cases hb
        · exact h _ _ _ hb
      have hvs := ih _ hbs
      simp only [List.map_cons, depthItems]
      omega
  · cases has

end Deepens

/-! ## Records -/

/-- Whether filling the field makes the record no deeper than it is already, or
one container deeper than the member. -/
def Field.StaysWithin (f : Field α) (depth : α → Nat) : Prop :=
  ∀ (s : Setting) (j : Json) (put : α → α) (a : α) (n : Nat),
    f.fill s j = .ok put → depth a ≤ n → j.depth < n → depth (put a) ≤ n

namespace Field.StaysWithin

variable {d : Decoder β} {depth : α → Nat} {size : β → Nat} {put : β → α → α}

/-- A value that is no deeper in the record than it is written. -/
theorem needed (name : String) (h : Deepens d size)
    (hput : ∀ b a n, size b ≤ n → depth a ≤ n → depth (put b a) ≤ n) :
    (Field.needed name d put).StaysWithin depth := by
  intro s j _ a n hfill ha hj
  obtain ⟨b, hb, rfl⟩ := of_map_eq_ok hfill
  exact hput b a n (Nat.le_trans (h _ _ _ hb) hj) ha

theorem free (name : String) (h : Deepens d size)
    (hput : ∀ b a n, size b ≤ n → depth a ≤ n → depth (put b a) ≤ n) :
    (Field.free name d put).StaysWithin depth :=
  needed name h hput

/-- A value that takes one container at most, whatever it is. -/
theorem neededFlat (name : String) (hput : ∀ b a n, 0 < n → depth a ≤ n → depth (put b a) ≤ n) :
    (Field.needed name d put).StaysWithin depth := by
  intro s j _ a n hfill ha hj
  obtain ⟨b, -, rfl⟩ := of_map_eq_ok hfill
  exact hput b a n (Nat.zero_lt_of_lt hj) ha

theorem freeFlat (name : String) (hput : ∀ b a n, 0 < n → depth a ≤ n → depth (put b a) ≤ n) :
    (Field.free name d put).StaysWithin depth :=
  neededFlat name hput

end Field.StaysWithin

section Record

variable {fields : List (Field α)} {depth : α → Nat} {s : Setting} {a b : α} {n : Nat}

theorem depth_fillByName {ms : List (String × Json)} {seen : List String}
    (hfields : ∀ f ∈ fields, f.StaysWithin depth) (h : fillByName fields s seen a ms = .ok b)
    (ha : depth a ≤ n) (hms : depthMembers ms < n) : depth b ≤ n := by
  induction ms generalizing seen a with
  | nil =>
    simp only [fillByName] at h
    split at h
    · cases h
      exact ha
    · cases h
  | cons m ms ih =>
    obtain ⟨name, v⟩ := m
    simp only [depthMembers, Nat.max_lt] at hms
    rw [fillByName.eq_def] at h
    split at h
    case h_1 hnil => cases hnil
    case h_2 hgap => cases h
    case h_3 hcons =>
      cases hcons
      split at h
      case h_1 =>
        -- The value of a member of no field's name is passed over.
        split at h
        · cases h
        · exact ih h ha hms.2
      case h_2 f hf =>
        split at h
        · cases h
        · obtain ⟨put, hput, hrest⟩ := of_bind_eq_ok h
          have hf := List.mem_of_find?_eq_some hf
          exact ih hrest (hfields f hf _ _ _ _ _ hput ha hms.1) hms.2

theorem depth_fillInOrder {vs : List Json} (hfields : ∀ f ∈ fields, f.StaysWithin depth)
    (h : fillInOrder s a fields vs = .ok b) (ha : depth a ≤ n) (hvs : depthItems vs < n) :
    depth b ≤ n := by
  induction vs generalizing fields a with
  | nil =>
    cases fields with
    | nil =>
      cases h
      exact ha
    | cons f fields =>
      simp only [fillInOrder] at h
      split at h
      · cases h
        exact ha
      · cases h
  | cons v vs ih =>
    simp only [depthItems, Nat.max_lt] at hvs
    rw [fillInOrder.eq_def] at h
    split at h
    case h_1 hnil => cases hnil
    case h_2 => cases h
    case h_3 _ hnil => cases hnil
    case h_4 => cases h
    case h_5 hcons =>
      cases hcons
      obtain ⟨put, hput, hrest⟩ := of_bind_eq_ok h
      have hhead := hfields _ List.mem_cons_self _ _ _ _ _ hput ha hvs.1
      exact ih (fun f hf => hfields f (List.mem_cons_of_mem _ hf)) hrest hhead hvs.2

/-- **A record is no deeper inside than what it is decoded from.** -/
theorem depth_record {blank : α} {j : Json} (hfields : ∀ f ∈ fields, f.StaysWithin depth)
    (hblank : depth blank ≤ 1) (h : record fields blank s j = .ok a) : depth a ≤ j.depth := by
  unfold record at h
  split at h
  · exact depth_fillByName hfields h (Nat.le_trans hblank (Nat.le_add_left _ _))
      (Nat.lt_succ_self _)
  · exact depth_fillInOrder hfields h (Nat.le_trans hblank (Nat.le_add_left _ _))
      (Nat.lt_succ_self _)
  · cases h

/-- **A record is at most one container deeper than what it is decoded from.** -/
theorem Deepens.record {fields : List (Field α)} {blank : α} (written : α → List (String × Json))
    (hblank : depthMembers (written blank) ≤ 1)
    (hfields : ∀ f ∈ fields, f.StaysWithin fun a => depthMembers (written a)) :
    Deepens (Decoder.record fields blank) fun a => (Json.object (written a)).depth := by
  intro s j a ha
  have hinside := depth_record hfields hblank ha
  exact Nat.succ_le_succ hinside

end Record

/-! ## Tagged records -/

theorem depth_splitMembers {tag w : String} {words : List String} {s : Setting}
    {found : Option String} {ms rest : List (String × Json)}
    (h : splitMembers tag words s found ms = .ok (w, rest)) :
    depthMembers rest ≤ depthMembers ms := by
  induction ms generalizing found rest with
  | nil => cases found <;> cases h; exact Nat.le_refl _
  | cons m ms ih =>
    obtain ⟨name, v⟩ := m
    simp only [splitMembers] at h
    split at h
    · split at h
      · cases h
      · obtain ⟨w', -, hrest⟩ := of_bind_eq_ok h
        exact Nat.le_trans (ih hrest) (Nat.le_max_right _ _)
    · split at h
      · cases h
      · obtain ⟨⟨w', rest'⟩, hsplit, heq⟩ := of_bind_eq_ok h
        cases heq
        have hrest := ih hsplit
        simp only [depthMembers]
        omega

theorem depth_tagged {tag w : String} {words : List String} {s : Setting} {j rest : Json}
    (h : tagged tag words s j = .ok (w, rest)) : rest.depth ≤ j.depth := by
  unfold tagged at h
  split at h
  · obtain ⟨⟨w', ms'⟩, hsplit, heq⟩ := of_bind_eq_ok h
    cases heq
    exact Nat.succ_le_succ (depth_splitMembers hsplit)
  · cases h
  · obtain ⟨w', -, hrest⟩ := of_bind_eq_ok h
    split at hrest
    · cases hrest
    · cases hrest
      exact Nat.succ_le_succ (Nat.le_max_right _ _)
  · cases h

end Decoder

end ExportSurface
