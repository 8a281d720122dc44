import ExportSurface.Json.Printer
import ExportSurface.Json.Reader
import Mathlib.Tactic.SplitIfs
/-!
# JSON — what is printed is read back

A printed value is read as itself, whatever follows it in the text, unless it
nests deeper than the reader allows. Then the reader sees the value *cut* at
the room it has: what would open one container too many is a leaf that cannot
be read, though it can be passed over.
-/

namespace ExportSurface

namespace Json

variable {fuel room level : Nat} {rest : List Char}

/-! ## Plain values and their cuts -/

mutual

/-- Whether the value is made of texts, literals, arrays and objects only. -/
def Plain : Json → Prop
  | .null | .bool _ | .string _ => True
  | .array items => PlainItems items
  | .object members => PlainMembers members
  | .number _ | .fault _ | .gap _ => False

/-- Whether all the items are plain. -/
def PlainItems : List Json → Prop
  | [] => True
  | v :: vs => Plain v ∧ PlainItems vs

/-- Whether the values of all the members are plain. -/
def PlainMembers : List (String × Json) → Prop
  | [] => True
  | (_, v) :: ms => Plain v ∧ PlainMembers ms

end

/-- A container for which no room is left. -/
def beyond : Json := .fault ⟨.malformed, none, .malformed⟩

mutual

/-- The value as a reader sees it that may open `room` containers inside one
another. -/
def cut (room : Nat) : Json → Json
  | .array items => if room = 0 then beyond else .array (cutItems (room - 1) items)
  | .object members => if room = 0 then beyond else .object (cutMembers (room - 1) members)
  | v => v

/-- The items, cut one by one. -/
def cutItems (room : Nat) : List Json → List Json
  | [] => []
  | v :: vs => cut room v :: cutItems room vs

/-- The members, their values cut one by one. -/
def cutMembers (room : Nat) : List (String × Json) → List (String × Json)
  | [] => []
  | (k, v) :: ms => (k, cut room v) :: cutMembers room ms

end

mutual

/-- What fits is left whole. -/
theorem cut_of_depth_le : ∀ {v : Json} {room : Nat}, v.depth ≤ room → v.cut room = v
  | .null, _, _ | .bool _, _, _ | .number _, _, _ | .string _, _, _
  | .fault _, _, _ | .gap _, _, _ => by simp only [cut]
  | .array items, room, h => by
    simp only [depth] at h
    have hroom : room ≠ 0 := by omega
    have hitems : depthItems items ≤ room - 1 := by omega
    simp only [cut, hroom, if_false, cutItems_of_depth_le hitems]
  | .object members, room, h => by
    simp only [depth] at h
    have hroom : room ≠ 0 := by omega
    have hmembers : depthMembers members ≤ room - 1 := by omega
    simp only [cut, hroom, if_false, cutMembers_of_depth_le hmembers]

theorem cutItems_of_depth_le :
    ∀ {vs : List Json} {room : Nat}, depthItems vs ≤ room → cutItems room vs = vs
  | [], _, _ => rfl
  | v :: vs, room, h => by
    simp only [depthItems, Nat.max_le] at h
    simp only [cutItems, cut_of_depth_le h.1, cutItems_of_depth_le h.2]

theorem cutMembers_of_depth_le :
    ∀ {ms : List (String × Json)} {room : Nat},
      depthMembers ms ≤ room → cutMembers room ms = ms
  | [], _, _ => rfl
  | (k, v) :: ms, room, h => by
    simp only [depthMembers, Nat.max_le] at h
    simp only [cutMembers, cut_of_depth_le h.1, cutMembers_of_depth_le h.2]

end

/-- Only `null` is cut to `null`. -/
theorem cut_ne_null : ∀ {v : Json}, v ≠ .null → v.cut room ≠ .null
  | .null, h => absurd rfl h
  | .array _, _ | .object _, _ => by
    simp only [cut, beyond]
    split <;> simp
  | .bool _, _ | .number _, _ | .string _, _ | .fault _, _ | .gap _, _ => by simp [cut]

/-- No plain value is cut to a gap. -/
theorem cut_ne_gap (flaw : Flaw) : ∀ {v : Json}, v.Plain → v.cut room ≠ .gap flaw
  | .array _, _ | .object _, _ => by
    simp only [cut, beyond]
    split <;> simp
  | .null, _ | .bool _, _ | .string _, _ => by simp [cut]

mutual

/-- A plain value can be passed over at any depth. -/
theorem passFault_cut : ∀ {v : Json} {room : Nat}, v.Plain → (v.cut room).passFault = none
  | .null, _, _ | .bool _, _, _ | .string _, _, _ => by simp only [cut, passFault]
  | .array items, room, h => by
    simp only [cut]
    split
    · rfl
    · exact passFault_cutItems h
  | .object members, room, h => by
    simp only [cut]
    split
    · rfl
    · exact passFault_cutMembers h

theorem passFault_cutItems :
    ∀ {vs : List Json} {room : Nat}, PlainItems vs → passFaultItems (cutItems room vs) = none
  | [], _, _ => rfl
  | v :: vs, room, h => by
    simp only [cutItems, passFaultItems, passFault_cut h.1, passFault_cutItems h.2, Option.or]

theorem passFault_cutMembers :
    ∀ {ms : List (String × Json)} {room : Nat},
      PlainMembers ms → passFaultMembers (cutMembers room ms) = none
  | [], _, _ => rfl
  | (k, v) :: ms, room, h => by
    simp only [cutMembers, passFaultMembers, passFault_cut h.1, passFault_cutMembers h.2,
      Option.or]

end

mutual

/-- **A plain value can be read in full just if it fits.** -/
theorem readFault_cut : ∀ {v : Json} {room : Nat}, v.Plain →
    (v.cut room).readFault = if v.depth ≤ room then none else some .malformed
  | .null, _, _ | .bool _, _, _ | .string _, _, _ => by simp [cut, readFault, depth]
  | .array items, room, h => by
    simp only [cut, depth]
    split <;> rename_i hroom
    · simp [beyond, readFault, hroom]
    · simp only [readFault, readFault_cutItems h]
      congr 1
      exact propext ⟨by omega, by omega⟩
  | .object members, room, h => by
    simp only [cut, depth]
    split <;> rename_i hroom
    · simp [beyond, readFault, hroom]
    · simp only [readFault, readFault_cutMembers h]
      congr 1
      exact propext ⟨by omega, by omega⟩

theorem readFault_cutItems : ∀ {vs : List Json} {room : Nat}, PlainItems vs →
    readFaultItems (cutItems room vs)
      = if depthItems vs ≤ room then none else some .malformed
  | [], _, _ => rfl
  | v :: vs, room, h => by
    simp only [cutItems, readFaultItems, readFault_cut h.1, readFault_cutItems h.2, depthItems,
      Nat.max_le]
    by_cases hv : v.depth ≤ room <;> simp [hv]

theorem readFault_cutMembers : ∀ {ms : List (String × Json)} {room : Nat}, PlainMembers ms →
    readFaultMembers (cutMembers room ms)
      = if depthMembers ms ≤ room then none else some .malformed
  | [], _, _ => rfl
  | (k, v) :: ms, room, h => by
    simp only [cutMembers, readFaultMembers, readFault_cut h.1, readFault_cutMembers h.2,
      depthMembers, Nat.max_le]
    by_cases hv : v.depth ≤ room <;> simp [hv]

end

/-! ## Gaps between tokens -/

/-- A break and an indentation are skipped. -/
theorem skipGap_newline (cs : List Char) : skipGap (newline level ++ cs) = skipGap cs := by
  have hblank : ∀ c ∈ newline level, isGap c = true := by
    intro c hc
    simp only [newline, List.mem_cons, List.mem_replicate] at hc
    obtain rfl | ⟨-, rfl⟩ := hc <;> decide
  exact List.dropWhile_append_of_pos hblank

/-- Nothing is skipped where no gap is. -/
theorem skipGap_cons {c : Char} (h : isGap c = false) : skipGap (c :: rest) = c :: rest := by
  simp [skipGap, h]

/-- **A printed value starts with a character of its own**, neither a gap nor
the bracket that would close an array. -/
theorem prettyChars_head (level : Nat) : ∀ {v : Json}, v.Plain →
    ∃ c cs, v.prettyChars level = c :: cs ∧ isGap c = false ∧ c ≠ ']'
  | .null, _ => ⟨'n', _, rfl, by decide, by decide⟩
  | .bool true, _ => ⟨'t', _, rfl, by decide, by decide⟩
  | .bool false, _ => ⟨'f', _, rfl, by decide, by decide⟩
  | .string _, _ => ⟨'"', _, rfl, by decide, by decide⟩
  | .array [], _ | .array (_ :: _), _ => ⟨'[', _, rfl, by decide, by decide⟩
  | .object [], _ | .object (_ :: _), _ => ⟨'\x7b', _, rfl, by decide, by decide⟩

/-! ## Quoted texts -/

/-- The two digits of a small number are read as the number. -/
theorem fourHex_small {n : Nat} (h : n < 0x20) :
    fourHex ('0' :: '0' :: hexDigit (n / 16) :: hexDigit (n % 16) :: rest) = .ok (n, rest) := by
  have hdigit : ∀ k < 16, Text.hexValue? (hexDigit k) = some k := by decide
  have hzero : Text.hexValue? '0' = some 0 := by decide
  simp only [fourHex, hzero, hdigit (n / 16) (by omega), hdigit (n % 16) (by omega)]
  congr 2
  omega

/-- **What stands for a character inside quotes is read as that character**,
in one step. -/
theorem scanQuoted_quotedChar (c : Char) (acc : List Char) (flaw : Option Fault) :
    scanQuoted (fuel + 1) acc flaw (quotedChar c ++ rest)
      = scanQuoted fuel (c :: acc) flaw rest := by
  unfold quotedChar
  split_ifs with h1 h2 h3 h4 h5 h6 h7 h8
  · simp [scanQuoted, simpleEscape?, h1]
  · simp [scanQuoted, simpleEscape?, h2]
  · simp [scanQuoted, simpleEscape?, h3]
  · simp [scanQuoted, simpleEscape?, h4]
  · simp [scanQuoted, simpleEscape?, h5]
  · simp [scanQuoted, simpleEscape?, h6]
  · simp [scanQuoted, simpleEscape?, h7]
  · have hhigh : isHighHalf c.toNat = false := by simp [isHighHalf]; omega
    have hlow : isLowHalf c.toNat = false := by simp [isLowHalf]; omega
    simp only [List.cons_append, List.nil_append, scanQuoted, fourHex_small h8, hhigh, hlow,
      Bool.false_eq_true, if_false, Char.ofNat_toNat]
  · simp [scanQuoted, h8, h2]

/-- The characters up to the closing quote are read back. -/
theorem scanQuoted_flatMap (cs : List Char) (acc : List Char) (flaw : Option Fault)
    (h : cs.length < fuel) :
    scanQuoted fuel acc flaw (cs.flatMap quotedChar ++ '"' :: rest)
      = ⟨cs.reverse ++ acc, flaw, .ok rest⟩ := by
  induction cs generalizing fuel acc with
  | nil =>
    obtain ⟨fuel, rfl⟩ := Nat.exists_eq_succ_of_ne_zero (by omega : fuel ≠ 0)
    simp [scanQuoted]
  | cons c cs ih =>
    obtain ⟨fuel, rfl⟩ := Nat.exists_eq_succ_of_ne_zero (by omega : fuel ≠ 0)
    simp only [List.length_cons] at h
    have hrest : cs.length < fuel := by omega
    simp only [List.flatMap_cons, List.append_assoc, Nat.succ_eq_add_one,
      scanQuoted_quotedChar, ih (c :: acc) hrest, List.reverse_cons, List.nil_append,
      List.cons_append]

/-- A character takes at least one character inside quotes. -/
theorem length_le_flatMap_quotedChar (cs : List Char) :
    cs.length ≤ (cs.flatMap quotedChar).length := by
  have hpos : ∀ c, 0 < (quotedChar c).length := by
    intro c
    unfold quotedChar
    split_ifs <;> simp
  induction cs with
  | nil => simp
  | cons c cs ih =>
    have hc := hpos c
    simp only [List.flatMap_cons, List.length_append, List.length_cons]
    omega

/-- **A quoted text is read back.** -/
theorem scanString_quoted (s : String) :
    scanString (s.toList.flatMap quotedChar ++ '"' :: rest)
      = ⟨s.toList.reverse, none, .ok rest⟩ := by
  have hlength := length_le_flatMap_quotedChar s.toList
  rw [scanString, scanQuoted_flatMap _ _ _ (by simp only [List.length_append]; omega),
    List.append_nil]

/-! ## Values

One step of reading where the text goes on as a printed one does: on a line of
its own stands the next item or member, after a comma if it is not the first. -/

/-- A printed value has no gap before it. -/
theorem skipGap_pretty {v : Json} (h : v.Plain) :
    skipGap (v.prettyChars level ++ rest) = v.prettyChars level ++ rest := by
  obtain ⟨c, cs, hhead, hgap, -⟩ := prettyChars_head level h
  simp only [hhead, List.cons_append, skipGap_cons hgap]

/-- **An item is read where it starts.** -/
theorem scanItems_of_scanValue {v v' : Json} {vs : List Json} {end? : Option (List Char)}
    (h : v.Plain) (hv : scanValue fuel room (v.prettyChars level ++ rest) = (v', some rest))
    (hvs : scanItems fuel room false rest = (vs, end?)) :
    scanItems (fuel + 2) room true (newline level ++ v.prettyChars level ++ rest)
        = (v' :: vs, end?) ∧
      scanItems (fuel + 2) room false (',' :: newline level ++ v.prettyChars level ++ rest)
        = (v' :: vs, end?) := by
  obtain ⟨c, cs, hhead, hgap, hc⟩ := prettyChars_head level h
  simp only [hhead, List.cons_append] at hv ⊢
  have hskip : skipGap (newline level ++ c :: (cs ++ rest)) = c :: (cs ++ rest) := by
    rw [skipGap_newline, skipGap_cons hgap]
  have hcomma : ∀ text, skipGap (',' :: text) = ',' :: text := fun _ =>
    skipGap_cons (by decide)
  have hitem : scanItem (fuel + 1) room (c :: (cs ++ rest)) = (v' :: vs, end?) := by
    simp only [scanItem, hv, hvs]
  constructor
  · simp [scanItems, hskip, hitem]
  · simp [scanItems, hcomma, hskip, hitem, hc]

/-- **A member is read where it starts.** -/
theorem scanMembers_of_scanValue {k : String} {v v' : Json} {ms : List (String × Json)}
    {end? : Option (List Char)}
    (hv : scanValue fuel room (' ' :: (v.prettyChars level ++ rest)) = (v', some rest))
    (hms : scanMembers fuel room false rest = (ms, end?)) :
    scanMembers (fuel + 2) room true
        (newline level ++ quoted k ++ ':' :: ' ' :: v.prettyChars level ++ rest)
        = ((k, v') :: ms, end?) ∧
      scanMembers (fuel + 2) room false
        (',' :: newline level ++ quoted k ++ ':' :: ' ' :: v.prettyChars level ++ rest)
        = ((k, v') :: ms, end?) := by
  have hquote : ∀ text, skipGap ('"' :: text) = '"' :: text := fun _ =>
    skipGap_cons (by decide)
  have hcomma : ∀ text, skipGap (',' :: text) = ',' :: text := fun _ =>
    skipGap_cons (by decide)
  have hcolon : ∀ text, skipGap (':' :: text) = ':' :: text := fun _ =>
    skipGap_cons (by decide)
  have hmember : ∀ first, scanMember (fuel + 1) room first
      ('"' :: (k.toList.flatMap quotedChar ++ '"' :: ':' :: ' ' :: (v.prettyChars level ++ rest)))
        = ((k, v') :: ms, end?) := by
    intro first
    simp [scanMember, scanString_quoted, hcolon, hv, hms]
  constructor
  · simp [scanMembers, quoted, skipGap_newline, hquote, hmember]
  · simp [scanMembers, quoted, hcomma, skipGap_newline, hquote, hmember]

/-- The items that were read make up the array, cut. -/
theorem within_cutItems {vs : List Json} (h : PlainItems vs) :
    within room (.array (cutItems (room - 1) vs)) = (Json.array vs).cut room := by
  simp only [within, cut, beyond, passFault, passFault_cutItems h]

/-- The members that were read make up the object, cut. -/
theorem within_cutMembers {ms : List (String × Json)} (h : PlainMembers ms) :
    within room (.object (cutMembers (room - 1) ms)) = (Json.object ms).cut room := by
  simp only [within, cut, beyond, passFault, passFault_cutMembers h]

mutual

/-- **A printed value is read as its cut**, and what follows it is left. Three
steps for each of its characters are enough. -/
theorem scanValue_pretty : ∀ {v : Json} {fuel room level : Nat} {cs rest : List Char}, v.Plain →
    skipGap cs = v.prettyChars level ++ rest → 3 * (v.prettyChars level).length ≤ fuel →
    scanValue fuel room cs = (v.cut room, some rest)
  | .null, fuel + 1, _, _, _, _, _, hcs, _ => by simp [scanValue, hcs, prettyChars, scanWord, cut]
  | .bool true, fuel + 1, _, _, _, _, _, hcs, _ => by
    simp [scanValue, hcs, prettyChars, scanWord, cut]
  | .bool false, fuel + 1, _, _, _, _, _, hcs, _ => by
    simp [scanValue, hcs, prettyChars, scanWord, cut]
  | .string s, fuel + 1, _, _, _, _, _, hcs, _ => by
    simp [scanValue, hcs, prettyChars, quoted, scanString_quoted, cut]
  | .array [], fuel + 2, room, _, _, rest, h, hcs, _ => by
    have hclose : scanItems (fuel + 1) (room - 1) true (']' :: rest) = ([], some rest) := by
      simp [scanItems, skipGap_cons (by decide : isGap ']' = false)]
    simp only [scanValue, hcs, prettyChars, List.cons_append, List.nil_append, hclose]
    rw [← within_cutItems h, cutItems]
  | .array (v :: vs), fuel + 3, room, level, _, rest, h, hcs, hfuel => by
    simp only [prettyChars, List.length_cons, List.length_append] at hfuel
    have hv : scanValue fuel (room - 1)
          (v.prettyChars (level + 1) ++ (prettyItems level vs ++ rest))
        = (v.cut (room - 1), some (prettyItems level vs ++ rest)) :=
      scanValue_pretty h.1 (skipGap_pretty h.1) (by omega)
    have hvs : scanItems fuel (room - 1) false (prettyItems level vs ++ rest)
        = (cutItems (room - 1) vs, some rest) := scanItems_pretty h.2 (by omega)
    have hitems := (scanItems_of_scanValue h.1 hv hvs).1
    simp only [List.append_assoc] at hitems
    simp only [scanValue, hcs, prettyChars, List.cons_append, List.append_assoc, hitems]
    rw [← within_cutItems h, cutItems]
  | .object [], fuel + 2, room, _, _, rest, h, hcs, _ => by
    have hclose : scanMembers (fuel + 1) (room - 1) true ('\x7d' :: rest) = ([], some rest) := by
      simp [scanMembers, skipGap_cons (by decide : isGap '\x7d' = false)]
    simp only [scanValue, hcs, prettyChars, List.cons_append, List.nil_append, hclose]
    rw [← within_cutMembers h, cutMembers]
  | .object ((k, v) :: ms), fuel + 3, room, level, _, rest, h, hcs, hfuel => by
    simp only [prettyChars, List.length_cons, List.length_append] at hfuel
    have hv : scanValue fuel (room - 1)
          (' ' :: (v.prettyChars (level + 1) ++ (prettyMembers level ms ++ rest)))
        = (v.cut (room - 1), some (prettyMembers level ms ++ rest)) :=
      scanValue_pretty h.1 (skipGap_pretty h.1) (by omega)
    have hms : scanMembers fuel (room - 1) false (prettyMembers level ms ++ rest)
        = (cutMembers (room - 1) ms, some rest) := scanMembers_pretty h.2 (by omega)
    have hmembers := (scanMembers_of_scanValue (k := k) hv hms).1
    simp only [List.append_assoc, List.cons_append] at hmembers
    simp only [scanValue, hcs, prettyChars, List.cons_append, List.append_assoc, hmembers]
    rw [← within_cutMembers h, cutMembers]

/-- The items after the first are read back. -/
theorem scanItems_pretty : ∀ {vs : List Json} {fuel room level : Nat} {rest : List Char},
    PlainItems vs → 3 * (prettyItems level vs).length ≤ fuel →
    scanItems fuel room false (prettyItems level vs ++ rest) = (cutItems room vs, some rest)
  | [], fuel, room, level, rest, _, hfuel => by
    simp only [prettyItems, List.length_append, List.length_singleton] at hfuel
    obtain ⟨fuel, rfl⟩ := Nat.exists_eq_succ_of_ne_zero (by omega : fuel ≠ 0)
    simp [scanItems, prettyItems, skipGap_newline, skipGap_cons (by decide : isGap ']' = false),
      cutItems]
  | v :: vs, fuel, room, level, rest, h, hfuel => by
    simp only [prettyItems, List.length_cons, List.length_append] at hfuel
    obtain ⟨fuel, rfl⟩ := Nat.exists_eq_add_of_le' (by omega : 2 ≤ fuel)
    have hv : scanValue fuel room (v.prettyChars (level + 1) ++ (prettyItems level vs ++ rest))
        = (v.cut room, some (prettyItems level vs ++ rest)) :=
      scanValue_pretty h.1 (skipGap_pretty h.1) (by omega)
    have hvs : scanItems fuel room false (prettyItems level vs ++ rest)
        = (cutItems room vs, some rest) := scanItems_pretty h.2 (by omega)
    have hitems := (scanItems_of_scanValue h.1 hv hvs).2
    simpa only [prettyItems, cutItems, List.append_assoc, List.cons_append] using hitems

/-- The members after the first are read back. -/
theorem scanMembers_pretty : ∀ {ms : List (String × Json)} {fuel room level : Nat}
    {rest : List Char}, PlainMembers ms → 3 * (prettyMembers level ms).length ≤ fuel →
    scanMembers fuel room false (prettyMembers level ms ++ rest)
      = (cutMembers room ms, some rest)
  | [], fuel, room, level, rest, _, hfuel => by
    simp only [prettyMembers, List.length_append, List.length_singleton] at hfuel
    obtain ⟨fuel, rfl⟩ := Nat.exists_eq_succ_of_ne_zero (by omega : fuel ≠ 0)
    simp [scanMembers, prettyMembers, skipGap_newline,
      skipGap_cons (by decide : isGap '\x7d' = false), cutMembers]
  | (k, v) :: ms, fuel, room, level, rest, h, hfuel => by
    simp only [prettyMembers, List.length_cons, List.length_append] at hfuel
    obtain ⟨fuel, rfl⟩ := Nat.exists_eq_add_of_le' (by omega : 2 ≤ fuel)
    have hv : scanValue fuel room
          (' ' :: (v.prettyChars (level + 1) ++ (prettyMembers level ms ++ rest)))
        = (v.cut room, some (prettyMembers level ms ++ rest)) :=
      scanValue_pretty h.1 (skipGap_pretty h.1) (by omega)
    have hms : scanMembers fuel room false (prettyMembers level ms ++ rest)
        = (cutMembers room ms, some rest) := scanMembers_pretty h.2 (by omega)
    have hmembers := (scanMembers_of_scanValue (k := k) hv hms).2
    simpa only [prettyMembers, cutMembers, List.append_assoc, List.cons_append] using hmembers

end

/-- **A printed document is read as the value, cut at the greatest depth a
document may have.** -/
theorem ofText_pretty {v : Json} (h : v.Plain) :
    Document.ofText v.pretty = { root := v.cut maxDepth } := by
  have hskip : skipGap (v.prettyChars 0) = v.prettyChars 0 ++ [] := by
    have hgap : skipGap (v.prettyChars 0 ++ []) = v.prettyChars 0 ++ [] := skipGap_pretty h
    rwa [List.append_nil] at hgap ⊢
  have hscan : scanValue (3 * (v.prettyChars 0).length + 3) maxDepth (v.prettyChars 0)
      = (v.cut maxDepth, some []) := scanValue_pretty h hskip (by omega)
  simp [Document.ofText, pretty, hscan, skipGap]

end Json

end ExportSurface
