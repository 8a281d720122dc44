import ExportSurface.Proofs.GlobLanguage
/-!
# Globs — the text of a class

`WritesItems` is the grammar of what stands between the brackets of a class
and `WritesClass` adds the mark that negates it. A class ends at the first
closing bracket that is not escaped: the texts of these grammars hold none.
They are compared with the scanner here (`WritesClass.scan_eq`), which finds
no other classes and leaves all others open (`exists_class_or_open`).
-/

namespace ExportSurface

namespace Glob

/-- **Which texts write which items** between the brackets of a class. -/
inductive WritesItems : List Char → List ClassItem → Prop where
  | nil : WritesItems [] []
  /-- After a backslash every character stands for itself. -/
  | escaped {c : Char} {cs : List Char} {items : List ClassItem} (rest : WritesItems cs items) :
      WritesItems ('\\' :: c :: cs) (.char c :: items)
  | hyphen {cs : List Char} {items : List ClassItem} (rest : WritesItems cs items) :
      WritesItems ('-' :: cs) (.hyphen :: items)
  | plain {c : Char} {cs : List Char} {items : List ClassItem} (hc : c ∉ ['\\', ']', '-'])
      (rest : WritesItems cs items) : WritesItems (c :: cs) (.char c :: items)

/-- **Which texts write which classes** between their brackets: a mark right at
the start negates the items after it. -/
inductive WritesClass : List Char → Bool → List ClassItem → Prop where
  | negated {mark : Char} {cs : List Char} {items : List ClassItem} (hmark : mark ∈ ['!', '^'])
      (body : WritesItems cs items) : WritesClass (mark :: cs) true items
  | listed {cs : List Char} {items : List ClassItem}
      (hcs : ∀ mark ∈ ['!', '^'], cs.head? ≠ some mark)
      (body : WritesItems cs items) : WritesClass cs false items

variable {n : Nat} {negated : Bool} {c : Char} {cs text rest : List Char}
variable {before items : List ClassItem}

/-! ## What the scanner makes of them -/

/-- The items of a text are added to those before it. -/
theorem WritesItems.scan_eq (h : WritesItems text items) (n : Nat) (negated : Bool)
    (before : List ClassItem) (rest : List Char) :
    scan (.inside n negated before) (text ++ rest)
      = scan (.inside n negated (before ++ items)) rest := by
  induction h generalizing before with
  | nil => simp
  | escaped _ ih =>
    simp only [List.cons_append, scan, ih]
    simp
  | hyphen _ ih =>
    simp only [List.cons_append, scan, ih]
    simp
  | plain hc _ ih =>
    rw [List.cons_append, scan_inside_plain hc, ih]
    simp

/-- A text that does not start with a mark is scanned as items from its start. -/
theorem scan_bracket (hcs : ∀ mark ∈ ['!', '^'], cs.head? ≠ some mark) :
    scan (.outside n) ('[' :: cs) = scan (.inside n false []) cs := by
  cases cs with
  | nil => simp [scan]
  | cons c cs =>
    have hbang : c ≠ '!' := by simpa using hcs '!' (by simp)
    have hcaret : c ≠ '^' := by simpa using hcs '^' (by simp)
    rw [scan] <;> simp [hbang, hcaret]

theorem scan_bracket_mark {mark : Char} (hmark : mark ∈ ['!', '^']) :
    scan (.outside n) ('[' :: mark :: cs) = scan (.inside n true []) cs := by
  simp only [List.mem_cons, List.not_mem_nil, or_false] at hmark
  obtain rfl | rfl := hmark <;> simp [scan]

/-- **A class is scanned as the token of its items**, and the scanner goes on
behind its closing bracket. -/
theorem WritesClass.scan_eq (h : WritesClass text negated items) (n : Nat) (rest : List Char) :
    scan (.outside n) ('[' :: text ++ ']' :: rest)
      = .set negated items true :: scan (.outside n) rest := by
  cases h with
  | negated hmark hbody =>
    rw [List.cons_append, List.cons_append, scan_bracket_mark hmark, hbody.scan_eq]
    simp [scan]
  | listed hcs hbody =>
    have hstart : ∀ mark ∈ ['!', '^'], (text ++ ']' :: rest).head? ≠ some mark := by
      cases text with
      | nil => simp
      | cons c text => exact hcs
    rw [List.cons_append, scan_bracket hstart, hbody.scan_eq]
    simp [scan]

/-! ## Every class that is closed -/

/-- Whether items and the bracket that closes them stand at the start of a text
inside a class; if not, the class stays open up to the end. -/
def ClosedOrOpen (cs : List Char) : Prop :=
  (∃ text items rest, WritesItems text items ∧ cs = text ++ ']' :: rest) ∨
    ∀ n negated before, ∃ items, scan (.inside n negated before) cs = [.set negated items false]

/-- One more item in front does not decide it. -/
theorem ClosedOrOpen.prepend (pre : List Char) (item : ClassItem) (h : ClosedOrOpen cs)
    (hwrites : ∀ text items, WritesItems text items → WritesItems (pre ++ text) (item :: items))
    (hscan : ∀ n negated before, scan (.inside n negated before) (pre ++ cs)
      = scan (.inside n negated (before ++ [item])) cs) : ClosedOrOpen (pre ++ cs) := by
  obtain ⟨text, items, rest, htext, rfl⟩ | hopen := h
  · exact .inl ⟨pre ++ text, item :: items, rest, hwrites _ _ htext, by simp⟩
  · exact .inr fun n negated before => by simpa only [hscan] using hopen n negated _

theorem closedOrOpen (cs : List Char) : ClosedOrOpen cs := by
  induction hlength : cs.length using Nat.strong_induction_on generalizing cs with
  | _ k ih =>
    subst hlength
    cases cs with
    | nil => exact .inr fun n negated before => ⟨before, by simp [scan]⟩
    | cons c cs =>
      have hcs : ClosedOrOpen cs := ih _ (by simp) cs rfl
      by_cases hc : c ∈ ['\\', ']', '-']
      · simp only [List.mem_cons, List.not_mem_nil, or_false] at hc
        obtain rfl | rfl | rfl := hc
        · cases cs with
          | nil =>
            exact .inr fun n negated before => ⟨before ++ [.char '\\'], by simp only [scan]⟩
          | cons c cs =>
            have hrest : ClosedOrOpen cs := ih _ (by simp only [List.length_cons]; omega) cs rfl
            exact hrest.prepend ['\\', c] (.char c) (fun _ _ => .escaped)
              fun _ _ _ => by simp [scan]
        · exact .inl ⟨[], [], cs, .nil, rfl⟩
        · exact hcs.prepend ['-'] .hyphen (fun _ _ => .hyphen) fun _ _ _ => by simp [scan]
      · exact hcs.prepend [c] (.char c) (fun _ _ => .plain hc) fun _ _ _ => scan_inside_plain hc

/-- **A bracket starts a class that is closed, or one that stays open** up to
the end of the pattern. -/
theorem exists_class_or_open (cs : List Char) :
    (∃ text negated items rest, WritesClass text negated items ∧ cs = text ++ ']' :: rest) ∨
      ∀ n, ∃ negated items, scan (.outside n) ('[' :: cs) = [.set negated items false] := by
  by_cases hcs : ∀ mark ∈ ['!', '^'], cs.head? ≠ some mark
  · obtain ⟨text, items, rest, htext, rfl⟩ | hopen := closedOrOpen cs
    · refine .inl ⟨text, false, items, rest, .listed (fun mark hmark => ?_) htext, rfl⟩
      cases text with
      | nil => simp
      | cons c text => exact hcs mark hmark
    · exact .inr fun n => ⟨false, by simpa only [scan_bracket hcs] using hopen n false []⟩
  · push Not at hcs
    obtain ⟨mark, hmark, hhead⟩ := hcs
    obtain ⟨cs, rfl⟩ := List.head?_eq_some_iff.mp hhead
    obtain ⟨text, items, rest, htext, rfl⟩ | hopen := closedOrOpen cs
    · exact .inl ⟨mark :: text, true, items, rest, .negated hmark htext, rfl⟩
    · exact .inr fun n => ⟨true, by simpa only [scan_bracket_mark hmark] using hopen n true []⟩

/-! ## Names between colons -/

theorem spelled_eq (name : String) :
    spelled name = (':' :: name.toList ++ [':']).map .char := by
  simp [spelled]

/-- A name between colons is spelled without hyphens. -/
theorem exists_map_char_of_named {ranges : List CharRange} (h : namedRanges? items = some ranges) :
    ∃ cs : List Char, items = cs.map .char := by
  obtain ⟨named, hfind, -⟩ := Option.map_eq_some_iff.mp h
  have hspelled : items = spelled named.1 := by simpa using List.find?_some hfind
  exact ⟨_, hspelled.trans (spelled_eq named.1)⟩

end Glob

end ExportSurface
