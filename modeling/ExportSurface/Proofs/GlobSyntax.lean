import ExportSurface.Proofs.GlobLanguage
/-!
# Globs — patterns without classes

A pattern without classes is a sequence of elements: characters, wildcards and
groups of alternatives, which are sequences again. `Spells` is the grammar of
such patterns and `elementsLanguage` their meaning, both on the tree of
elements and apart from how a pattern is scanned, compiled and matched.
-/

namespace ExportSurface

namespace Glob

/-! ## Elements -/

/-- A part of a pattern. A group has one alternative at least. -/
inductive Element where
  /-- A character that stands for itself. -/
  | literal (c : Char)
  /-- `*` -/
  | run
  /-- `**` -/
  | anyRun
  /-- `?` -/
  | one
  /-- The alternatives between braces. -/
  | group (first : List Element) (more : List (List Element))

mutual

/-- What an element stands for. -/
def Element.language (separator : Char) : Element → Language Char
  | .literal c => {[c]}
  | .run => {w | separator ∉ w}
  | .anyRun => ⊤
  | .one => {w | ∃ c, c ≠ separator ∧ w = [c]}
  | .group first more =>
    elementsLanguage separator first + choicesLanguage separator more

/-- What a sequence of elements stands for. -/
def elementsLanguage (separator : Char) : List Element → Language Char
  | [] => 1
  | e :: es => e.language separator * elementsLanguage separator es

/-- What one of several sequences stands for. -/
def choicesLanguage (separator : Char) : List (List Element) → Language Char
  | [] => 0
  | es :: more => elementsLanguage separator es + choicesLanguage separator more

end

/-- The characters that do not stand for themselves, inside a group or outside. -/
def reserved (inside : Bool) : List Char :=
  ['\\', '*', '?', '[', '\x7b'] ++ if inside then ['\x7d', ','] else []

mutual

/-- **The grammar of patterns without classes**: which texts spell a sequence
of elements, inside a group or outside. -/
inductive Spells : Bool → List Char → List Element → Prop where
  | nil {inside : Bool} : Spells inside [] []
  /-- A character that is not reserved stands for itself. -/
  | literal {inside : Bool} {c : Char} {cs : List Char} {es : List Element}
      (hc : c ∉ reserved inside) (rest : Spells inside cs es) :
      Spells inside (c :: cs) (.literal c :: es)
  /-- After a backslash every character stands for itself. -/
  | escaped {inside : Bool} {c : Char} {cs : List Char} {es : List Element}
      (rest : Spells inside cs es) : Spells inside ('\\' :: c :: cs) (.literal c :: es)
  /-- So does a backslash at the very end. -/
  | backslash : Spells false ['\\'] [.literal '\\']
  | run {inside : Bool} {cs : List Char} {es : List Element} (hcs : cs.head? ≠ some '*')
      (rest : Spells inside cs es) : Spells inside ('*' :: cs) (.run :: es)
  | anyRun {inside : Bool} {cs : List Char} {es : List Element} (rest : Spells inside cs es) :
      Spells inside ('*' :: '*' :: cs) (.anyRun :: es)
  | one {inside : Bool} {cs : List Char} {es : List Element} (rest : Spells inside cs es) :
      Spells inside ('?' :: cs) (.one :: es)
  | group {inside : Bool} {body cs : List Char} {first es : List Element}
      {more : List (List Element)} (alternatives : SpellsGroup body first more)
      (rest : Spells inside cs es) :
      Spells inside ('\x7b' :: body ++ '\x7d' :: cs) (.group first more :: es)

/-- Which texts spell alternatives, the first of them and more. -/
inductive SpellsGroup : List Char → List Element → List (List Element) → Prop where
  | last {cs : List Char} {es : List Element} (only : Spells true cs es) : SpellsGroup cs es []
  | cons {cs body : List Char} {es first : List Element} {more : List (List Element)}
      (head : Spells true cs es) (tail : SpellsGroup body first more) :
      SpellsGroup (cs ++ ',' :: body) es (first :: more)

end

/-! ## Tokens -/

mutual

/-- The tokens of an element. -/
def Element.tokens : Element → List Token
  | .literal c => [.literal c]
  | .run => [.run]
  | .anyRun => [.anyRun]
  | .one => [.one]
  | .group first more =>
    .openGroup :: elementsTokens first ++ choicesTokens more ++ [.closeGroup]

/-- The tokens of a sequence of elements. -/
def elementsTokens : List Element → List Token
  | [] => []
  | e :: es => e.tokens ++ elementsTokens es

/-- The tokens of the alternatives after the first. -/
def choicesTokens : List (List Element) → List Token
  | [] => []
  | es :: more => .nextAlternative :: elementsTokens es ++ choicesTokens more

end

/-- A character that is not reserved is scanned as itself. -/
theorem scan_literal {n : Nat} {c : Char} {cs : List Char} (hc : c ∉ reserved (decide (0 < n))) :
    scan (.outside n) (c :: cs) = .literal c :: scan (.outside n) cs := by
  cases n with
  | zero =>
    simp [reserved] at hc
    simp [scan, hc]
  | succ n =>
    simp [reserved] at hc
    simp [scan, hc]

/-- Where a text inside so many groups comes to its end. -/
def AtEnd (groups : Nat) (rest : List Char) : Prop :=
  if groups = 0 then rest = [] else rest.head? = some ',' ∨ rest.head? = some '\x7d'

theorem AtEnd.head?_ne {n : Nat} {cs rest : List Char} (h : AtEnd n rest)
    (hcs : cs.head? ≠ some '*') : (cs ++ rest).head? ≠ some '*' := by
  cases cs with
  | nil =>
    unfold AtEnd at h
    split at h
    · simp [h]
    · obtain h | h := h <;> simp [h]
  | cons c cs => simpa using hcs

/-- A star is scanned alone if no other follows. -/
theorem scan_run {n : Nat} {cs : List Char} (h : cs.head? ≠ some '*') :
    scan (.outside n) ('*' :: cs) = .run :: scan (.outside n) cs := by
  cases cs with
  | nil => simp [scan]
  | cons c cs =>
    have hc : c ≠ '*' := by simpa using h
    simp [scan, hc]

mutual

/-- **The tokens of a text are those of the elements it spells.** -/
theorem Spells.scan_eq : ∀ {inside : Bool} {cs : List Char} {es : List Element},
    Spells inside cs es → ∀ {n : Nat} {rest : List Char}, inside = decide (0 < n) →
    AtEnd n rest → scan (.outside n) (cs ++ rest) = elementsTokens es ++ scan (.outside n) rest
  | _, _, _, .nil, _, _, _, _ => rfl
  | _, _, _, .literal hc h, n, rest, hin, hend => by
    rw [List.cons_append, scan_literal (hin ▸ hc), h.scan_eq hin hend]
    rfl
  | _, _, _, .escaped h, n, rest, hin, hend => by
    have hrest := h.scan_eq hin hend
    simp only [List.cons_append, scan, hrest]
    rfl
  | _, _, _, .backslash, n, rest, hin, hend => by
    have hn : n = 0 := by simpa using hin
    subst hn
    obtain rfl : rest = [] := hend
    rfl
  | _, _, _, .run hcs h, n, rest, hin, hend => by
    rw [List.cons_append, scan_run (hend.head?_ne hcs), h.scan_eq hin hend]
    rfl
  | _, _, _, .anyRun h, n, rest, hin, hend => by
    have hrest := h.scan_eq hin hend
    simp only [List.cons_append, scan, hrest]
    rfl
  | _, _, _, .one h, n, rest, hin, hend => by
    have hrest := h.scan_eq hin hend
    simp only [List.cons_append, scan, hrest]
    rfl
  | _, _, _, .group halternatives h, n, rest, hin, hend => by
    have hrest := h.scan_eq hin hend
    simp only [List.cons_append, List.append_assoc, scan, halternatives.scan_eq, hrest,
      elementsTokens, Element.tokens, List.nil_append]

/-- The tokens of what stands between braces are those of the alternatives. -/
theorem SpellsGroup.scan_eq : ∀ {body : List Char} {first : List Element}
    {more : List (List Element)}, SpellsGroup body first more → ∀ (n : Nat) (rest : List Char),
    scan (.outside (n + 1)) (body ++ '\x7d' :: rest)
      = elementsTokens first ++ (choicesTokens more ++ .closeGroup :: scan (.outside n) rest)
  | _, _, _, .last h, n, rest => by
    have hend : AtEnd (n + 1) ('\x7d' :: rest) := .inr rfl
    rw [h.scan_eq (by simp) hend, scan]
    rfl
  | _, _, _, .cons h htail, n, rest => by
    have hend : ∀ cs, AtEnd (n + 1) (',' :: cs) := fun _ => .inl rfl
    rw [List.append_assoc, List.cons_append, h.scan_eq (by simp) (hend _), scan,
      htail.scan_eq n rest]
    simp only [choicesTokens, List.cons_append, List.append_assoc]

end

/-- **The tokens of a pattern are those of the elements it spells.** -/
theorem tokens_of_spells {pattern : String} {es : List Element}
    (h : Spells false pattern.toList es) : tokens pattern = elementsTokens es := by
  have hscan : scan (.outside 0) (pattern.toList ++ [])
      = elementsTokens es ++ scan (.outside 0) [] := h.scan_eq rfl rfl
  simpa [tokens, scan] using hscan

/-! ## Pieces -/

mutual

/-- The piece an element is compiled to. -/
def Element.piece : Element → Piece
  | .literal c => .literal c
  | .run => .run
  | .anyRun => .anyRun
  | .one => .one
  | .group first more => .group (elementsPieces first :: choicesPieces more)

/-- The pieces a sequence is compiled to. -/
def elementsPieces : List Element → List Piece
  | [] => []
  | e :: es => e.piece :: elementsPieces es

/-- The pieces of several sequences. -/
def choicesPieces : List (List Element) → List (List Piece)
  | [] => []
  | es :: more => elementsPieces es :: choicesPieces more

end

/-- The group with more pieces. -/
def Frame.pushAll (f : Frame) (ps : List Piece) : Frame :=
  { f with current := ps.reverse ++ f.current }

theorem Frame.push_pushAll (f : Frame) (p : Piece) (ps : List Piece) :
    (f.push p).pushAll ps = f.pushAll (p :: ps) := by
  simp [Frame.push, Frame.pushAll]

theorem Frame.alternatives_next_pushAll (f : Frame) (ps : List Piece) :
    (f.next.pushAll ps).alternatives = f.alternatives ++ [ps] := by
  simp [Frame.next, Frame.pushAll, Frame.alternatives]

mutual

/-- An element adds its piece to the sequence at hand. -/
theorem Element.assemble_eq : ∀ (e : Element) (outer : List Frame) (frame : Frame)
    (ts : List Token),
    assemble outer frame (e.tokens ++ ts) = assemble outer (frame.push e.piece) ts
  | .literal _, _, _, _ | .run, _, _, _ | .anyRun, _, _, _ | .one, _, _, _ => rfl
  | .group first more, outer, frame, ts => by
    have hfirst := assemble_elementsTokens first (frame :: outer) {}
      (choicesTokens more ++ .closeGroup :: ts)
    have hmore := assemble_choicesTokens more frame outer
      (({} : Frame).pushAll (elementsPieces first)) ts
    simp only [Element.tokens, List.cons_append, List.append_assoc, assemble, List.nil_append,
      hfirst, hmore]
    simp [Frame.pushAll, Frame.alternatives, Element.piece]

/-- A sequence adds its pieces to the sequence at hand. -/
theorem assemble_elementsTokens : ∀ (es : List Element) (outer : List Frame) (frame : Frame)
    (ts : List Token),
    assemble outer frame (elementsTokens es ++ ts)
      = assemble outer (frame.pushAll (elementsPieces es)) ts
  | [], _, _, _ => rfl
  | e :: es, outer, frame, ts => by
    rw [elementsTokens, List.append_assoc, e.assemble_eq, assemble_elementsTokens es,
      elementsPieces, Frame.push_pushAll]

/-- The alternatives after the first complete the group. -/
theorem assemble_choicesTokens : ∀ (more : List (List Element)) (f : Frame) (outer : List Frame)
    (frame : Frame) (ts : List Token),
    assemble (f :: outer) frame (choicesTokens more ++ .closeGroup :: ts)
      = assemble outer (f.push (.group (frame.alternatives ++ choicesPieces more))) ts
  | [], _, _, _, _ => by simp [choicesTokens, choicesPieces, assemble]
  | es :: more, f, outer, frame, ts => by
    have hes := assemble_elementsTokens es (f :: outer) frame.next
      (choicesTokens more ++ .closeGroup :: ts)
    have hmore := assemble_choicesTokens more f outer (frame.next.pushAll (elementsPieces es)) ts
    simp only [choicesTokens, List.cons_append, List.append_assoc, assemble, hes, hmore,
      Frame.alternatives_next_pushAll, choicesPieces, List.nil_append]

end

/-- **A pattern is assembled into the pieces of the elements it spells.** -/
theorem assemble_of_spells {pattern : String} {es : List Element}
    (h : Spells false pattern.toList es) :
    assemble [] {} (tokens pattern) = .ok [elementsPieces es] := by
  have hassemble := assemble_elementsTokens es [] {} []
  rw [tokens_of_spells h, ← List.append_nil (elementsTokens es), hassemble]
  simp [assemble, Frame.pushAll, Frame.alternatives]

/-! ## Every pattern without classes

Conversely, a pattern whose tokens hold no class and whose groups are all
closed spells some elements. -/

/-- Whether no token is a class. -/
def Classless (ts : List Token) : Prop :=
  ∀ negated items closed, Token.set negated items closed ∉ ts

theorem Classless.of_cons {t : Token} {ts : List Token} (h : Classless (t :: ts)) :
    Classless ts :=
  fun negated items closed hmem => h negated items closed (List.mem_cons_of_mem _ hmem)

theorem Classless.of_append {ts us : List Token} (h : Classless (ts ++ us)) : Classless us :=
  fun negated items closed hmem => h negated items closed (List.mem_append_right _ hmem)

/-- A class that is opened is among the tokens, closed or not. -/
theorem not_classless_inside {place : Place} {n : Nat} {negated : Bool} {items : List ClassItem}
    (cs : List Char) (hplace : place = .inside n negated items) :
    ¬ Classless (scan place cs) := by
  fun_induction scan place cs generalizing n negated items <;> cases hplace
  all_goals first
    | exact fun h => h _ _ _ List.mem_cons_self
    | (rename_i ih; exact ih rfl)

/-- So a bracket is not the start of a text without classes. -/
theorem not_classless_bracket (n : Nat) (cs : List Char) :
    ¬ Classless (scan (.outside n) ('[' :: cs)) := by
  obtain ⟨negated, ds, hinside⟩ : ∃ negated ds,
      scan (.outside n) ('[' :: cs) = scan (.inside n negated []) ds := by
    cases cs with
    | nil => exact ⟨false, [], by simp [scan]⟩
    | cons c cs =>
      by_cases hbang : c = '!'
      · exact ⟨true, cs, by simp [scan, hbang]⟩
      · by_cases hcaret : c = '^'
        · exact ⟨true, cs, by simp [scan, hcaret]⟩
        · refine ⟨false, c :: cs, ?_⟩
          rw [scan] <;> simp [hbang, hcaret]
  rw [hinside]
  exact not_classless_inside ds rfl

/-- What a text inside so many groups is known to start with, or to be. -/
def Outcome : List Frame → List Char → Prop
  | [], text => ∃ es, Spells false text es
  | _ :: _, text => ∃ body first more rest,
      text = body ++ '\x7d' :: rest ∧ SpellsGroup body first more

theorem SpellsGroup.prepend (pre : List Char) {body : List Char} {e : Element}
    {first : List Element} {more : List (List Element)} (h : SpellsGroup body first more)
    (hpre : ∀ cs es, cs <+: body → Spells true cs es → Spells true (pre ++ cs) (e :: es)) :
    SpellsGroup (pre ++ body) (e :: first) more := by
  cases h with
  | last only => exact .last (hpre _ _ (List.prefix_refl _) only)
  | cons head tail =>
    rw [← List.append_assoc]
    exact .cons (hpre _ _ (List.prefix_append _ _) head) tail

/-- An element in front of a text is one more element. -/
theorem Outcome.prepend (pre : List Char) {outer : List Frame} {text : List Char} {e : Element}
    (h : Outcome outer text)
    (hpre : ∀ inside cs es, cs <+: text → Spells inside cs es →
      Spells inside (pre ++ cs) (e :: es)) : Outcome outer (pre ++ text) := by
  cases outer with
  | nil =>
    obtain ⟨es, hes⟩ := h
    exact ⟨e :: es, hpre _ _ _ (List.prefix_refl _) hes⟩
  | cons f outer =>
    obtain ⟨body, first, more, rest, rfl, hgroup⟩ := h
    refine ⟨pre ++ body, e :: first, more, rest, by simp,
      hgroup.prepend pre fun cs es hcs => ?_⟩
    exact hpre _ _ _ (hcs.trans (List.prefix_append _ _))

/-- Whether a text without classes and with all its groups closed is a text of
the grammar, or starts with one up to the brace that closes the group it is in. -/
def Covered (text : List Char) : Prop :=
  ∀ (outer : List Frame) (frame : Frame) (alternatives : List (List Piece)),
    Classless (scan (.outside outer.length) text) →
    assemble outer frame (scan (.outside outer.length) text) = .ok alternatives →
    Outcome outer text

namespace Covered

variable {c : Char} {cs : List Char}

theorem nil : Covered [] := by
  intro outer frame _ _ h
  cases outer with
  | nil => exact ⟨[], .nil⟩
  | cons f outer => simp [scan, assemble] at h

theorem backslash : Covered ['\\'] := by
  intro outer frame _ _ h
  cases outer with
  | nil => exact ⟨_, .backslash⟩
  | cons f outer => simp [scan, assemble] at h

theorem escaped (h : Covered cs) : Covered ('\\' :: c :: cs) := by
  intro outer frame _ hclass hok
  simp only [scan, assemble] at hclass hok
  exact (h _ _ _ hclass.of_cons hok).prepend ['\\', c] fun _ _ _ _ hcs => .escaped hcs

theorem anyRun (h : Covered cs) : Covered ('*' :: '*' :: cs) := by
  intro outer frame _ hclass hok
  simp only [scan, assemble] at hclass hok
  exact (h _ _ _ hclass.of_cons hok).prepend ['*', '*'] fun _ _ _ _ hcs => .anyRun hcs

theorem run (hcs : cs.head? ≠ some '*') (h : Covered cs) : Covered ('*' :: cs) := by
  intro outer frame _ hclass hok
  simp only [scan_run hcs, assemble] at hclass hok
  refine (h _ _ _ hclass.of_cons hok).prepend ['*'] fun _ ds _ hds hspells => .run ?_ hspells
  cases ds with
  | nil => simp
  | cons d ds =>
    obtain ⟨rest, rfl⟩ := hds
    simpa using hcs

theorem one (h : Covered cs) : Covered ('?' :: cs) := by
  intro outer frame _ hclass hok
  simp only [scan, assemble] at hclass hok
  exact (h _ _ _ hclass.of_cons hok).prepend ['?'] fun _ _ _ _ hcs => .one hcs

theorem bracket : Covered ('[' :: cs) :=
  fun _ _ _ hclass _ => absurd hclass (not_classless_bracket _ cs)

/-- What stands between braces is read first, and then what follows them. -/
theorem group (h : ∀ ds : List Char, ds.length ≤ cs.length → Covered ds) :
    Covered ('\x7b' :: cs) := by
  intro outer frame _ hclass hok
  simp only [scan, assemble] at hclass hok
  obtain ⟨body, first, more, rest, rfl, hgroup⟩ :=
    h cs (Nat.le_refl _) (frame :: outer) _ _ hclass.of_cons hok
  rw [hgroup.scan_eq] at hclass hok
  rw [assemble_elementsTokens, assemble_choicesTokens] at hok
  have hrest := h rest (by simp; omega) _ _ _ hclass.of_cons.of_append.of_append.of_cons hok
  have helement : ∀ inside cs es, Spells inside cs es →
      Spells inside ('\x7b' :: body ++ ['\x7d'] ++ cs) (.group first more :: es) :=
    fun _ _ _ hcs => by simpa using Spells.group hgroup hcs
  have hprepend := hrest.prepend ('\x7b' :: body ++ ['\x7d'])
    fun _ _ _ _ hcs => helement _ _ _ hcs
  simpa using hprepend

theorem literal (hc : c ∉ reserved true) (h : Covered cs) : Covered (c :: cs) := by
  intro outer frame _ hclass hok
  have hreserved : ∀ inside, c ∉ reserved inside := by
    intro inside
    cases inside
    · exact fun hmem => hc (List.mem_append_left _ (by simpa [reserved] using hmem))
    · exact hc
  rw [scan_literal (hreserved _)] at hclass hok
  exact (h _ _ _ hclass.of_cons hok).prepend [c] fun inside _ _ _ hcs =>
    .literal (hreserved inside) hcs

/-- What is reserved inside groups only is itself outside. -/
theorem literalOutside (h : Covered cs) (hc : c ∉ reserved false) {frame : Frame}
    {alternatives : List (List Piece)} (hclass : Classless (scan (.outside 0) (c :: cs)))
    (hok : assemble [] frame (scan (.outside 0) (c :: cs)) = .ok alternatives) :
    Outcome [] (c :: cs) := by
  rw [scan_literal hc] at hclass hok
  obtain ⟨es, hes⟩ := h [] _ _ hclass.of_cons hok
  exact ⟨_, .literal hc hes⟩

/-- A closing brace ends the group at hand, and is itself where there is none. -/
theorem closeGroup (h : Covered cs) : Covered ('\x7d' :: cs) := by
  intro outer frame _ hclass hok
  cases outer with
  | nil => exact (h.literalOutside (by decide) hclass hok)
  | cons f outer => exact ⟨[], [], [], cs, rfl, .last .nil⟩

/-- A comma begins another alternative, and is itself where there is no group. -/
theorem nextAlternative (h : Covered cs) : Covered (',' :: cs) := by
  intro outer frame _ hclass hok
  cases outer with
  | nil => exact (h.literalOutside (by decide) hclass hok)
  | cons f outer =>
    simp only [List.length_cons, scan, assemble] at hclass hok
    obtain ⟨body, first, more, rest, rfl, hgroup⟩ :=
      h (f :: outer) _ _ hclass.of_cons hok
    exact ⟨',' :: body, [], first :: more, rest, rfl, .cons .nil hgroup⟩

end Covered

/-- **Every text is covered**, one element at a time. -/
theorem covered (text : List Char) : Covered text := by
  induction hn : text.length using Nat.strong_induction_on generalizing text with
  | _ n ih =>
    subst hn
    have ih' : ∀ ds : List Char, ds.length < text.length → Covered ds :=
      fun ds hds => ih _ hds ds rfl
    cases text with
    | nil => exact .nil
    | cons c cs =>
      simp only [List.length_cons, Nat.lt_succ_iff] at ih'
      by_cases hc : c ∈ reserved true
      · simp only [reserved, if_true, List.cons_append, List.nil_append, List.mem_cons,
          List.not_mem_nil, or_false] at hc
        obtain rfl | rfl | rfl | rfl | rfl | rfl | rfl := hc
        · cases cs with
          | nil => exact .backslash
          | cons c cs => exact .escaped (ih' cs (by simp))
        · by_cases hstar : cs.head? = some '*'
          · obtain ⟨cs, rfl⟩ := List.head?_eq_some_iff.mp hstar
            exact .anyRun (ih' cs (by simp))
          · exact .run hstar (ih' cs (Nat.le_refl _))
        · exact .one (ih' cs (Nat.le_refl _))
        · exact .bracket
        · exact .group ih'
        · exact .closeGroup (ih' cs (Nat.le_refl _))
        · exact .nextAlternative (ih' cs (Nat.le_refl _))
      · exact .literal hc (ih' cs (Nat.le_refl _))

/-- **A pattern without classes whose groups are all closed spells some
elements.** -/
theorem exists_spells {pattern : String} {alternatives : List (List Piece)}
    (hclass : Classless (tokens pattern))
    (h : assemble [] {} (tokens pattern) = .ok alternatives) :
    ∃ es, Spells false pattern.toList es :=
  covered pattern.toList [] {} alternatives hclass h

/-! ## The language of the pieces -/

section Language

variable {separator : Char}

/-- Two products agree on a text if their factors agree on its parts. -/
theorem mem_mul_congr {L L' M M' : Language Char} {w : List Char}
    (hL : ∀ u, u.Sublist w → (u ∈ L ↔ u ∈ L'))
    (hM : ∀ u, u.Sublist w → (u ∈ M ↔ u ∈ M')) :
    w ∈ L * M ↔ w ∈ L' * M' := by
  simp only [Language.mem_mul]
  constructor
  · rintro ⟨a, ha, b, hb, rfl⟩
    exact ⟨a, (hL a (List.sublist_append_left a b)).mp ha, b,
      (hM b (List.sublist_append_right a b)).mp hb, rfl⟩
  · rintro ⟨a, ha, b, hb, rfl⟩
    exact ⟨a, (hL a (List.sublist_append_left a b)).mpr ha, b,
      (hM b (List.sublist_append_right a b)).mpr hb, rfl⟩

mutual

/-- **A piece matches what its element stands for**, as far as no line feed is
in it: `**` does not match one. -/
theorem Element.mem_language_piece : ∀ {e : Element} {w : List Char}, '\n' ∉ w →
    (w ∈ e.piece.language separator ↔ w ∈ e.language separator)
  | .literal c, w, _ => by
    simp only [Element.piece, Piece.language, mem_oneOf, beq_iff_eq, Element.language]
    exact exists_eq_right
  | .run, w, _ => by
    simp only [Element.piece, Piece.language, mem_runOf, bne_iff_ne, Element.language]
    exact ⟨fun h hmem => h _ hmem rfl, fun h c hc heq => h (heq ▸ hc)⟩
  | .anyRun, w, h => by
    simp only [Element.piece, Piece.language, mem_runOf, bne_iff_ne, Element.language]
    exact ⟨fun _ => trivial, fun _ c hc heq => h (heq ▸ hc)⟩
  | .one, w, _ => by
    simp only [Element.piece, Piece.language, mem_oneOf, bne_iff_ne, Element.language]
    exact exists_congr fun c => and_comm
  | .group first more, w, h => by
    simp only [Element.piece, Piece.language, alternativesLanguage, Element.language,
      Language.mem_add]
    exact or_congr (mem_elementsLanguage h) (mem_choicesLanguage h)

theorem mem_elementsLanguage : ∀ {es : List Element} {w : List Char}, '\n' ∉ w →
    (w ∈ piecesLanguage separator (elementsPieces es) ↔ w ∈ elementsLanguage separator es)
  | [], _, _ => .rfl
  | e :: es, w, h => by
    refine mem_mul_congr (fun u hu => ?_) (fun u hu => ?_)
    · exact Element.mem_language_piece fun hmem => h (hu.subset hmem)
    · exact mem_elementsLanguage fun hmem => h (hu.subset hmem)

theorem mem_choicesLanguage : ∀ {more : List (List Element)} {w : List Char}, '\n' ∉ w →
    (w ∈ alternativesLanguage separator (choicesPieces more) ↔
      w ∈ choicesLanguage separator more)
  | [], _, _ => .rfl
  | es :: more, w, h => by
    simp only [choicesPieces, alternativesLanguage, choicesLanguage, Language.mem_add]
    exact or_congr (mem_elementsLanguage h) (mem_choicesLanguage h)

end

end Language

end Glob

end ExportSurface
