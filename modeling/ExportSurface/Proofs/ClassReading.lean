import ExportSurface.Proofs.RegexReader
import Mathlib.Data.List.Basic
/-!
# Globs — reading a class back from its regular expression

A character is spelled as a symbol that stands for it wherever it is read
(`symbolOf`), a hyphen of a class as one that does not. So the items of a class
are read as the unions they list (`Reading.read_items`), class names included
(`namedBracket?_items`), and a class that is written with all its brackets is
read as the characters it contains, if it can be read (`Reading.read_class_ok`,
`Reading.read_class_inverted`, `Reading.read_class_empty`).
-/

namespace ExportSurface

namespace Glob

/-! ## The symbols of tokens -/

/-- The symbol that stands for a character and nothing else. -/
def symbolOf (c : Char) : Symbol := if c ∈ metacharacters then .escaped c else .plain c

/-- The symbols of any character but the separator. -/
def notSeparatorSymbols (separator : Char) : List Symbol :=
  [.plain '[', .plain '^', symbolOf separator, .plain ']']

/-- The symbol of a class item. -/
def ClassItem.symbol : ClassItem → Symbol
  | .char c => symbolOf c
  | .hyphen => .plain '-'

/-- The symbols of a class between the brackets of its items. -/
def classSymbols (negated : Bool) (items : List ClassItem) : List Symbol :=
  (if negated then [.plain '^'] else []) ++ items.map ClassItem.symbol

/-- The symbols behind the items of a class that is closed. -/
def closingSymbols (separator : Char) : List Symbol :=
  .plain '&' :: .plain '&' :: notSeparatorSymbols separator ++ [.plain ']']

/-- The symbols of a token. -/
def Token.symbols (separator : Char) : Token → List Symbol
  | .literal c => [symbolOf c]
  | .run => notSeparatorSymbols separator ++ [.plain '*']
  | .anyRun => [.plain '.', .plain '*']
  | .one => notSeparatorSymbols separator
  | .openGroup => [.plain '(', .plain '?', .plain ':']
  | .nextAlternative => [.plain '|']
  | .closeGroup => [.plain ')']
  | .set negated items closed =>
    .plain '[' :: .plain '[' :: classSymbols negated items
      ++ (if closed then .plain ']' :: closingSymbols separator else [])

variable {separator c d : Char}

theorem symbols_plain (hc : c ≠ '\\') (cs : List Char) :
    symbols (c :: cs) = .plain c :: symbols cs := by
  rw [symbols]
  exact fun d ds h _ => hc h

theorem symbols_escaped (c : Char) (cs : List Char) :
    symbols ((escaped c).toList ++ cs) = symbolOf c :: symbols cs := by
  by_cases hc : c ∈ metacharacters
  · simp [escaped, symbolOf, hc, symbols]
  · have hne : c ≠ '\\' := fun h => hc (by simp [h, metacharacters])
    simpa [escaped, symbolOf, hc] using symbols_plain hne cs

theorem symbols_notSeparator (separator : Char) (cs : List Char) :
    symbols ((notSeparator separator).toList ++ cs)
      = notSeparatorSymbols separator ++ symbols cs := by
  simp [notSeparator, notSeparatorSymbols, symbols_plain, symbols_escaped]

theorem symbols_item (item : ClassItem) (cs : List Char) :
    symbols (item.regexText.toList ++ cs) = item.symbol :: symbols cs := by
  cases item with
  | char c => exact symbols_escaped c cs
  | hyphen => simp [ClassItem.regexText, ClassItem.symbol, symbols_plain]

theorem symbols_items (items : List ClassItem) (cs : List Char) :
    symbols ((items.flatMap fun item => item.regexText.toList) ++ cs)
      = items.map ClassItem.symbol ++ symbols cs := by
  induction items with
  | nil => simp
  | cons item items ih => simp [symbols_item, ih]

theorem symbols_token (separator : Char) (t : Token) (cs : List Char) :
    symbols ((t.regexText separator).toList ++ cs) = t.symbols separator ++ symbols cs := by
  cases t with
  | literal c => simp [Token.regexText, Token.symbols, symbols_escaped]
  | run => simp [Token.regexText, Token.symbols, symbols_plain, symbols_notSeparator]
  | anyRun | openGroup | nextAlternative | closeGroup =>
    simp [Token.regexText, Token.symbols, symbols_plain]
  | one => simp [Token.regexText, Token.symbols, symbols_notSeparator]
  | set negated items closed =>
    cases negated <;> cases closed <;>
      simp [Token.regexText, Token.symbols, classSymbols, closingSymbols, symbols_plain,
        symbols_notSeparator, symbols_items, List.flatMap_map]

/-- **The symbols of the expression of a pattern.** -/
theorem symbols_regexText (pattern : String) (separator : Char) :
    symbols (regexText pattern separator).toList
      = .plain '^' :: .plain '(' :: .plain '?' :: .plain ':' ::
        (tokens pattern).flatMap (Token.symbols separator) ++ [.plain ')', .plain '$'] := by
  have htokens (ts : List Token) (cs : List Char) :
      symbols ((ts.flatMap fun t => (t.regexText separator).toList) ++ cs)
        = ts.flatMap (Token.symbols separator) ++ symbols cs := by
    induction ts with
    | nil => simp
    | cons t ts ih => simp [symbols_token, ih]
  simp [regexText, symbols_plain, htokens, symbols, List.flatMap_map]

/-! ## Steps -/

theorem symbolOf_ne (hd : d ∈ metacharacters) (c : Char) : symbolOf c ≠ .plain d := by
  unfold symbolOf
  split
  · simp
  · rintro ⟨⟩
    contradiction

theorem char_symbolOf (c : Char) : (symbolOf c).char = c := by
  unfold symbolOf
  split <;> rfl

theorem symbol_ne (hd : d ∈ metacharacters) (hne : d ≠ '-') (item : ClassItem) :
    item.symbol ≠ .plain d := by
  cases item with
  | char c => exact symbolOf_ne hd c
  | hyphen => simpa [ClassItem.symbol] using Ne.symm hne

namespace Reading

variable {r r' : Reading} {s t : Symbol} {ss rest : List Symbol} {b : Bracket} {bs : List Bracket}

theorem read_nil (r : Reading) : r.read [] = r.result := by
  rw [read]

theorem accept_within (test : Char → Bool) :
    (r.within b).accept test = r.within (b.list test) := rfl

theorem read_of_step (h : r.step s ss = .ok (r', rest)) : r.read (s :: ss) = r'.read rest := by
  rw [read]
  split
  · next heq => simp [heq] at h
  · next heq =>
    rw [heq] at h
    cases h
    rfl

theorem read_of_step_error {fault : RegexFault} (h : r.step s ss = .error fault) :
    r.read (s :: ss) = .error fault := by
  rw [read]
  split
  · next heq =>
    rw [heq] at h
    cases h
    rfl
  · next heq => simp [heq] at h

/-! ### Single symbols -/

/-- Outside brackets what has no meaning of its own stands for itself. -/
theorem outside_eq (hs : ∀ d ∈ metacharacters, s ≠ .plain d) :
    r.outside s ss = .ok (r.accept (· == s.char), ss) := by
  unfold outside
  split
  · exact absurd rfl (hs '.' (by decide))
  · exact absurd rfl (hs '*' (by decide))
  · exact absurd rfl (hs '|' (by decide))
  · exact absurd rfl (hs '(' (by decide))
  · exact absurd rfl (hs ')' (by decide))
  · exact absurd rfl (hs '^' (by decide))
  · exact absurd rfl (hs '$' (by decide))
  · exact absurd rfl (hs '[' (by decide))
  · refine if_neg fun hmem => hs _ ?_ rfl
    have hmeta : ['(', '+', '?', '\x7b'] ⊆ metacharacters := by decide
    exact hmeta hmem
  · rfl

/-- Inside it does where neither its double nor a hyphen follows it. -/
theorem inside_eq (hs : ∀ d ∈ ['[', ']'], s ≠ .plain d)
    (hdouble : ∀ d ∈ ['&', '-', '~'], s = .plain d → ss.head? ≠ some (.plain d))
    (hss : ss.head? ≠ some (.plain '-')) :
    r.inside b bs s ss = .ok (r.accept (· == s.char), ss) := by
  unfold inside
  split
  · exact absurd rfl (hs '[' (by decide))
  · exact absurd rfl (hs ']' (by decide))
  · exact absurd rfl (hdouble '&' (by decide) rfl)
  · exact absurd rfl (hdouble '-' (by decide) rfl)
  · exact absurd rfl (hdouble '~' (by decide) rfl)
  · exact absurd rfl hss
  · rfl

/-- Before a hyphen it stands for itself, or it is the start of a range. -/
theorem inside_before_hyphen (hs : ∀ d ∈ metacharacters, s ≠ .plain d) :
    r.inside b bs s (.plain '-' :: t :: ss)
      = if t = .plain ']' ∨ t = .plain '-' then
          .ok (r.accept (· == s.char), .plain '-' :: t :: ss)
        else if s.char ≤ t.char then
          .ok (r.accept (CharRange.contains ⟨s.char, t.char⟩), ss)
        else .error .invertedRange := by
  unfold inside
  split
  · exact absurd rfl (hs '[' (by decide))
  · exact absurd rfl (hs ']' (by decide))
  · next heq => cases heq
  · exact absurd rfl (hs '-' (by decide))
  · next heq => cases heq
  · next heq =>
    cases heq
    rfl
  · next hne _ _ _ => exact absurd rfl (hne t ss)

theorem read_symbolOf (c : Char) (h : ss.head? ≠ some (.plain '-')) :
    r.read (symbolOf c :: ss) = (r.accept (· == c)).read ss := by
  have hs : ∀ d ∈ metacharacters, symbolOf c ≠ .plain d := fun d hd => symbolOf_ne hd c
  refine read_of_step ?_
  unfold step
  split
  · rw [outside_eq hs, char_symbolOf]
  · have hbrackets : ['[', ']'] ⊆ metacharacters := by decide
    have hoperators : ['&', '-', '~'] ⊆ metacharacters := by decide
    rw [inside_eq (fun d hd => hs d (hbrackets hd))
      (fun d hd heq => absurd heq (hs d (hoperators hd))) h, char_symbolOf]

theorem read_hyphen (h : ss.head? ≠ some (.plain '-')) :
    (r.within b).read (.plain '-' :: ss) = (r.within (b.list (· == '-'))).read ss := by
  refine read_of_step ?_
  rw [step, within]
  refine inside_eq (by simp) (fun d _ heq => ?_) h
  cases heq
  exact h

theorem read_difference :
    (r.within b).read (.plain '-' :: .plain '-' :: ss)
      = (r.within (b.operate .difference)).read ss :=
  read_of_step rfl

theorem read_intersection :
    (r.within b).read (.plain '&' :: .plain '&' :: ss)
      = (r.within (b.operate .intersection)).read ss :=
  read_of_step rfl

/-- A character stands for itself before a hyphen that makes no range. -/
theorem read_before_hyphen (c : Char) (ht : t = .plain ']' ∨ t = .plain '-') :
    (r.within b).read (symbolOf c :: .plain '-' :: t :: ss)
      = (r.within (b.list (· == c))).read (.plain '-' :: t :: ss) := by
  refine read_of_step ?_
  rw [step, within]
  simp only [inside_before_hyphen fun d hd => symbolOf_ne hd c, if_pos ht, char_symbolOf]
  rfl

theorem read_range (low high : Char) :
    (r.within b).read (symbolOf low :: .plain '-' :: symbolOf high :: ss)
      = if low ≤ high then (r.within (b.list (CharRange.contains ⟨low, high⟩))).read ss
        else .error .invertedRange := by
  have hhigh : ¬ (symbolOf high = .plain ']' ∨ symbolOf high = .plain '-') :=
    not_or.mpr ⟨symbolOf_ne (by decide) high, symbolOf_ne (by decide) high⟩
  have hstep : (r.within b).step (symbolOf low) (.plain '-' :: symbolOf high :: ss)
      = if low ≤ high then .ok (r.within (b.list (CharRange.contains ⟨low, high⟩)), ss)
        else .error .invertedRange := by
    rw [step, within]
    simp only [inside_before_hyphen fun d hd => symbolOf_ne hd low, if_neg hhigh, char_symbolOf]
    rfl
  by_cases hle : low ≤ high
  · rw [if_pos hle] at hstep ⊢
    exact read_of_step hstep
  · rw [if_neg hle] at hstep ⊢
    exact read_of_step_error hstep

/-! ### Brackets -/

/-- A bracket opens unless it is a class name. -/
theorem read_open (h : namedBracket? ss = none) :
    r.read (.plain '[' :: ss) = (r.within (openBracket ss).1).read (openBracket ss).2 := by
  refine read_of_step ?_
  unfold step
  split
  · rfl
  · simp only [inside, h]
    rfl

theorem read_named {test : Char → Bool} (h : namedBracket? ss = some (test, rest)) :
    (r.within b).read (.plain '[' :: ss) = (r.within (b.list test)).read rest := by
  refine read_of_step ?_
  simp only [step, within, inside, h]
  rfl

theorem read_close : (r.within b).read (.plain ']' :: ss) = (r.accept b.test).read ss :=
  read_of_step rfl

/-- A bracket that excludes the separator lets all other characters pass. -/
theorem read_notSeparator (r : Reading) (separator : Char) (rest : List Symbol) :
    r.read (notSeparatorSymbols separator ++ rest) = (r.accept (· != separator)).read rest := by
  have hopened : openBracket (.plain '^' :: symbolOf separator :: .plain ']' :: rest)
      = ({ negated := true }, symbolOf separator :: .plain ']' :: rest) := by
    have hne {d : Char} (hd : d ∈ metacharacters) : symbolOf separator ≠ .plain d :=
      symbolOf_ne hd separator
    rw [openBracket, beginBracket]
    · exact fun ss h => hne (by decide) (List.cons.inj h).1
    · exact fun ss h => hne (by decide) (List.cons.inj h).1
  have htest : (({ negated := true } : Bracket).list (· == separator)).test = (· != separator) := by
    funext c
    simp [Bracket.test, Bracket.joined, Bracket.list, bne]
  rw [notSeparatorSymbols, List.cons_append, read_open rfl]
  simp only [List.cons_append, List.nil_append, hopened]
  rw [read_symbolOf separator (by simp), accept_within, read_close, htest]

end Reading

/-! ## The items of a class -/

theorem contains_iff (r : CharRange) (c : Char) :
    r.contains c = true ↔ r.low ≤ c ∧ c ≤ r.high := by
  rw [CharRange.contains, Bool.and_eq_true, decide_eq_true_iff, decide_eq_true_iff]

theorem contains_single (c : Char) : (CharRange.single c).contains = (· == c) := by
  funext d
  rw [Bool.eq_iff_iff, contains_iff, beq_iff_eq]
  exact ⟨fun h => Char.le_antisymm h.2 h.1, fun h => h ▸ ⟨Char.le_refl _, Char.le_refl _⟩⟩

theorem unions_ne_nil {current : List CharRange} {items : List ClassItem}
    {us : List (List CharRange)} (h : unions current items = some us) : us ≠ [] := by
  fun_induction unions current items generalizing us with
  | case1 current => simp [← Option.some.inj h]
  | case2 current items ih =>
    obtain ⟨vs, -, rfl⟩ := Option.map_eq_some_iff.mp h
    simp
  | case3 current low high items hle ih => exact ih h
  | case4 current low high items hle => cases h
  | case5 current item items _ hrange ih => exact ih h

namespace Bracket

/-- The bracket with other characters listed since the last operator. -/
def lists (b : Bracket) (u : List CharRange) : Bracket := { b with listed := inRanges u }

/-- The bracket after differences with several unions. -/
def without (b : Bracket) : List (List CharRange) → Bracket
  | [] => b
  | u :: us => ((b.operate .difference).lists u).without us

variable {b : Bracket} {u : List CharRange}

theorem list_lists (r : CharRange) : (b.lists u).list r.contains = b.lists (u ++ [r]) := by
  simp only [list, lists, Bracket.mk.injEq, true_and]
  funext c
  simp [inRanges]

theorem test_without (us : List (List CharRange)) (c : Char) :
    (b.without us).test c = (b.negated != (b.joined c && !us.any (inRanges · c))) := by
  induction us generalizing b with
  | nil => simp [without, test]
  | cons u us ih =>
    rw [without, ih]
    simp [lists, operate, joined, SetOperator.apply, Bool.and_assoc]

end Bracket

namespace Reading

variable {r : Reading} {b : Bracket} {rest : List Symbol}
variable {item : ClassItem} {items : List ClassItem}

/-- An item that is no part of a range or difference lists its character. -/
theorem read_item (hdouble : ∀ more, item = .hyphen → items = .hyphen :: more → False)
    (hrange : ∀ low high more, item = .char low → items = .hyphen :: .char high :: more → False) :
    (r.within b).read (item.symbol :: (items.map ClassItem.symbol ++ .plain ']' :: rest))
      = (r.within (b.list (CharRange.single item.listedChar).contains)).read
          (items.map ClassItem.symbol ++ .plain ']' :: rest) := by
  rw [contains_single]
  cases item with
  | hyphen =>
    refine read_hyphen ?_
    cases items with
    | nil => simp
    | cons next more =>
      cases next with
      | hyphen => exact absurd rfl (hdouble more rfl)
      | char c => simpa [ClassItem.symbol] using symbolOf_ne (by decide) c
  | char c =>
    cases items with
    | nil => exact read_symbolOf c (by simp)
    | cons next more =>
      cases next with
      | char d =>
        refine read_symbolOf c ?_
        simpa [ClassItem.symbol] using symbolOf_ne (by decide) d
      | hyphen =>
        -- The hyphen ends the class or is the first of two.
        cases more with
        | nil => exact read_before_hyphen c (.inl rfl)
        | cons last more =>
          cases last with
          | char high => exact absurd rfl (hrange c high more rfl)
          | hyphen => exact read_before_hyphen c (.inr rfl)

/-- **The items of a class are read** as the unions that they list, each but the
first taken away from those before it. -/
theorem read_items (r : Reading) (b : Bracket) (current : List CharRange) (items : List ClassItem)
    (rest : List Symbol) :
    (∀ u us, unions current items = some (u :: us) →
      (r.within (b.lists current)).read (items.map ClassItem.symbol ++ .plain ']' :: rest)
        = (r.within ((b.lists u).without us)).read (.plain ']' :: rest)) ∧
    (unions current items = none → ∃ fault,
      (r.within (b.lists current)).read (items.map ClassItem.symbol ++ .plain ']' :: rest)
        = .error fault) := by
  fun_induction unions current items generalizing b with
  | case1 current => simp [Bracket.without]
  | case2 current items ih =>
    -- Two hyphens end a union, and what follows is taken away from it.
    have hnext := ih ((b.lists current).operate .difference)
    simp only [List.map_cons, ClassItem.symbol, List.cons_append, read_difference]
    refine ⟨fun u us h => ?_, fun h => hnext.2 (Option.map_eq_none_iff.mp h)⟩
    obtain ⟨vs, hvs, heq⟩ := Option.map_eq_some_iff.mp h
    cases heq
    obtain ⟨v, vs, rfl⟩ := List.exists_cons_of_ne_nil (unions_ne_nil hvs)
    exact hnext.1 v vs hvs
  | case3 current low high items hle ih =>
    simp only [List.map_cons, ClassItem.symbol, List.cons_append, read_range, if_pos hle,
      Bracket.list_lists]
    exact ih b
  | case4 current low high items hle =>
    simp [ClassItem.symbol, read_range, if_neg hle]
  | case5 current item items hdouble hrange ih =>
    rw [List.map_cons, List.cons_append, read_item hdouble hrange, Bracket.list_lists]
    exact ih b

end Reading

/-! ## Class names -/

variable {items : List ClassItem} {rest : List Symbol}

theorem symbol_injective : Function.Injective ClassItem.symbol := by
  intro item other h
  cases item with
  | hyphen =>
    cases other with
    | hyphen => rfl
    | char d => exact absurd h.symm (symbolOf_ne (by decide) d)
  | char c =>
    cases other with
    | hyphen => exact absurd h (symbolOf_ne (by decide) c)
    | char d =>
      have hchar := congrArg Symbol.char h
      simp only [ClassItem.symbol, char_symbolOf] at hchar
      rw [hchar]

/-- The names have no character with a meaning of its own. -/
theorem namedRanges_plain :
    ∀ named ∈ namedRanges, ∀ c ∈ named.1.toList ++ [':'], c ∉ metacharacters := by
  have hall : namedRanges.all fun named =>
      (named.1.toList ++ [':']).all fun c => !metacharacters.contains c := by
    decide +kernel
  intro named hmem c hc
  have hplain := List.all_eq_true.mp (List.all_eq_true.mp hall named hmem) c hc
  simpa using hplain

theorem map_symbol_char {cs : List Char} (hcs : ∀ c ∈ cs, c ∉ metacharacters) :
    (cs.map ClassItem.char).map ClassItem.symbol = cs.map .plain := by
  simp only [List.map_map, List.map_inj_left, Function.comp, ClassItem.symbol]
  intro c hc
  rw [symbolOf, if_neg (hcs c hc)]

/-- What stands before the first closing bracket. -/
theorem takeWhile_append_close {ss : List Symbol} (h : .plain ']' ∉ ss) (rest : List Symbol) :
    (ss ++ .plain ']' :: rest).takeWhile (· != .plain ']') = ss := by
  rw [List.takeWhile_append_of_pos]
  · simp
  · intro s hs
    simpa using fun heq : s = .plain ']' => h (heq ▸ hs)

theorem close_notMem_items (items : List ClassItem) :
    .plain ']' ∉ items.map ClassItem.symbol := by
  intro h
  obtain ⟨item, -, hitem⟩ := List.mem_map.mp h
  exact symbol_ne (by decide) (by decide) item hitem

/-- The symbols of items and the closing bracket begin with a name just if the
items spell it. -/
theorem name_prefix_iff {cs : List Char} (hcs : ∀ c ∈ cs, c ∉ metacharacters) :
    cs.map .plain ++ [.plain ']'] <+: items.map ClassItem.symbol ++ .plain ']' :: rest ↔
      items = cs.map .char := by
  constructor
  · rintro ⟨more, hmore⟩
    have hname : .plain ']' ∉ cs.map Symbol.plain := by
      simpa using fun h => hcs _ h (by decide)
    have heq := congrArg (List.takeWhile (· != .plain ']')) hmore
    rw [List.append_assoc, List.singleton_append, takeWhile_append_close hname,
      takeWhile_append_close (close_notMem_items items), ← map_symbol_char hcs] at heq
    exact (List.map_injective_iff.mpr symbol_injective heq).symm
  · rintro rfl
    rw [map_symbol_char hcs]
    exact ⟨rest, by simp⟩

/-- A class name is read where the items behind the first colon spell it. -/
theorem className?_items (items : List ClassItem) (rest : List Symbol) :
    className? (items.map ClassItem.symbol ++ .plain ']' :: rest)
      = (namedRanges? (.char ':' :: items)).map fun ranges => (ranges, rest) := by
  rw [className?, namedRanges?]
  -- Both look through the names in order, so it is enough to compare name by name.
  have hplain := namedRanges_plain
  generalize namedRanges = named at hplain
  induction named with
  | nil => rfl
  | cons head named ih =>
    obtain ⟨name, ranges⟩ := head
    obtain ⟨hname, hnamed⟩ := List.forall_mem_cons.mp hplain
    have hspelled :
        .char ':' :: items = spelled name ↔ items = (name.toList ++ [':']).map .char := by
      simp [spelled]
    simp only [List.findSome?_cons, List.find?_cons, name_prefix_iff hname, hspelled, ih hnamed]
    by_cases hitems : items = (name.toList ++ [':']).map .char
    · have hdrop : (items.map ClassItem.symbol ++ .plain ']' :: rest).drop
          ((name.toList ++ [':']).map Symbol.plain ++ [Symbol.plain ']']).length = rest := by
        rw [hitems, map_symbol_char hname, List.append_cons _ _ rest]
        exact List.drop_left
      simp only [if_pos hitems, hdrop, decide_eq_true hitems]
      rfl
    · simp only [if_neg hitems, decide_eq_false hitems]

/-- The items of a class and the bracket that closes it do not begin with a caret. -/
theorem caret_ne_head?_items (items : List ClassItem) (rest : List Symbol) :
    (items.map ClassItem.symbol ++ .plain ']' :: rest).head? ≠ some (.plain '^') := by
  cases items with
  | nil => simp
  | cons item items => simpa using symbol_ne (by decide) (by decide) item

theorem namedBracket?_of_head?_ne {ss : List Symbol} (h : ss.head? ≠ some (.plain ':')) :
    namedBracket? ss = none := by
  unfold namedBracket?
  split <;> simp at h ⊢

/-- **A bracket of items is a class name** just if the items spell one. -/
theorem namedBracket?_items (items : List ClassItem) (rest : List Symbol) :
    namedBracket? (items.map ClassItem.symbol ++ .plain ']' :: rest)
      = (namedRanges? items).map fun ranges => (inRanges ranges, rest) := by
  have hsymbol : ClassItem.symbol (.char ':') = .plain ':' := by decide
  by_cases hcolon : items.head? = some (.char ':')
  · obtain ⟨items, rfl⟩ := List.head?_eq_some_iff.mp hcolon
    have hcaret := caret_ne_head?_items items rest
    rw [List.map_cons, hsymbol, List.cons_append, namedBracket?, className?_items, Option.map_map]
    · rfl
    · exact fun ss heq => hcaret (by rw [heq]; rfl)
  · have hnone : namedRanges? items = none := by
      rw [namedRanges?, Option.map_eq_none_iff, List.find?_eq_none]
      intro named _ hspelled
      exact hcolon (by rw [of_decide_eq_true hspelled]; rfl)
    rw [hnone, Option.map_none]
    refine namedBracket?_of_head?_ne ?_
    cases items with
    | nil => simp
    | cons item items =>
      intro h
      have hitem : item.symbol = ClassItem.symbol (.char ':') := by simpa [hsymbol] using h
      exact hcolon (by simp [symbol_injective hitem])

/-! ## Classes -/

theorem namedBracket?_class (negated : Bool) (items : List ClassItem) (rest : List Symbol) :
    namedBracket? (classSymbols negated items ++ .plain ']' :: rest)
      = (if negated then none else namedRanges? items).map
          fun ranges => (inRanges ranges, rest) := by
  cases negated with
  | true => rfl
  | false => simpa [classSymbols] using namedBracket?_items items rest

theorem openBracket_class (negated : Bool) (items : List ClassItem) (rest : List Symbol) :
    openBracket (classSymbols negated items ++ .plain ']' :: rest)
      = beginBracket negated (items.map ClassItem.symbol ++ .plain ']' :: rest) := by
  cases negated with
  | true => rfl
  | false =>
    have hcaret := caret_ne_head?_items items rest
    simp only [classSymbols, Bool.false_eq_true, if_false, List.nil_append]
    rw [openBracket]
    exact fun ss heq => hcaret (by rw [heq]; rfl)

theorem dropWhile_hyphen_items (items : List ClassItem) (rest : List Symbol) :
    (items.map ClassItem.symbol ++ .plain ']' :: rest).dropWhile (· = .plain '-')
      = (items.dropWhile (· = .hyphen)).map ClassItem.symbol ++ .plain ']' :: rest := by
  induction items with
  | nil => simp
  | cons item items ih =>
    cases item with
    | hyphen => simpa [ClassItem.symbol] using ih
    | char c =>
      have hne : symbolOf c ≠ .plain '-' := symbolOf_ne (by decide) c
      simp [ClassItem.symbol, hne]

/-- The hyphens that a class begins with are listed. -/
theorem beginBracket_items (negated : Bool) (item : ClassItem) (items : List ClassItem)
    (rest : List Symbol) :
    beginBracket negated ((item :: items).map ClassItem.symbol ++ .plain ']' :: rest)
      = (({ negated } : Bracket).lists
          (((item :: items).takeWhile (· = .hyphen)).map fun _ => CharRange.single '-'),
        ((item :: items).dropWhile (· = .hyphen)).map ClassItem.symbol ++ .plain ']' :: rest) := by
  cases item with
  | hyphen =>
    have hlisted (others : List ClassItem) :
        inRanges (.single '-' :: others.map fun _ => .single '-') = (· == '-') := by
      funext c
      cases hc : c == '-' <;> simp [inRanges, contains_single, hc]
    simp only [List.map_cons, ClassItem.symbol, List.cons_append, beginBracket,
      dropWhile_hyphen_items, List.takeWhile_cons, List.dropWhile_cons, decide_true, if_true,
      Bracket.lists, hlisted]
  | char c =>
    simp only [List.map_cons, ClassItem.symbol, List.cons_append]
    rw [beginBracket]
    · simp only [List.takeWhile_cons, List.dropWhile_cons, reduceCtorEq, decide_false,
        Bool.false_eq_true, if_false, List.map_nil, List.map_cons, ClassItem.symbol,
        List.cons_append]
      rfl
    · exact fun ss heq => symbolOf_ne (by decide) c (List.cons.inj heq).1
    · exact fun ss heq => symbolOf_ne (by decide) c (List.cons.inj heq).1

theorem contains_named (listed : List CharRange) (c : Char) :
    CharClass.contains { negated := false, listed, removed := [], named := true } c
      = inRanges listed c := by
  simp [CharClass.contains]

theorem contains_eq_test (negated : Bool) (listed : List CharRange)
    (removed : List (List CharRange)) :
    CharClass.contains { negated, listed, removed }
      = ((({ negated } : Bracket).lists listed).without removed).test := by
  funext c
  have hnegated : (({ negated } : Bracket).lists listed).negated = negated := rfl
  have hjoined : (({ negated } : Bracket).lists listed).joined = inRanges listed := rfl
  rw [Bracket.test_without, hnegated, hjoined, CharClass.contains]

namespace Reading

variable {r : Reading} {b : Bracket} {negated : Bool} {k : CharClass}

/-- A class that lists nothing leaves its bracket open: what should close it is
listed. -/
theorem read_class_empty (r : Reading) (b : Bracket) (negated : Bool) (rest : List Symbol) :
    (r.within b).read (.plain '[' :: (classSymbols negated [] ++ .plain ']' :: rest))
      = ((r.within b).within { negated, listed := (· == ']') }).read rest := by
  have hnamed : namedBracket? (classSymbols negated [] ++ .plain ']' :: rest) = none := by
    cases negated <;> rfl
  rw [read_open hnamed, openBracket_class]
  rfl

/-- **A class that can be read** lists what it contains. -/
theorem read_class_ok (h : CharClass.ofItems negated items = .ok k) (r : Reading) (b : Bracket)
    (rest : List Symbol) :
    (r.within b).read (.plain '[' :: (classSymbols negated items ++ .plain ']' :: rest))
      = (r.within (b.list k.contains)).read rest := by
  have hnamed := namedBracket?_class negated items rest
  cases items with
  | nil => simp [CharClass.ofItems] at h
  | cons item items =>
    simp only [CharClass.ofItems] at h
    split at h
    · next ranges hranges =>
      cases h
      rw [hranges, Option.map_some] at hnamed
      rw [read_named hnamed]
      obtain rfl : negated = false := by
        cases negated with
        | false => rfl
        | true => cases hranges
      rw [funext (contains_named ranges)]
    · next hnone =>
      rw [hnone, Option.map_none] at hnamed
      rw [read_open hnamed, openBracket_class, beginBracket_items]
      split at h
      · next listed removed hunions =>
        cases h
        have hread := (read_items (r.within b) { negated } _ _ rest).1 _ _ hunions
        rw [contains_eq_test]
        exact hread.trans read_close
      · cases h

/-- One with a range that starts above its end cannot be read as an expression. -/
theorem read_class_inverted (h : CharClass.ofItems negated items = .error .invertedRange)
    (r : Reading) (b : Bracket) (rest : List Symbol) :
    ∃ fault, (r.within b).read (.plain '[' :: (classSymbols negated items ++ .plain ']' :: rest))
      = .error fault := by
  have hnamed := namedBracket?_class negated items rest
  cases items with
  | nil => simp [CharClass.ofItems] at h
  | cons item items =>
    simp only [CharClass.ofItems] at h
    split at h
    · cases h
    · next hnone =>
      rw [hnone, Option.map_none] at hnamed
      rw [read_open hnamed, openBracket_class, beginBracket_items]
      split at h
      · cases h
      · next hne =>
        refine (read_items (r.within b) { negated } _ _ rest).2 ?_
        cases hunions : unions _ _ with
        | none => rfl
        | some us =>
          obtain ⟨listed, removed, rfl⟩ := List.exists_cons_of_ne_nil (unions_ne_nil hunions)
          exact absurd hunions (hne listed removed)

/-- Behind its items a class takes the separator away and is complete. -/
theorem read_closing (r : Reading) (b : Bracket) (separator : Char) (rest : List Symbol) :
    (r.within b).read (closingSymbols separator ++ rest)
      = (r.accept ((b.operate .intersection).list (· != separator)).test).read rest := by
  have hsymbols : closingSymbols separator ++ rest
      = .plain '&' :: .plain '&' :: (notSeparatorSymbols separator ++ .plain ']' :: rest) := by
    simp [closingSymbols]
  rw [hsymbols, read_intersection, read_notSeparator, accept_within, read_close]

theorem test_closing (test : Char → Bool) (separator : Char) :
    (((({} : Bracket).list test).operate .intersection).list (· != separator)).test
      = fun c => test c && c != separator := by
  funext c
  simp [Bracket.test, Bracket.joined, Bracket.list, Bracket.operate, SetOperator.apply]

end Reading

end Glob

end ExportSurface
