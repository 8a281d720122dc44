import ExportSurface.Proofs.GlobReading
import ExportSurface.Proofs.GlobClassText
import ExportSurface.Proofs.GlobSyntax
/-!
# Globs — which patterns are well formed

`WellFormed` is the grammar of patterns that are whole: every class is closed,
lists something and has its ranges in order, and every group is closed. These
are the patterns that compile, as far as they keep within the limits, and no
others (`compile_isOk_iff`); nothing in a pattern is at fault otherwise.
-/

namespace ExportSurface

namespace Glob

/-! ## The grammar -/

/-- The ranges of a class from left to right, each a hyphen with a character on
either side. A character that ends a range starts no other. -/
def rangesIn : List ClassItem → List CharRange
  | [] => []
  | .char low :: .hyphen :: .char high :: items => ⟨low, high⟩ :: rangesIn items
  | _ :: items => rangesIn items

/-- Whether no range of a class starts above its end. -/
def RangesOrdered (items : List ClassItem) : Prop := ∀ r ∈ rangesIn items, r.low ≤ r.high

/-- The characters that start something else than a character, inside a group or
outside. -/
def opening (inside : Bool) : List Char :=
  ['\\', '[', '\x7b'] ++ if inside then ['\x7d'] else []

/-- **The grammar of well-formed patterns**, inside a group or outside. -/
inductive WellFormed : Bool → List Char → Prop where
  | nil {inside : Bool} : WellFormed inside []
  | plain {inside : Bool} {c : Char} {cs : List Char} (hc : c ∉ opening inside)
      (rest : WellFormed inside cs) : WellFormed inside (c :: cs)
  | escaped {inside : Bool} {c : Char} {cs : List Char} (rest : WellFormed inside cs) :
      WellFormed inside ('\\' :: c :: cs)
  /-- A backslash at the very end is itself. -/
  | backslash : WellFormed false ['\\']
  /-- A class is closed, lists something and has its ranges in order. -/
  | set {inside : Bool} {text cs : List Char} {negated : Bool} {items : List ClassItem}
      (body : WritesClass text negated items) (hne : items ≠ []) (hranges : RangesOrdered items)
      (rest : WellFormed inside cs) : WellFormed inside ('[' :: text ++ ']' :: cs)
  /-- A group is closed. -/
  | group {inside : Bool} {text cs : List Char} (body : WellFormed true text)
      (rest : WellFormed inside cs) : WellFormed inside ('\x7b' :: text ++ '\x7d' :: cs)

/-! ## Classes that can be read -/

variable {negated : Bool} {items : List ClassItem}

theorem rangesIn_hyphen (items : List ClassItem) :
    rangesIn (.hyphen :: items) = rangesIn items := by
  simp [rangesIn]

theorem rangesIn_map_char (cs : List Char) : rangesIn (cs.map .char) = [] := by
  induction cs with
  | nil => rfl
  | cons c cs ih =>
    rw [List.map_cons, rangesIn, ih]
    intro low high rest _ hrest
    cases cs <;> simp at hrest

theorem rangesIn_dropWhile (items : List ClassItem) :
    rangesIn (items.dropWhile (· = .hyphen)) = rangesIn items := by
  induction items with
  | nil => rfl
  | cons item items ih =>
    cases item with
    | char c => simp
    | hyphen => simpa [rangesIn_hyphen] using ih

/-- **Unions are read just if the ranges in them are ordered**, wherever a union
ends and the next one begins. -/
theorem unions_isSome_iff (current : List CharRange) (items : List ClassItem) :
    (unions current items).isSome = true ↔ RangesOrdered items := by
  fun_induction unions current items with
  | case1 current => simp [RangesOrdered, rangesIn]
  | case2 current items ih => simpa [RangesOrdered, rangesIn_hyphen] using ih
  | case3 current low high items hle ih => simpa [RangesOrdered, rangesIn, hle] using ih
  | case4 current low high items hle => simp [RangesOrdered, rangesIn, hle]
  | case5 current item items _ hrange ih =>
    rw [RangesOrdered, rangesIn]
    · exact ih
    · exact fun low high rest hitem hitems => hrange low high rest hitem hitems

/-- **A class can be read** just if it lists something and has its ranges in
order. -/
theorem piece?_set_isSome_iff (negated : Bool) (items : List ClassItem) :
    (Token.set negated items true).piece?.isSome = true ↔ items ≠ [] ∧ RangesOrdered items := by
  cases items with
  | nil => simp [Token.piece?, classPiece, CharClass.ofItems, Except.toOption]
  | cons item items =>
    simp only [Token.piece?, classPiece, CharClass.ofItems, ne_eq, List.cons_ne_nil,
      not_false_eq_true, true_and]
    cases hnamed : if negated then none else namedRanges? (item :: items) with
    | some listed =>
      have hlisted : namedRanges? (item :: items) = some listed := by
        cases negated <;> simp_all
      obtain ⟨cs, hcs⟩ := exists_map_char_of_named hlisted
      simp [hcs, RangesOrdered, rangesIn_map_char, Except.toOption]
    | none =>
      have hunions := unions_isSome_iff
        (((item :: items).takeWhile (· = .hyphen)).map fun _ => CharRange.single '-')
        ((item :: items).dropWhile (· = .hyphen))
      rw [RangesOrdered, rangesIn_dropWhile] at hunions
      rw [RangesOrdered, ← hunions]
      cases hus : unions _ _ with
      | none => simp [Except.toOption]
      | some us =>
        obtain ⟨listed, removed, rfl⟩ := List.exists_cons_of_ne_nil (unions_ne_nil hus)
        simp [Except.toOption]

/-! ## What the tokens of a pattern complete -/

variable {n : Nat} {c : Char} {cs : List Char}

/-- A star completes nothing, alone or with another one. -/
theorem completes_scan_star (n : Nat) (cs : List Char) :
    Completes n (scan (.outside n) ('*' :: cs)) ↔ Completes n (scan (.outside n) cs) := by
  induction cs with
  | nil => simp [scan, Completes, Token.piece?]
  | cons d cs ih =>
    by_cases hd : d = '*'
    · subst hd
      rw [ih]
      simp only [scan]
      exact completes_piece rfl n
    · rw [scan_run (by simpa using hd)]
      exact completes_piece rfl n

/-- So does every character that opens or closes nothing. -/
theorem completes_scan_plain (hc : c ∉ opening (decide (0 < n))) (cs : List Char) :
    Completes n (scan (.outside n) (c :: cs)) ↔ Completes n (scan (.outside n) cs) := by
  by_cases hstar : c = '*'
  · subst hstar
    exact completes_scan_star n cs
  by_cases hone : c = '?'
  · subst hone
    simp only [scan]
    exact completes_piece rfl n
  by_cases hcomma : c = ',' ∧ 0 < n
  · obtain ⟨rfl, hn⟩ := hcomma
    obtain ⟨m, rfl⟩ := Nat.exists_eq_succ_of_ne_zero hn.ne'
    simp only [scan]
    exact Iff.rfl
  · have hreserved : c ∉ reserved (decide (0 < n)) := by
      have hne : 0 < n → c ≠ ',' := fun hn hc => hcomma ⟨hc, hn⟩
      simp only [opening, reserved] at hc ⊢
      split at hc <;> simp_all
    rw [scan_literal hreserved]
    exact completes_piece rfl n

/-- **A well-formed text changes nothing** about what the tokens of the text that
follows it complete. -/
theorem WellFormed.completes_iff {inside : Bool} (h : WellFormed inside cs) (n : Nat)
    (rest : List Char) (hin : inside = decide (0 < n)) (hrest : inside = false → rest = []) :
    Completes n (scan (.outside n) (cs ++ rest)) ↔ Completes n (scan (.outside n) rest) := by
  induction h generalizing n rest with
  | nil => rfl
  | plain hc _ ih =>
    rw [List.cons_append, completes_scan_plain (hin ▸ hc)]
    exact ih n rest hin hrest
  | escaped _ ih =>
    simp only [List.cons_append, scan]
    exact (completes_piece rfl n).trans (ih n rest hin hrest)
  | backslash =>
    obtain rfl : n = 0 := by simpa using hin
    simp [hrest rfl, scan, Completes, Token.piece?]
  | @set inside text cs negated items hbody hne hranges _ ih =>
    have hpiece := (piece?_set_isSome_iff negated items).mpr ⟨hne, hranges⟩
    obtain ⟨p, hp⟩ := Option.isSome_iff_exists.mp hpiece
    have hscan := hbody.scan_eq n (cs ++ rest)
    simp only [List.cons_append, List.append_assoc] at hscan ⊢
    rw [hscan, completes_piece hp]
    exact ih n rest hin hrest
  | @group inside text cs _ _ ihbody ih =>
    have hbody := ihbody (n + 1) ('\x7d' :: (cs ++ rest)) (by simp) (by simp)
    simp only [List.cons_append, List.append_assoc, scan, Completes] at hbody ⊢
    exact hbody.trans (ih n rest hin hrest)

/-- Whether a text inside so many groups is well formed up to the brace that
closes the innermost of them, and what follows completes the others. -/
def ClosesGroups : Nat → List Char → Prop
  | 0, cs => WellFormed false cs
  | n + 1, cs => ∃ text rest, cs = text ++ '\x7d' :: rest ∧ WellFormed true text ∧
      Completes n (scan (.outside n) rest)

theorem ClosesGroups.prepend (pre : List Char) (h : ClosesGroups n cs)
    (hpre : ∀ ds, WellFormed (decide (0 < n)) ds → WellFormed (decide (0 < n)) (pre ++ ds)) :
    ClosesGroups n (pre ++ cs) := by
  cases n with
  | zero => exact hpre cs h
  | succ n =>
    obtain ⟨text, rest, rfl, htext, hrest⟩ := h
    exact ⟨pre ++ text, rest, by simp, by simpa using hpre text (by simpa using htext), hrest⟩

/-- **What completes the open groups is well formed**, one element at a time. -/
theorem closesGroups_of_completes (cs : List Char) (n : Nat)
    (h : Completes n (scan (.outside n) cs)) : ClosesGroups n cs := by
  induction hlength : cs.length using Nat.strong_induction_on generalizing cs n with
  | _ k ih =>
    subst hlength
    replace ih : ∀ ds : List Char, ds.length < cs.length → ∀ m,
        Completes m (scan (.outside m) ds) → ClosesGroups m ds :=
      fun ds hds m hm => ih _ hds ds m hm rfl
    cases cs with
    | nil =>
      obtain rfl : n = 0 := by simpa [scan, Completes] using h
      exact .nil
    | cons c cs =>
      by_cases hc : c ∈ opening (decide (0 < n))
      · obtain rfl | rfl | rfl | ⟨rfl, hn⟩ :
            c = '\\' ∨ c = '[' ∨ c = '\x7b' ∨ c = '\x7d' ∧ 0 < n := by
          simp only [opening] at hc
          split at hc <;> simp_all
        · cases cs with
          | nil =>
            obtain rfl : n = 0 := by simpa [scan, Completes, Token.piece?] using h
            exact .backslash
          | cons d cs =>
            simp only [scan] at h
            have hrest := ih cs (by simp only [List.length_cons]; omega) n
              ((completes_piece rfl n).mp h)
            exact hrest.prepend ['\\', d] fun _ => .escaped
        · obtain ⟨text, negated, items, rest, hbody, rfl⟩ | hopen := exists_class_or_open cs
          · rw [← List.cons_append, hbody.scan_eq] at h
            obtain ⟨hpiece, hrest⟩ := h
            obtain ⟨hne, hranges⟩ := (piece?_set_isSome_iff negated items).mp hpiece
            have hcloses :=
              ih rest (by simp only [List.length_append, List.length_cons]; omega) n hrest
            simpa using hcloses.prepend ('[' :: text ++ [']'])
              fun ds hds => by simpa using WellFormed.set hbody hne hranges hds
          · obtain ⟨negated, items, hscan⟩ := hopen n
            simp [hscan, Completes, Token.piece?] at h
        · simp only [scan] at h
          obtain ⟨text, rest, rfl, htext, hrest⟩ := ih cs (by simp) (n + 1) h
          have hcloses :=
            ih rest (by simp only [List.length_append, List.length_cons]; omega) n hrest
          simpa using hcloses.prepend ('\x7b' :: text ++ ['\x7d'])
            fun ds hds => by simpa using WellFormed.group htext hds
        · obtain ⟨m, rfl⟩ := Nat.exists_eq_succ_of_ne_zero hn.ne'
          simp only [scan] at h
          exact ⟨[], cs, rfl, .nil, h⟩
      · have hrest := ih cs (by simp) n ((completes_scan_plain hc cs).mp h)
        exact hrest.prepend [c] fun _ => .plain hc

/-- **A pattern is assembled just if it is well formed.** -/
theorem assemble_tokens_isOk_iff (pattern : String) :
    (∃ alternatives, assemble [] {} (tokens pattern) = .ok alternatives) ↔
      WellFormed false pattern.toList := by
  rw [assemble_isOk_iff, tokens, List.length_nil]
  constructor
  · exact closesGroups_of_completes pattern.toList 0
  · intro h
    have hcompletes := (h.completes_iff 0 [] rfl fun _ => rfl).mpr rfl
    rwa [List.append_nil] at hcompletes

/-! ## Which patterns compile -/

/-- Whether what a pattern is assembled into, if it is, nests no deeper than a
regular expression may. -/
def KeepsWithinDepth (pattern : String) : Prop :=
  ∀ alternatives, assemble [] {} (tokens pattern) = .ok alternatives → WithinDepth alternatives

/-- **Just the well-formed patterns compile**, as far as they nest within the
limit and the engine takes them: theirs are the regular expressions that can be
read. The others fail whatever the limit and the engine, and a well-formed
pattern fails for those only. -/
theorem compile_isOk_iff (engine : Engine) (pattern : String) (separator : Char) :
    ((∃ e, readRegex (regexText pattern separator) = .ok e) ↔ WellFormed false pattern.toList) ∧
    (KeepsWithinDepth pattern → engine.Takes pattern separator →
      ((∃ g, compile engine pattern separator = .ok g) ↔ WellFormed false pattern.toList)) ∧
    (¬ WellFormed false pattern.toList → ∃ fault ∈ [.openClass, .openGroup, .invertedRange],
      compile engine pattern separator = .error { pattern, fault }) ∧
    (WellFormed false pattern.toList → ¬ KeepsWithinDepth pattern →
      compile engine pattern separator = .error { pattern, fault := .tooDeep }) ∧
    (WellFormed false pattern.toList → KeepsWithinDepth pattern →
      ¬ engine.Takes pattern separator →
      compile engine pattern separator = .error { pattern, fault := .tooLarge }) := by
  rw [← assemble_tokens_isOk_iff]
  refine ⟨readRegex_isOk_iff pattern separator, ?_⟩
  cases hassemble : assemble [] {} (tokens pattern) with
  | error fault =>
    have hcompile : compile engine pattern separator = .error { pattern, fault } := by
      simp only [compile, hassemble]
    have hnot : ¬ ∃ alternatives, Except.error fault = .ok (alternatives : List (List Piece)) := by
      rintro ⟨alternatives, hok⟩
      cases hok
    exact ⟨fun _ _ => by simp [hcompile], fun _ => ⟨fault, assemble_fault hassemble, hcompile⟩,
      fun hok => absurd hok hnot, fun hok => absurd hok hnot⟩
  | ok alternatives =>
    have hkeeps : KeepsWithinDepth pattern ↔ WithinDepth alternatives := by
      simp [KeepsWithinDepth, hassemble]
    rw [hkeeps, compile_of_assemble hassemble]
    refine ⟨fun hdepth htakes => ?_, fun hnot => absurd ⟨_, rfl⟩ hnot, fun _ hdepth => ?_,
      fun _ hdepth htakes => ?_⟩
    · rw [if_pos hdepth, if_pos htakes]
      exact iff_of_true ⟨_, rfl⟩ ⟨_, rfl⟩
    · rw [if_neg hdepth]
    · rw [if_pos hdepth, if_neg htakes]

/-- The alternatives of a class inside a group. -/
def groupedSample : List (List Piece) :=
  [[.group [[.literal 'a'], [.set { negated := true, listed := [⟨'b', 'd'⟩], removed := [] }]]]]

theorem compile_isOk_iff_grouped :
    KeepsWithinDepth "\x7ba,[!b-d]\x7d" ∧ Engine.byLength.Takes "\x7ba,[!b-d]\x7d" '.' ∧
      WellFormed false "\x7ba,[!b-d]\x7d".toList ∧
      ∃ g, compile .byLength "\x7ba,[!b-d]\x7d" '.' = .ok g := by
  have hkeeps : KeepsWithinDepth "\x7ba,[!b-d]\x7d" := by
    intro alternatives h
    obtain rfl : groupedSample = alternatives := Except.ok.inj h
    decide +kernel
  have htakes : Engine.byLength.Takes "\x7ba,[!b-d]\x7d" '.' := by decide +kernel
  have hclass : WritesClass "!b-d".toList true [.char 'b', .hyphen, .char 'd'] :=
    .negated (by decide) <| .plain (by decide) <| .hyphen <| .plain (by decide) .nil
  have hgrouped : WellFormed true "a,[!b-d]".toList :=
    .plain (by decide) <| .plain (by decide) <|
      .set hclass (by simp) (by simp [RangesOrdered, rangesIn]) .nil
  have hwellFormed : WellFormed false "\x7ba,[!b-d]\x7d".toList := .group hgrouped .nil
  exact ⟨hkeeps, htakes, hwellFormed,
    ((compile_isOk_iff .byLength _ '.').2.1 hkeeps htakes).mpr hwellFormed⟩

end Glob

end ExportSurface
