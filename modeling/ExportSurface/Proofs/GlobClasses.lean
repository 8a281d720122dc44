import ExportSurface.Proofs.GlobReading
import ExportSurface.Proofs.GlobClassText
/-!
# Globs — what a class means

A class lists characters and ranges (`ClassEntry`). In a class written from
them hyphens stand in ranges only, all others being escaped, and then the class
matches the characters its entries list, or all others if it is negated, but
never the separator (`class_matches`). The one exception is a class that spells
a known name between colons.
-/

namespace ExportSurface

namespace Glob

/-! ## Entries -/

/-- What a class lists: a character or an ordered range of them. -/
inductive ClassEntry where
  | char (c : Char)
  | range (low high : Char) (le : low ≤ high)

namespace ClassEntry

/-- Whether an entry lists a character. -/
def Lists : ClassEntry → Char → Prop
  | .char d, c => c = d
  | .range low high _, c => low ≤ c ∧ c ≤ high

/-- The items of an entry, the hyphen of a range between its ends. -/
def items : ClassEntry → List ClassItem
  | .char c => [.char c]
  | .range low high _ => [.char low, .hyphen, .char high]

/-- The range of an entry. -/
def charRange : ClassEntry → CharRange
  | .char c => .single c
  | .range low high _ => ⟨low, high⟩

theorem contains_charRange (e : ClassEntry) (c : Char) :
    e.charRange.contains c = true ↔ e.Lists c := by
  cases e with
  | char d => simp [charRange, contains_single, Lists]
  | range low high le => exact contains_iff ⟨low, high⟩ c

end ClassEntry

/-- Whether one of several entries lists a character. -/
def Listed (entries : List ClassEntry) (c : Char) : Prop := ∃ e ∈ entries, e.Lists c

/-- The entries of a class that is a name between colons. -/
def namedEntries (name : String) : List ClassEntry :=
  (':' :: name.toList ++ [':']).map .char

variable {negated : Bool} {items : List ClassItem} {entries : List ClassEntry}

theorem inRanges_map_charRange (entries : List ClassEntry) (c : Char) :
    inRanges (entries.map ClassEntry.charRange) c = true ↔ Listed entries c := by
  simp [inRanges, Listed, ClassEntry.contains_charRange]

/-! ## Reading the items of entries -/

/-- Items that do not start with a hyphen leave a character before them alone. -/
theorem unions_char (current : List CharRange) (c : Char) (h : items.head? ≠ some .hyphen) :
    unions current (.char c :: items) = unions (current ++ [.single c]) items := by
  cases items with
  | nil => simp [unions, ClassItem.listedChar]
  | cons item items =>
    cases item with
    | char d => simp [unions, ClassItem.listedChar]
    | hyphen => simp at h

theorem head?_items_ne (entries : List ClassEntry) :
    (entries.flatMap ClassEntry.items).head? ≠ some .hyphen := by
  cases entries with
  | nil => simp
  | cons e entries => cases e <;> simp [ClassEntry.items]

/-- **The items of entries are one union**, of a range for each entry. -/
theorem unions_entries (entries : List ClassEntry) (current : List CharRange) :
    unions current (entries.flatMap ClassEntry.items)
      = some [current ++ entries.map ClassEntry.charRange] := by
  induction entries generalizing current with
  | nil => simp [unions]
  | cons e entries ih =>
    cases e with
    | char c =>
      rw [List.flatMap_cons, ClassEntry.items, List.singleton_append,
        unions_char current c (head?_items_ne entries), ih]
      simp [ClassEntry.charRange]
    | range low high le =>
      simp only [List.flatMap_cons, ClassEntry.items, List.cons_append, List.nil_append, unions,
        if_pos le, ih]
      simp [ClassEntry.charRange]

/-! ## Names between colons -/

theorem items_map_char (cs : List Char) :
    (cs.map ClassEntry.char).flatMap ClassEntry.items = cs.map .char := by
  rw [List.flatMap_map]
  exact List.map_eq_flatMap.symm

/-- Items without hyphens are the items of their characters only. -/
theorem eq_map_char_of_items_eq {cs : List Char}
    (h : entries.flatMap ClassEntry.items = cs.map .char) : entries = cs.map .char := by
  induction entries generalizing cs with
  | nil =>
    obtain rfl : cs = [] := by simpa using h.symm
    rfl
  | cons e entries ih =>
    cases e with
    | char d =>
      cases cs with
      | nil => simp [ClassEntry.items] at h
      | cons c cs =>
        obtain ⟨rfl, hrest⟩ : d = c ∧ entries.flatMap ClassEntry.items = cs.map .char := by
          simpa [ClassEntry.items] using h
        rw [ih hrest, List.map_cons]
    | range low high le =>
      obtain _ | ⟨c, _ | ⟨d, cs⟩⟩ := cs <;> simp [ClassEntry.items] at h

theorem items_eq_spelled_iff {name : String} :
    entries.flatMap ClassEntry.items = spelled name ↔ entries = namedEntries name := by
  rw [spelled_eq, namedEntries]
  constructor
  · intro h
    exact eq_map_char_of_items_eq h
  · rintro rfl
    exact items_map_char _

/-- No two names between colons are the same. -/
theorem namedRanges?_spelled :
    ∀ named ∈ namedRanges, namedRanges? (spelled named.1) = some named.2 := by
  decide +kernel

/-- Whether a class is nothing but a known name between colons. -/
def SpellsName (negated : Bool) (entries : List ClassEntry) : Prop :=
  negated = false ∧ ∃ named ∈ namedRanges, entries = namedEntries named.1

theorem namedRanges?_eq_none (h : ¬ SpellsName negated entries) :
    (if negated then none else namedRanges? (entries.flatMap ClassEntry.items)) = none := by
  cases negated with
  | true => rfl
  | false =>
    rw [if_neg Bool.false_ne_true, namedRanges?, Option.map_eq_none_iff, List.find?_eq_none]
    intro named hmem heq
    exact h ⟨rfl, named, hmem, items_eq_spelled_iff.mp (of_decide_eq_true heq)⟩

/-! ## The class of entries -/

/-- **Entries are read as the class that lists them**, unless they spell a name. -/
theorem ofItems_entries (hne : entries ≠ []) (hnamed : ¬ SpellsName negated entries) :
    CharClass.ofItems negated (entries.flatMap ClassEntry.items)
      = .ok { negated, listed := entries.map ClassEntry.charRange, removed := [] } := by
  have hnone := namedRanges?_eq_none hnamed
  have hunions := unions_entries entries []
  have hhead := head?_items_ne entries
  obtain ⟨item, items, hitems⟩ :
      ∃ item items, entries.flatMap ClassEntry.items = item :: items := by
    obtain _ | ⟨e, entries⟩ := entries
    · exact absurd rfl hne
    · cases e <;> simp [ClassEntry.items]
  rw [hitems] at hnone hunions hhead ⊢
  have hitem : item ≠ .hyphen := by simpa using hhead
  simp only [CharClass.ofItems, hnone, List.takeWhile_cons, List.dropWhile_cons, hitem,
    decide_false, Bool.false_eq_true, if_false, List.map_nil, hunions, List.nil_append]

theorem ofItems_named {named : String × List CharRange} (hmem : named ∈ namedRanges) :
    CharClass.ofItems false (spelled named.1)
      = .ok { negated := false, listed := named.2, removed := [], named := true } := by
  have hnamed := namedRanges?_spelled named hmem
  rw [spelled, List.cons_append] at hnamed ⊢
  simp only [CharClass.ofItems, Bool.false_eq_true, if_false, hnamed]

/-- **The class of entries**: what they list, or the characters of the name that
they spell. -/
theorem exists_ofItems_entries (negated : Bool) (hne : entries ≠ []) :
    ∃ k, CharClass.ofItems negated (entries.flatMap ClassEntry.items) = .ok k ∧ k.removed = [] ∧
      (¬ SpellsName negated entries →
        k = { negated, listed := entries.map ClassEntry.charRange, removed := [] }) ∧
      ∀ named ∈ namedRanges, negated = false → entries = namedEntries named.1 →
        k = { negated := false, listed := named.2, removed := [], named := true } := by
  by_cases hspells : SpellsName negated entries
  · obtain ⟨rfl, named, hmem, rfl⟩ := hspells
    have hk := ofItems_named hmem
    rw [← items_eq_spelled_iff.mpr rfl] at hk
    refine ⟨_, hk, rfl, fun h => absurd ⟨rfl, named, hmem, rfl⟩ h, ?_⟩
    intro other hother _ hentries
    -- two names that one class spells are the same, and stand for the same
    have hspelled : spelled named.1 = spelled other.1 := by
      rw [← items_eq_spelled_iff.mpr rfl, hentries, items_eq_spelled_iff.mpr rfl]
    have hranges : named.2 = other.2 := Option.some.inj <| by
      rw [← namedRanges?_spelled named hmem, hspelled, namedRanges?_spelled other hother]
    rw [hranges]
  · refine ⟨_, ofItems_entries hne hspells, rfl, fun _ => rfl, ?_⟩
    intro named hmem hnegated hentries
    exact absurd ⟨hnegated, named, hmem, hentries⟩ hspells

/-! ## Compiling one class -/

/-- A class from which nothing is taken away nests no deeper than four. -/
theorem CharClass.depth_le {k : CharClass} (h : k.removed = []) : k.depth ≤ 4 := by
  have hunion : unionDepth k.listed ≤ 1 := by
    unfold unionDepth
    split <;> omega
  simp only [CharClass.depth, h, differenceDepth]
  split <;> omega

theorem assemble_set {ts : List Token} {k : CharClass} (hts : ts = [.set negated items true])
    (hk : CharClass.ofItems negated items = .ok k) : assemble [] {} ts = .ok [[.set k]] := by
  simp [hts, assemble, classPiece, hk, Frame.push, Frame.alternatives]

theorem withinDepth_set {k : CharClass} (hremoved : k.removed = []) : WithinDepth [[.set k]] := by
  have hle := CharClass.depth_le hremoved
  simp [WithinDepth, alternativesDepth, piecesDepth, Piece.depth, depthLimit]
  omega

/-- It matches the names of one character that the class matches. -/
theorem isMatch_set (pattern : String) (separator : Char) (k : CharClass) (name : String) :
    Glob.isMatch { pattern, separator, alternatives := [[.set k]] } name = true ↔
      ∃ c, name.toList = [c] ∧ c ≠ separator ∧ k.contains c = true := by
  simp only [isMatch_iff, alternativesLanguage, piecesLanguage, Piece.language, mul_one, add_zero,
    mem_oneOf, Bool.and_eq_true, bne_iff_ne]
  exact exists_congr fun c => and_congr_right fun _ => and_comm

theorem contains_entries (c : Char) :
    CharClass.contains { negated, listed := entries.map ClassEntry.charRange, removed := [] } c
      = true ↔ (Listed entries c ↔ negated = false) := by
  rw [← inRanges_map_charRange]
  cases negated <;> simp [CharClass.contains]

/-- **A class matches what its entries list**, negated what they do not, and
never the separator. A class that is not negated and spells a known name
between colons matches the characters of that name instead. What it matches is
what its regular expression is found in. It compiles, unless the engine finds
that too large. -/
theorem class_matches {pattern : String} {text : List Char}
    (hpattern : pattern.toList = '[' :: text ++ [']'])
    (htext : WritesClass text negated (entries.flatMap ClassEntry.items)) (hne : entries ≠ [])
    (engine : Engine) (separator : Char) :
    ∃ g e, (engine.Takes pattern separator → compile engine pattern separator = .ok g) ∧
      (¬ engine.Takes pattern separator →
        compile engine pattern separator = .error { pattern, fault := .tooLarge }) ∧
      readRegex (regexText pattern separator) = .ok e ∧
      (∀ name : String, Finds e name.toList ↔ g.isMatch name = true) ∧
      (¬ SpellsName negated entries → ∀ name : String,
        (g.isMatch name = true ↔ ∃ c, name.toList = [c] ∧ c ≠ separator ∧
          (Listed entries c ↔ negated = false))) ∧
      ∀ named ∈ namedRanges, negated = false → entries = namedEntries named.1 → ∀ name : String,
        (g.isMatch name = true ↔ ∃ c, name.toList = [c] ∧ c ≠ separator ∧
          inRanges named.2 c = true) := by
  have htokens : tokens pattern = [.set negated (entries.flatMap ClassEntry.items) true] := by
    have hscan := htext.scan_eq 0 []
    rwa [tokens, hpattern]
  obtain ⟨k, hk, hremoved, hlisted, hnamed⟩ := exists_ofItems_entries negated hne
  have hassemble := assemble_set htokens hk
  have hcompile := @compile_of_assemble engine _ separator _ hassemble
  rw [if_pos (withinDepth_set hremoved)] at hcompile
  obtain ⟨e, hread, hfinds⟩ := exists_readRegex_of_assemble hassemble separator
  refine ⟨_, e, fun htakes => by rw [hcompile, if_pos htakes],
    fun htakes => by rw [hcompile, if_neg htakes], hread, hfinds, fun hspells name => ?_, ?_⟩
  · simp only [isMatch_set, hlisted hspells, contains_entries]
  · intro named hmem hnegated hentries name
    simp only [isMatch_set, hnamed named hmem hnegated hentries, contains_named]

/-- All but a closing bracket, the letters from `a` to `c`, what is between the
hyphen and `0`, and a caret that is no mark where it stands. -/
def sampleEntries : List ClassEntry :=
  [.char ']', .range 'a' 'c' (by decide), .range '-' '0' (by decide), .char '^']

theorem class_matches_sample :
    WritesClass "!\\]a-c\\--0^".toList true (sampleEntries.flatMap ClassEntry.items) ∧
      sampleEntries ≠ [] ∧ ¬ SpellsName true sampleEntries ∧
      ∃ g, compile .byLength "[!\\]a-c\\--0^]" '.' = .ok g ∧ ∀ name : String,
        (g.isMatch name = true ↔ ∃ c, name.toList = [c] ∧ c ≠ '.' ∧
          (Listed sampleEntries c ↔ true = false)) := by
  have htext : WritesClass "!\\]a-c\\--0^".toList true (sampleEntries.flatMap ClassEntry.items) :=
    .negated (by decide) <| .escaped <| .plain (by decide) <| .hyphen <| .plain (by decide) <|
      .escaped <| .hyphen <| .plain (by decide) <| .plain (by decide) .nil
  have hpattern : "[!\\]a-c\\--0^]".toList = '[' :: "!\\]a-c\\--0^".toList ++ [']'] := rfl
  have hspells : ¬ SpellsName true sampleEntries := by simp [SpellsName]
  have htakes : Engine.byLength.Takes "[!\\]a-c\\--0^]" '.' := by decide +kernel
  obtain ⟨g, e, hg, -, -, -, hmatch, -⟩ :=
    class_matches hpattern htext (by simp [sampleEntries]) .byLength '.'
  exact ⟨htext, by simp [sampleEntries], hspells, g, hg htakes, hmatch hspells⟩

/-- **A class of seven characters can match others and none of the seven.** -/
theorem class_matches_unlisted :
    WritesClass ":alpha:".toList false ((namedEntries "alpha").flatMap ClassEntry.items) ∧
      Listed (namedEntries "alpha") ':' ∧ ¬ Listed (namedEntries "alpha") 'z' ∧
      ∃ g, compile .byLength "[:alpha:]" '.' = .ok g ∧
        g.isMatch ":" = false ∧ g.isMatch "z" = true := by
  refine ⟨?_, ?_, ?_, _, rfl, ?_, ?_⟩
  · exact .listed (by simp) <| .plain (by decide) <| .plain (by decide) <| .plain (by decide) <|
      .plain (by decide) <| .plain (by decide) <| .plain (by decide) <| .plain (by decide) .nil
  · exact ⟨.char ':', by simp [namedEntries], rfl⟩
  · simp [Listed, namedEntries, ClassEntry.Lists]
  · decide +kernel
  · decide +kernel

end Glob

end ExportSurface
