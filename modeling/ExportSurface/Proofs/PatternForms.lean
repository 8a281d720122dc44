import ExportSurface.Glob.Filter
import ExportSurface.Manifest
import Mathlib.Data.List.DropRight
/-!
# Patterns given one by one and joined

Patterns can be given one by one or joined by colons. What counts of either is
the same trimmed patterns (`Manifest.splitPatterns_intercalate`), and a filter
hangs on those alone (`ExportFilter.ofPatterns_congr`). The manifest comes in
where no patterns are given. Given one by one, blank patterns count as given,
though the filter drops them; joined, they are dropped before that. So the two
forms make one filter, or fail in one way, unless there are patterns and all of
them are blank: then the one form selects every name, and the other what the
manifest selects (`ExportFilter.sameChoice_iff`).
-/

namespace ExportSurface

namespace Text

variable {cs cs' : List Char}

/-! ## Pieces and blanks -/

theorem pieces_eq_splitOn (sep : Char) (cs : List Char) : pieces sep cs = cs.splitOn sep := by
  induction cs with
  | nil => rfl
  | cons c cs ih =>
    have hne := pieces_ne_nil sep cs
    rw [pieces, List.splitOn_cons_eq_if_modifyHead, ← ih]
    by_cases hc : c = sep
    · simp [hc]
    · cases hp : pieces sep cs with
      | nil => exact absurd hp hne
      | cons p ps => simp [hc]

/-- Texts without the separator are the pieces of what they are joined to. -/
theorem pieces_intercalate {sep : Char} {ps : List (List Char)} (h : ∀ p ∈ ps, sep ∉ p)
    (hne : ps ≠ []) : pieces sep ([sep].intercalate ps) = ps := by
  rw [pieces_eq_splitOn]
  exact List.splitOn_intercalate sep h hne

theorem trim_eq (cs : List Char) : trim cs = (cs.dropWhile isBlank).rdropWhile isBlank := rfl

theorem dropWhile_eq_self_of_prefix (h : cs <+: cs') (h' : cs'.dropWhile isBlank = cs') :
    cs.dropWhile isBlank = cs := by
  cases cs with
  | nil => rfl
  | cons c cs =>
    obtain ⟨rest, rfl⟩ := h
    cases hc : isBlank c with
    | false => exact List.dropWhile_cons_of_neg (by simp [hc])
    | true =>
      have hlen := congrArg List.length h'
      have hle := (List.dropWhile_suffix (l := cs ++ rest) isBlank).length_le
      rw [List.cons_append, List.dropWhile_cons_of_pos hc, List.length_cons] at hlen
      omega

/-- What is trimmed is left as it is. -/
theorem trim_trim (cs : List Char) : trim (trim cs) = trim cs := by
  -- trimming the end leaves the beginning trimmed
  have hleft : (trim cs).dropWhile isBlank = trim cs :=
    dropWhile_eq_self_of_prefix (List.rdropWhile_prefix isBlank _)
      (List.dropWhile_idempotent isBlank cs)
  rw [trim_eq (trim cs), hleft]
  exact List.rdropWhile_idempotent isBlank _

theorem trimmed_trimmed (s : String) : trimmed (trimmed s) = trimmed s := by
  rw [trimmed, trimmed, String.toList_ofList, trim_trim]

/-- Whether a text is nothing but blanks. -/
def IsBlankText (s : String) : Prop := ∀ c ∈ s.toList, isBlank c = true

instance (s : String) : Decidable (IsBlankText s) :=
  List.decidableBAll (isBlank · = true) s.toList

/-- Trimming leaves nothing of a text of blanks, and of no other. -/
theorem trimmed_eq_empty_iff (s : String) : trimmed s = "" ↔ IsBlankText s := by
  rw [trimmed, String.ofList_eq_empty_iff, trim_eq, List.rdropWhile_eq_nil_iff]
  constructor
  · intro h
    cases hd : s.toList.dropWhile isBlank with
    | nil => exact List.dropWhile_eq_nil_iff.mp hd
    | cons c cs =>
      -- the first character that stays is not blank
      have hhead := List.head?_dropWhile_not isBlank s.toList
      rw [hd] at h hhead
      cases (h c List.mem_cons_self).symm.trans hhead
  · intro h c hc
    exact h c ((List.dropWhile_suffix isBlank).subset hc)

end Text

open Text

/-! ## The patterns that count -/

variable {engine : Glob.Engine} {ps : List String} {manifest : Option Manifest} {separator : Char}

namespace ExportFilter

theorem effective_cons (p : String) (ps : List String) :
    effective (p :: ps) = (if trimmed p = "" then [] else [trimmed p]) ++ effective ps := by
  by_cases hp : trimmed p = ""
  · simp [effective, hp]
  · simp [effective, hp]

/-- Patterns that count are left as they are. -/
theorem effective_effective (ps : List String) : effective (effective ps) = effective ps := by
  induction ps with
  | nil => rfl
  | cons p ps ih =>
    rw [effective_cons]
    by_cases hp : trimmed p = ""
    · rw [if_pos hp, List.nil_append, ih]
    · rw [if_neg hp, List.singleton_append, effective_cons, ih, trimmed_trimmed, if_neg hp,
        List.singleton_append]

theorem effective_eq_nil_iff : effective ps = [] ↔ ∀ p ∈ ps, IsBlankText p := by
  simp only [effective, List.filter_eq_nil_iff, List.mem_map, forall_exists_index, and_imp,
    forall_apply_eq_imp_iff₂, decide_eq_true_eq, not_not, trimmed_eq_empty_iff]

/-- **A filter hangs on the patterns that count alone**, and so does its failure. -/
theorem ofPatterns_congr {ps qs : List String} (h : effective ps = effective qs) :
    ofPatterns engine ps separator = ofPatterns engine qs separator := by
  rw [ofPatterns, ofPatterns, h]

/-- Blank patterns make the filter that selects every name. -/
theorem ofPatterns_of_blank (h : ∀ p ∈ ps, IsBlankText p) :
    ofPatterns engine ps separator = .ok all := by
  rw [ofPatterns, effective_eq_nil_iff.mpr h]
  rfl

@[simp] theorem selects_all (name : String) : all.selects name = true := rfl

end ExportFilter

namespace Manifest

open ExportFilter

/-- **What counts of patterns is what counts of them joined.** -/
theorem splitPatterns_intercalate (h : ∀ p ∈ ps, ':' ∉ p.toList) :
    splitPatterns (":".intercalate ps) = effective ps := by
  have htexts : ∀ p ∈ ps.map String.toList, ':' ∉ p := by
    intro p hp
    obtain ⟨q, hq, rfl⟩ := List.mem_map.mp hp
    exact h q hq
  rw [splitPatterns, String.toList_intercalate]
  cases ps with
  | nil => rfl
  | cons p ps =>
    change (List.map _ (pieces ':' ([':'].intercalate _))).filter _ = _
    rw [pieces_intercalate htexts (by simp), List.map_map]
    rfl

theorem effectivePatterns_given (ps : List String) (manifest : Option Manifest) :
    effectivePatterns ps none manifest
      = if ps = [] then (manifest.map (·.patterns)).getD [] else ps := by
  cases ps with
  | nil => rfl
  | cons p ps => simp [effectivePatterns]

theorem effectivePatterns_joined (h : ∀ p ∈ ps, ':' ∉ p.toList) (manifest : Option Manifest) :
    effectivePatterns [] (some (":".intercalate ps)) manifest
      = if effective ps = [] then (manifest.map (·.patterns)).getD [] else effective ps := by
  rw [effectivePatterns, Option.map_some, Option.getD_some, List.nil_append,
    splitPatterns_intercalate h]
  simp only [List.isEmpty_iff]

end Manifest

/-! ## The filters of the two forms -/

namespace ExportFilter

open Manifest

/-- Whether two outcomes are both failures, or filters that select the same names. -/
inductive SameChoice : Except GlobError ExportFilter → Except GlobError ExportFilter → Prop
  | failures {e e' : GlobError} : SameChoice (.error e) (.error e')
  | filters {f f' : ExportFilter} :
    (∀ name, f.selects name = f'.selects name) → SameChoice (.ok f) (.ok f')

theorem SameChoice.refl (r : Except GlobError ExportFilter) : SameChoice r r := by
  cases r with
  | error e => exact .failures
  | ok f => exact .filters fun _ => rfl

/-- The filter that selects every name makes the same choice as those that do. -/
theorem sameChoice_all_iff {r : Except GlobError ExportFilter} :
    SameChoice (.ok all) r ↔ ∃ f, r = .ok f ∧ ∀ name, f.selects name = true := by
  constructor
  · intro h
    cases h with
    | filters hsame => exact ⟨_, rfl, fun name => (hsame name).symm⟩
  · rintro ⟨f, rfl, h⟩
    exact .filters fun name => (h name).symm

variable (engine ps manifest separator) in
/-- What comes of patterns given one by one. -/
def ofGiven : Except GlobError ExportFilter :=
  ofPatterns engine (effectivePatterns ps none manifest) separator

variable (engine ps manifest separator) in
/-- What comes of patterns given joined by colons. -/
def ofJoined : Except GlobError ExportFilter :=
  ofPatterns engine (effectivePatterns [] (some (":".intercalate ps)) manifest) separator

/-- Patterns of which one is not blank, or none at all, make one filter in both
forms, or fail in one way. -/
theorem ofGiven_eq_ofJoined (h : ∀ p ∈ ps, ':' ∉ p.toList)
    (hps : ps ≠ [] → ∃ p ∈ ps, ¬ IsBlankText p) :
    ofGiven engine ps manifest separator = ofJoined engine ps manifest separator := by
  rw [ofGiven, ofJoined, effectivePatterns_given, effectivePatterns_joined h]
  by_cases hnil : ps = []
  · rw [if_pos hnil, if_pos (by rw [hnil]; rfl)]
  · have hne : effective ps ≠ [] := by
      rw [Ne, effective_eq_nil_iff]
      simpa using hps hnil
    rw [if_neg hnil, if_neg hne]
    exact ofPatterns_congr (effective_effective ps).symm

/-- Blank patterns given one by one select every name. -/
theorem ofGiven_of_blank (hne : ps ≠ []) (hblank : ∀ p ∈ ps, IsBlankText p) :
    ofGiven engine ps manifest separator = .ok all := by
  rw [ofGiven, effectivePatterns_given, if_neg hne]
  exact ofPatterns_of_blank hblank

/-- Blank patterns given joined leave the choice to the manifest. -/
theorem ofJoined_of_blank (h : ∀ p ∈ ps, ':' ∉ p.toList) (hblank : ∀ p ∈ ps, IsBlankText p) :
    ofJoined engine ps manifest separator
      = ofPatterns engine ((manifest.map (·.patterns)).getD []) separator := by
  rw [ofJoined, effectivePatterns_joined h, if_pos (effective_eq_nil_iff.mpr hblank)]

/-- **The two forms of patterns make the same choice**, and the same filter or the
same failure, unless there are patterns and all of them are blank. Such patterns
select every name if they are given one by one, and what the manifest selects if
they are joined. So then the choice is the same just if the patterns of the manifest
compile and select every name. -/
theorem sameChoice_iff (engine : Glob.Engine) (ps : List String) (manifest : Option Manifest)
    (separator : Char) (h : ∀ p ∈ ps, ':' ∉ p.toList) :
    (SameChoice (ofGiven engine ps manifest separator) (ofJoined engine ps manifest separator) ↔
        (ps ≠ [] → (∀ p ∈ ps, IsBlankText p) →
          ∃ f, ofPatterns engine ((manifest.map (·.patterns)).getD []) separator = .ok f ∧
            ∀ name, f.selects name = true)) ∧
      ((ps ≠ [] → ∃ p ∈ ps, ¬ IsBlankText p) →
        ofGiven engine ps manifest separator = ofJoined engine ps manifest separator) ∧
      (ps ≠ [] → (∀ p ∈ ps, IsBlankText p) → ofGiven engine ps manifest separator = .ok all) := by
  refine ⟨?_, ofGiven_eq_ofJoined h, ofGiven_of_blank⟩
  by_cases hblank : ps ≠ [] ∧ ∀ p ∈ ps, IsBlankText p
  · rw [ofGiven_of_blank hblank.1 hblank.2, ofJoined_of_blank h hblank.2, sameChoice_all_iff]
    exact ⟨fun hsame _ _ => hsame, fun hsame => hsame hblank.1 hblank.2⟩
  · have hsome : ps ≠ [] → ∃ p ∈ ps, ¬ IsBlankText p := by
      intro hne
      simpa [hne] using hblank
    rw [ofGiven_eq_ofJoined h hsome]
    exact iff_of_true (.refl _) fun hne hall => absurd ⟨hne, hall⟩ hblank

/-- A blank pattern beside another changes nothing, with a manifest that selects
something else. -/
theorem sameChoice_iff_oneBlank :
    (∀ p ∈ [" test.*", " "], ':' ∉ p.toList) ∧
      SameChoice (ofGiven .byLength [" test.*", " "] (some { patterns := ["lib.*"] }) '.')
        (ofJoined .byLength [" test.*", " "] (some { patterns := ["lib.*"] }) '.') := by
  have h : ∀ p ∈ [" test.*", " "], ':' ∉ p.toList := by decide +kernel
  have hnot : ¬ IsBlankText " test.*" := by decide +kernel
  refine ⟨h, (sameChoice_iff .byLength _ _ '.' h).1.mpr fun _ hall => ?_⟩
  exact absurd (hall _ List.mem_cons_self) hnot

/-- **A blank pattern by itself.** With a manifest that selects one name, a blank
pattern selects every name if it is given by itself, and that one if it is given as
a joined list. -/
theorem forms_differ_on_blank :
    ¬ SameChoice (ofGiven .byLength [" "] (some { patterns := ["test.A"] }) '.')
      (ofJoined .byLength [" "] (some { patterns := ["test.A"] }) '.') := by
  have hgiven : ofGiven .byLength [" "] (some { patterns := ["test.A"] }) '.' = .ok all :=
    ofGiven_of_blank (by simp) (by decide +kernel)
  have hjoined : (ofJoined .byLength [" "] (some { patterns := ["test.A"] }) '.').toOption.map
      (·.selects "test.B") = some false := by
    rw [ofJoined_of_blank (by decide +kernel) (by decide +kernel)]
    decide +kernel
  rw [hgiven, sameChoice_all_iff]
  rintro ⟨f, hf, hall⟩
  rw [hf] at hjoined
  cases (hall "test.B").symm.trans (Option.some.inj hjoined)

end ExportFilter

end ExportSurface
