import ExportSurface.Proofs.GlobAssembly
import ExportSurface.Proofs.GlobClassText
import ExportSurface.Proofs.GlobSyntax
/-!
# Globs — `**` for `*`

One star of a pattern doubled makes one token another (`exists_star`), and one
piece of what is assembled, at whatever depth (`assemble_star`). The pattern
still compiles, unless the engine finds it too large, and matches every name
without a line feed that it matched (`isMatch_widened`). A line feed is matched
by `*` and not by `**`.
-/

namespace ExportSurface

namespace Glob

/-! ## Pieces in their place -/

section Append

variable (separator : Char)

theorem piecesLanguage_append (ps qs : List Piece) :
    piecesLanguage separator (ps ++ qs)
      = piecesLanguage separator ps * piecesLanguage separator qs := by
  induction ps with
  | nil => simp [piecesLanguage]
  | cons p ps ih => simp only [List.cons_append, piecesLanguage, ih, mul_assoc]

theorem alternativesLanguage_append (as bs : List (List Piece)) :
    alternativesLanguage separator (as ++ bs)
      = alternativesLanguage separator as + alternativesLanguage separator bs := by
  induction as with
  | nil => simp [alternativesLanguage]
  | cons ps as ih => simp only [List.cons_append, alternativesLanguage, ih, add_assoc]

theorem piecesDepth_append (ps qs : List Piece) :
    piecesDepth (ps ++ qs) = max (piecesDepth ps) (piecesDepth qs) := by
  induction ps with
  | nil => simp [piecesDepth]
  | cons p ps ih => simp only [List.cons_append, piecesDepth, ih, max_assoc]

theorem sequencesDepth_append (as bs : List (List Piece)) :
    sequencesDepth (as ++ bs) = max (sequencesDepth as) (sequencesDepth bs) := by
  induction as with
  | nil => simp [sequencesDepth]
  | cons ps as ih => simp only [List.cons_append, sequencesDepth, ih, max_assoc]

/-- Two or more alternatives nest one deeper than each. -/
theorem alternativesDepth_eq (as : List (List Piece)) :
    alternativesDepth as = sequencesDepth as + if 1 < as.length then 1 else 0 := by
  obtain _ | ⟨ps, _ | ⟨qs, as⟩⟩ := as <;> simp [alternativesDepth, sequencesDepth]

end Append

/-! ## One wider piece -/

/-- A piece in which one `*` has become `**`, itself or somewhere inside. -/
inductive Piece.Widened : Piece → Piece → Prop where
  | star : Piece.Widened .run .anyRun
  | group (as bs : List (List Piece)) (ps qs : List Piece) {p q : Piece} (h : p.Widened q) :
      Piece.Widened (.group (as ++ (ps ++ p :: qs) :: bs)) (.group (as ++ (ps ++ q :: qs) :: bs))

/-- Alternatives in which one `*` has become `**`. -/
inductive Widened : List (List Piece) → List (List Piece) → Prop where
  | within (as bs : List (List Piece)) (ps qs : List Piece) {p q : Piece} (h : p.Widened q) :
      Widened (as ++ (ps ++ p :: qs) :: bs) (as ++ (ps ++ q :: qs) :: bs)

theorem Widened.group {as bs : List (List Piece)} (h : Widened as bs) :
    Piece.Widened (.group as) (.group bs) := by
  cases h with
  | within as bs ps qs h => exact .group as bs ps qs h

/-! ### What it matches -/

section Language

variable {separator : Char} {L L' M M' : Language Char} {p q : Piece} {as bs : List (List Piece)}

/-- Whether one language holds the texts of another in which there is no line feed. -/
def Below (L M : Language Char) : Prop := ∀ w ∈ L, '\n' ∉ w → w ∈ M

namespace Below

theorem refl : Below L L := fun _ hw _ => hw

theorem mul (hL : Below L L') (hM : Below M M') : Below (L * M) (L' * M') := by
  intro w hw hline
  obtain ⟨a, ha, b, hb, rfl⟩ := Language.mem_mul.mp hw
  rw [List.mem_append, not_or] at hline
  exact Language.mem_mul.mpr ⟨a, hL a ha hline.1, b, hM b hb hline.2, rfl⟩

theorem add (hL : Below L L') (hM : Below M M') : Below (L + M) (L' + M') := by
  intro w hw hline
  obtain hw | hw := (Language.mem_add L M w).mp hw
  · exact (Language.mem_add L' M' w).mpr (.inl (hL w hw hline))
  · exact (Language.mem_add L' M' w).mpr (.inr (hM w hw hline))

/-- One piece in its place among others. -/
theorem within (h : Below (p.language separator) (q.language separator)) (as bs : List (List Piece))
    (ps qs : List Piece) :
    Below (alternativesLanguage separator (as ++ (ps ++ p :: qs) :: bs))
      (alternativesLanguage separator (as ++ (ps ++ q :: qs) :: bs)) := by
  simp only [alternativesLanguage_append, alternativesLanguage, piecesLanguage_append,
    piecesLanguage]
  exact refl.add ((refl.mul (h.mul refl)).add refl)

end Below

/-- Any run without a line feed is one that `**` matches. -/
theorem Piece.Widened.language_below (h : p.Widened q) (separator : Char) :
    Below (p.language separator) (q.language separator) := by
  induction h with
  | star =>
    intro w _ hline
    exact mem_runOf.mpr fun c hc => by simpa using fun heq : c = '\n' => hline (heq ▸ hc)
  | group as bs ps qs _ ih => exact ih.within as bs ps qs

theorem Widened.language_below (h : Widened as bs) (separator : Char) :
    Below (alternativesLanguage separator as) (alternativesLanguage separator bs) := by
  cases h with
  | within as bs ps qs h => exact (h.language_below separator).within as bs ps qs

end Language

/-! ### How deep it nests -/

section Depth

variable {p q : Piece} {as bs : List (List Piece)}

theorem alternativesDepth_within (h : q.depth ≤ p.depth) (as bs : List (List Piece))
    (ps qs : List Piece) :
    alternativesDepth (as ++ (ps ++ q :: qs) :: bs)
      ≤ alternativesDepth (as ++ (ps ++ p :: qs) :: bs) := by
  have hpieces : piecesDepth (ps ++ q :: qs) ≤ piecesDepth (ps ++ p :: qs) := by
    simp only [piecesDepth_append, piecesDepth]
    omega
  simp only [alternativesDepth_eq, sequencesDepth_append, sequencesDepth, List.length_append,
    List.length_cons]
  omega

/-- `**` nests less deep than `*`. -/
theorem Piece.Widened.depth_le (h : p.Widened q) : q.depth ≤ p.depth := by
  induction h with
  | star => decide
  | group as bs ps qs _ ih =>
    simp only [Piece.depth]
    exact Nat.succ_le_succ (alternativesDepth_within ih as bs ps qs)

theorem Widened.depth_le (h : Widened as bs) : alternativesDepth bs ≤ alternativesDepth as := by
  cases h with
  | within as bs ps qs h => exact alternativesDepth_within h.depth_le as bs ps qs

end Depth

/-! ## Assembling -/

section Assembly

variable {f f' frame frame' : Frame} {outer outer' : List Frame} {ts : List Token}

/-- A frame in which one `*` has become `**`, in the sequence at hand or in one
that is finished. -/
inductive Frame.Widened : Frame → Frame → Prop where
  | current (finished : List (List Piece)) (ps qs : List Piece) {p q : Piece} (h : p.Widened q) :
      Frame.Widened ⟨finished, ps ++ p :: qs⟩ ⟨finished, ps ++ q :: qs⟩
  | finished (as bs : List (List Piece)) (ps qs current : List Piece) {p q : Piece}
      (h : p.Widened q) :
      Frame.Widened ⟨as ++ (ps ++ p :: qs) :: bs, current⟩ ⟨as ++ (ps ++ q :: qs) :: bs, current⟩

namespace Frame.Widened

theorem push (h : f.Widened f') (p : Piece) : (f.push p).Widened (f'.push p) := by
  cases h with
  | current finished ps qs h => exact .current finished (p :: ps) qs h
  | finished as bs ps qs current h => exact .finished as bs ps qs (p :: current) h

theorem next (h : f.Widened f') : f.next.Widened f'.next := by
  cases h with
  | current finished ps qs h =>
    simpa [Frame.next] using Frame.Widened.finished [] finished qs.reverse ps.reverse [] h
  | finished as bs ps qs current h => exact .finished (current.reverse :: as) bs ps qs [] h

theorem alternatives (h : f.Widened f') : Glob.Widened f.alternatives f'.alternatives := by
  cases h with
  | current finished ps qs h =>
    simpa [Frame.alternatives] using
      Glob.Widened.within finished.reverse [] qs.reverse ps.reverse h
  | finished as bs ps qs current h =>
    simpa [Frame.alternatives] using
      Glob.Widened.within bs.reverse (as.reverse ++ [current.reverse]) ps qs h

end Frame.Widened

/-- Open frames, the innermost first, in one of which a `*` has become `**`. -/
inductive FramesWidened : List Frame → List Frame → Prop where
  | here {f f' : Frame} (outer : List Frame) (h : f.Widened f') :
      FramesWidened (f :: outer) (f' :: outer)
  | outside {outer outer' : List Frame} (f : Frame) (h : FramesWidened outer outer') :
      FramesWidened (f :: outer) (f :: outer')

theorem FramesWidened.push (h : FramesWidened (f :: outer) (f' :: outer')) (p : Piece) :
    FramesWidened (f.push p :: outer) (f'.push p :: outer') := by
  cases h with
  | here _ h => exact .here _ (h.push p)
  | outside _ h => exact .outside _ h

theorem FramesWidened.next (h : FramesWidened (f :: outer) (f' :: outer')) :
    FramesWidened (f.next :: outer) (f'.next :: outer') := by
  cases h with
  | here _ h => exact .here _ h.next
  | outside _ h => exact .outside _ h

/-- **The same tokens make wider alternatives of wider frames.** -/
theorem assemble_widened {as : List (List Piece)}
    (h : FramesWidened (frame :: outer) (frame' :: outer'))
    (hok : assemble outer frame ts = .ok as) :
    ∃ bs, assemble outer' frame' ts = .ok bs ∧ Widened as bs := by
  induction ts generalizing outer outer' frame frame' with
  | nil =>
    cases h with
    | here outer h =>
      cases outer with
      | nil =>
        obtain rfl : frame.alternatives = as := by simpa [assemble] using hok
        exact ⟨_, rfl, h.alternatives⟩
      | cons f outer => simp [assemble] at hok
    | outside _ h =>
      cases h <;> simp [assemble] at hok
  | cons t ts ih =>
    obtain ⟨p, hp⟩ | rfl | rfl | rfl | ⟨-, -, fault, -, hfault⟩ := token_cases t
    · rw [assemble_piece hp] at hok ⊢
      exact ih (h.push p) hok
    · exact ih (.outside {} h) hok
    · exact ih h.next hok
    · cases h with
      | here outer h =>
        cases outer with
        | nil => simp [assemble] at hok
        | cons f outer =>
          exact ih (.here _ (.current f.finished [] f.current h.alternatives.group)) hok
      | outside _ h =>
        cases h with
        | here _ h => exact ih (.here _ (h.push _)) hok
        | outside _ h => exact ih (.outside _ h) hok
    · rw [hfault] at hok
      cases hok

/-- Tokens lead from frames to frames, or they fail whatever follows them. -/
theorem assemble_append (before : List Token) (outer : List Frame) (frame : Frame) :
    (∃ fault, ∀ ts, assemble outer frame (before ++ ts) = .error fault) ∨
      ∃ outer' frame', ∀ ts, assemble outer frame (before ++ ts) = assemble outer' frame' ts := by
  induction before generalizing outer frame with
  | nil => exact .inr ⟨outer, frame, fun ts => rfl⟩
  | cons t before ih =>
    obtain ⟨p, hp⟩ | rfl | rfl | rfl | ⟨-, -, fault, -, hfault⟩ := token_cases t
    · simpa only [List.cons_append, assemble_piece hp] using ih outer (frame.push p)
    · exact ih (frame :: outer) {}
    · exact ih outer frame.next
    · cases outer with
      | nil => exact .inl ⟨_, fun ts => rfl⟩
      | cons f outer => exact ih outer (f.push (.group frame.alternatives))
    · exact .inl ⟨fault, fun ts => hfault outer frame (before ++ ts)⟩

/-- **One `*` among the tokens made `**`** makes the alternatives wider. -/
theorem assemble_star {before after : List Token} {as : List (List Piece)}
    (h : assemble [] {} (before ++ .run :: after) = .ok as) :
    ∃ bs, assemble [] {} (before ++ .anyRun :: after) = .ok bs ∧ Widened as bs := by
  -- up to the star both are assembled alike; then one piece is another
  obtain ⟨fault, hfault⟩ | ⟨outer, frame, hframes⟩ := assemble_append before [] {}
  · rw [hfault] at h
    cases h
  · rw [hframes] at h ⊢
    have hstar : (frame.push .run).Widened (frame.push .anyRun) :=
      .current frame.finished [] frame.current .star
    have hrest : assemble outer (frame.push .run) after = .ok as := h
    obtain ⟨bs, hbs, hwidened⟩ := assemble_widened (.here outer hstar) hrest
    exact ⟨bs, hbs, hwidened⟩

end Assembly

/-! ## One star more -/

section Stars

variable {n m : Nat} {t : Token} {cs : List Char} {before after : List Token}

/-- Whether one star more in a text makes `**` of the `*` behind certain tokens. -/
def StarDoubles (n : Nat) (cs : List Char) (before after : List Token) : Prop :=
  ∃ u v, cs = u ++ '*' :: v ∧ scan (.outside n) (u ++ '*' :: '*' :: v) = before ++ .anyRun :: after

/-- What starts with a token that is no star doubles a star behind it. -/
theorem StarDoubles.step (pre : List Char) (ht : t ≠ .run)
    (hscan : ∀ ds, scan (.outside n) (pre ++ ds) = t :: scan (.outside m) ds)
    (ih : ∀ before, scan (.outside m) cs = before ++ .run :: after → StarDoubles m cs before after)
    (h : scan (.outside n) (pre ++ cs) = before ++ .run :: after) :
    StarDoubles n (pre ++ cs) before after := by
  rw [hscan] at h
  obtain ⟨-, hrun⟩ | ⟨before, rfl, hrest⟩ := List.cons_eq_append_iff.mp h
  · exact absurd (List.cons.inj hrun).1.symm ht
  · obtain ⟨u, v, rfl, hdoubled⟩ := ih before hrest
    exact ⟨pre ++ u, v, by simp, by rw [List.append_assoc, hscan, hdoubled, List.cons_append]⟩

/-- Every other character is one token, whatever follows it. -/
theorem exists_scan_cons {c : Char} (hc : c ∉ ['\\', '[', '*']) (n : Nat) :
    ∃ t m, t ≠ .run ∧ ∀ ds, scan (.outside n) (c :: ds) = t :: scan (.outside m) ds := by
  by_cases hreserved : c ∈ reserved (decide (0 < n))
  · obtain rfl | rfl | ⟨hc, hn⟩ : c = '?' ∨ c = '\x7b' ∨ (c = '\x7d' ∨ c = ',') ∧ 0 < n := by
      simp only [reserved] at hreserved
      split at hreserved <;> simp_all
    · exact ⟨.one, n, by simp, fun ds => by simp only [scan]⟩
    · exact ⟨.openGroup, n + 1, by simp, fun ds => by simp only [scan]⟩
    · obtain ⟨k, rfl⟩ := Nat.exists_eq_succ_of_ne_zero hn.ne'
      obtain rfl | rfl := hc
      · exact ⟨.closeGroup, k, by simp, fun ds => by simp only [scan]⟩
      · exact ⟨.nextAlternative, k + 1, by simp, fun ds => by simp only [scan]⟩
  · exact ⟨.literal c, n, by simp, fun ds => scan_literal hreserved⟩

/-- A star is `**` with the star right behind it, if there is one, and else it is
the star looked for or one before it. -/
theorem starDoubles_star (ih : ∀ ds : List Char, ds.length < ('*' :: cs).length → ∀ before,
      scan (.outside n) ds = before ++ .run :: after → StarDoubles n ds before after)
    (h : scan (.outside n) ('*' :: cs) = before ++ .run :: after) :
    StarDoubles n ('*' :: cs) before after := by
  by_cases hstar : cs.head? = some '*'
  · obtain ⟨cs, rfl⟩ := List.head?_eq_some_iff.mp hstar
    have hscan : ∀ ds, scan (.outside n) (['*', '*'] ++ ds) = .anyRun :: scan (.outside n) ds :=
      fun ds => by simp [scan]
    exact .step ['*', '*'] (by simp) hscan (ih cs (by simp only [List.length_cons]; omega)) h
  · rw [scan_run hstar] at h
    obtain ⟨rfl, hrest⟩ | ⟨before, rfl, hrest⟩ := List.cons_eq_append_iff.mp h
    · obtain rfl : after = scan (.outside n) cs := (List.cons.inj hrest).2
      exact ⟨[], cs, rfl, by simp [scan]⟩
    · obtain ⟨u, v, rfl, hdoubled⟩ := ih cs (by simp) before hrest
      refine ⟨'*' :: u, v, rfl, ?_⟩
      have hhead : (u ++ '*' :: '*' :: v).head? ≠ some '*' := by
        cases u with
        | nil => simp at hstar
        | cons c u => simpa using hstar
      rw [List.cons_append, scan_run hhead, hdoubled, List.cons_append]

/-- **Every `*` is a star of the text**, and with one star more it is `**`, all
other tokens staying as they are. -/
theorem exists_star (cs : List Char) (n : Nat) (before after : List Token)
    (h : scan (.outside n) cs = before ++ .run :: after) : StarDoubles n cs before after := by
  induction hlength : cs.length using Nat.strong_induction_on generalizing cs n before with
  | _ k ih =>
    subst hlength
    replace ih : ∀ ds : List Char, ds.length < cs.length → ∀ m before,
        scan (.outside m) ds = before ++ .run :: after → StarDoubles m ds before after :=
      fun ds hds m before hm => ih _ hds ds m before hm rfl
    have hmem : .run ∈ scan (.outside n) cs := by simp [h]
    cases cs with
    | nil => simp [scan] at hmem
    | cons c cs =>
      by_cases hc : c ∈ ['\\', '[', '*']
      · simp only [List.mem_cons, List.not_mem_nil, or_false] at hc
        obtain rfl | rfl | rfl := hc
        · cases cs with
          | nil => simp [scan] at hmem
          | cons c cs =>
            have hscan : ∀ ds, scan (.outside n) (['\\', c] ++ ds)
                = .literal c :: scan (.outside n) ds := fun ds => by simp [scan]
            have hlength : cs.length < ('\\' :: c :: cs).length := by
              simp only [List.length_cons]
              omega
            exact .step ['\\', c] (by simp) hscan (ih cs hlength n) h
        · obtain ⟨text, negated, items, rest, hbody, rfl⟩ | hopen := exists_class_or_open cs
          · have hscan : ∀ ds, scan (.outside n) ('[' :: text ++ [']'] ++ ds)
                = .set negated items true :: scan (.outside n) ds := fun ds => by
              simpa using hbody.scan_eq n ds
            have hlength : rest.length < ('[' :: (text ++ ']' :: rest)).length := by
              simp only [List.length_cons, List.length_append]
              omega
            have hstep : StarDoubles n ('[' :: text ++ [']'] ++ rest) before after :=
              .step _ (by simp) hscan (ih rest hlength n) (by simpa using h)
            simpa using hstep
          · obtain ⟨negated, items, hscan⟩ := hopen n
            simp [hscan] at hmem
        · exact starDoubles_star (fun ds hds => ih ds hds n) h
      · obtain ⟨t, m, ht, hscan⟩ := exists_scan_cons hc n
        exact .step [c] ht hscan (ih cs (by simp) m) h

end Stars

/-! ## The wider pattern -/

variable {separator : Char}

/-- **A pattern that is assembled into wider alternatives compiles** as well, or
the engine finds it too large. -/
theorem Widened.compiles {as bs : List (List Piece)} {wider : String} (h : Widened as bs)
    (hdepth : WithinDepth as) (hassemble : assemble [] {} (tokens wider) = .ok bs)
    (engine : Engine) (separator : Char) :
    compile engine wider separator =
      if engine.Takes wider separator then .ok ⟨wider, separator, bs⟩
      else .error { pattern := wider, fault := .tooLarge } := by
  have hwithin : WithinDepth bs := (Nat.add_le_add_right h.depth_le 2).trans hdepth
  rw [compile_of_assemble hassemble, if_pos hwithin]

/-- **`**` is no narrower than `*`.** For every `*` of a pattern that compiles
there is a star of its text that, doubled, makes this token `**` and leaves the
others as they are. The pattern then compiles as well, unless the engine finds
it too large, and matches every name without a line feed that it matched
before. -/
theorem isMatch_widened {engine : Engine} {pattern : String} {g : Glob}
    {before after : List Token} (h : compile engine pattern separator = .ok g)
    (htokens : tokens pattern = before ++ .run :: after) :
    ∃ (u v : List Char) (wider : String), pattern.toList = u ++ '*' :: v ∧
      wider.toList = u ++ '*' :: '*' :: v ∧ tokens wider = before ++ .anyRun :: after ∧
      (engine.Takes wider separator → ∃ wide, compile engine wider separator = .ok wide ∧
        ∀ name : String, '\n' ∉ name.toList →
          g.isMatch name = true → wide.isMatch name = true) ∧
      (¬ engine.Takes wider separator →
        compile engine wider separator = .error { pattern := wider, fault := .tooLarge }) := by
  obtain ⟨hassemble, hdepth, -, rfl, rfl⟩ := compile_eq_ok_iff.mp h
  obtain ⟨u, v, hpattern, hdoubled⟩ := exists_star _ 0 before after htokens
  have hwide : tokens (String.ofList (u ++ '*' :: '*' :: v)) = before ++ .anyRun :: after := by
    rw [tokens, String.toList_ofList, hdoubled]
  obtain ⟨bs, hbs, hwidened⟩ := assemble_star (htokens ▸ hassemble)
  have hcompile := hwidened.compiles hdepth (hwide ▸ hbs) engine g.separator
  refine ⟨u, v, _, hpattern, String.toList_ofList, hwide, fun htakes => ?_,
    fun htakes => by rw [hcompile, if_neg htakes]⟩
  refine ⟨_, by rw [hcompile, if_pos htakes], fun name hline hmatch => ?_⟩
  rw [isMatch_iff] at hmatch ⊢
  exact hwidened.language_below g.separator _ hmatch hline

/-- A group with a star and an escaped star, and a class of one. -/
def starSample : List (List Piece) :=
  [[.group [[.literal 'a', .run], [.literal '*']],
    .set { negated := false, listed := [.single '*'], removed := [] }]]

theorem isMatch_widened_group :
    ∃ g, compile .byLength "\x7ba*,\\*\x7d[*]" '.' = .ok g ∧
      tokens "\x7ba*,\\*\x7d[*]" = [.openGroup, .literal 'a'] ++
        .run :: [.nextAlternative, .literal '*', .closeGroup, .set false [.char '*'] true] ∧
      g.isMatch "ab*" = true ∧
      ∃ (u v : List Char) (wider : String) (wide : Glob),
        "\x7ba*,\\*\x7d[*]".toList = u ++ '*' :: v ∧ wider.toList = u ++ '*' :: '*' :: v ∧
        compile .byLength wider '.' = .ok wide ∧ wide.isMatch "ab*" = true := by
  have hcompile : compile .byLength "\x7ba*,\\*\x7d[*]" '.' = .ok ⟨_, '.', starSample⟩ :=
    compile_eq_ok_iff.mpr ⟨rfl, by decide +kernel, by decide +kernel, rfl, rfl⟩
  have htokens : tokens "\x7ba*,\\*\x7d[*]" = [.openGroup, .literal 'a'] ++
      .run :: [.nextAlternative, .literal '*', .closeGroup, .set false [.char '*'] true] := by
    decide +kernel
  have hmatch : Glob.isMatch ⟨"\x7ba*,\\*\x7d[*]", '.', starSample⟩ "ab*" = true := by
    decide +kernel
  obtain ⟨u, v, wider, hpattern, hdoubled, hwide, hwider, -⟩ := isMatch_widened hcompile htokens
  have htakes : Engine.byLength.Takes wider '.' := by
    rw [Engine.Takes, regexText, hwide]
    decide +kernel
  obtain ⟨wide, hok, hall⟩ := hwider htakes
  exact ⟨_, hcompile, htokens, hmatch, u, v, wider, wide, hpattern, hdoubled, hok,
    hall "ab*" (by decide) hmatch⟩

/-- **A line feed is matched by `*` and not by `**`.** -/
theorem widened_misses_lineFeed :
    tokens "*" = [.run] ∧ tokens "**" = [.anyRun] ∧
      (∃ g, compile .byLength "*" '.' = .ok g ∧ g.isMatch "a\nb" = true) ∧
      ∃ g, compile .byLength "**" '.' = .ok g ∧ g.isMatch "a\nb" = false := by
  have hstar : compile .byLength "*" '.' = .ok ⟨"*", '.', [[.run]]⟩ :=
    compile_eq_ok_iff.mpr ⟨rfl, by decide, by decide +kernel, rfl, rfl⟩
  have hstars : compile .byLength "**" '.' = .ok ⟨"**", '.', [[.anyRun]]⟩ :=
    compile_eq_ok_iff.mpr ⟨rfl, by decide, by decide +kernel, rfl, rfl⟩
  exact ⟨rfl, rfl, ⟨_, hstar, by decide +kernel⟩, _, hstars, by decide +kernel⟩

end Glob

end ExportSurface
