import ExportSurface.Proofs.ClassReading
import ExportSurface.Proofs.GlobAssembly
import ExportSurface.Proofs.GlobSyntax
/-!
# Globs — reading a glob back from its regular expression

What `Glob.regexText` writes is read back as the pieces of the glob, and cannot
be read if the glob cannot be assembled (`readRegex_regexText`): a class or a
group that is missing something is never completed by what is written behind
it. The expression is found in the names that the glob matches and no others
(`finds_wholeRegex`).
-/

namespace ExportSurface

namespace Glob

/-! ## The expression of a glob -/

mutual

/-- A piece as an expression. -/
def Piece.regex (separator : Char) : Piece → Regex
  | .literal c => .one (· == c)
  | .run => .star (.one (· != separator))
  | .anyRun => .star (.one (· != '\n'))
  | .one => .one (· != separator)
  | .set k => .one fun c => k.contains c && c != separator
  | .group alternatives => .group (alternativesRegex separator alternatives)

/-- A sequence of pieces as one of expressions. -/
def piecesRegex (separator : Char) : List Piece → List Regex
  | [] => []
  | p :: ps => p.regex separator :: piecesRegex separator ps

/-- Alternatives as choices. -/
def alternativesRegex (separator : Char) : List (List Piece) → List (List Regex)
  | [] => []
  | ps :: more => piecesRegex separator ps :: alternativesRegex separator more

end

/-- The expression of a glob: its alternatives over a whole text. -/
def wholeRegex (separator : Char) (alternatives : List (List Piece)) : List (List Regex) :=
  [[.start, .group (alternativesRegex separator alternatives), .finish]]

/-- The choices of a group being read back. -/
def Frame.choices (separator : Char) (f : Frame) : Choices where
  finished := alternativesRegex separator f.finished
  current := piecesRegex separator f.current

variable {separator : Char} {frame : Frame} {outer : List Frame} {ts : List Token}

theorem piecesRegex_eq_map (separator : Char) (ps : List Piece) :
    piecesRegex separator ps = ps.map (Piece.regex separator) := by
  induction ps with
  | nil => rfl
  | cons p ps ih => simp [piecesRegex, ih]

theorem alternativesRegex_eq_map (separator : Char) (as : List (List Piece)) :
    alternativesRegex separator as = as.map (piecesRegex separator) := by
  induction as with
  | nil => rfl
  | cons ps as ih => simp [alternativesRegex, ih]

theorem Frame.choices_next : frame.next.choices separator = (frame.choices separator).next := by
  simp [Frame.choices, Frame.next, Choices.next, piecesRegex_eq_map, alternativesRegex_eq_map]

theorem Frame.all_choices :
    (frame.choices separator).all = alternativesRegex separator frame.alternatives := by
  simp [Frame.choices, Frame.alternatives, Choices.all, piecesRegex_eq_map,
    alternativesRegex_eq_map]

/-! ## Tokens in order -/

/-- Whether no brace closes more groups than are open, so many of them around,
and nothing follows a class that was left open. -/
def Orderly : Nat → List Token → Prop
  | _, [] => True
  | n, .openGroup :: ts => Orderly (n + 1) ts
  | 0, .closeGroup :: _ => False
  | n + 1, .closeGroup :: ts => Orderly n ts
  | _, .set _ _ false :: ts => ts = []
  | n, _ :: ts => Orderly n ts

/-- Tokens behind the first one are in order if all are. -/
theorem Orderly.tail {n : Nat} {t : Token} (h : Orderly n (t :: ts)) : ∃ m, Orderly m ts := by
  cases t with
  | literal _ | run | anyRun | one | nextAlternative => exact ⟨n, h⟩
  | openGroup => exact ⟨n + 1, h⟩
  | closeGroup =>
    cases n with
    | zero => exact h.elim
    | succ n => exact ⟨n, h⟩
  | set negated items closed =>
    cases closed with
    | true => exact ⟨n, h⟩
    | false =>
      obtain rfl : ts = [] := h
      exact ⟨0, trivial⟩

/-- A token that adds a piece opens and closes no group. -/
theorem Orderly.of_piece {n : Nat} {t : Token} {p : Piece} (h : Orderly n (t :: ts))
    (hp : t.piece? = some p) : Orderly n ts := by
  cases t with
  | literal _ | run | anyRun | one => exact h
  | openGroup | nextAlternative | closeGroup => cases hp
  | set negated items closed =>
    cases closed with
    | false => cases hp
    | true => exact h

/-- The groups that are open at a place. -/
def Place.groups : Place → Nat
  | .outside n => n
  | .inside n _ _ => n

/-- **The tokens of a text are in order.** -/
theorem orderly_scan (place : Place) (cs : List Char) : Orderly place.groups (scan place cs) := by
  fun_induction scan place cs
  all_goals simp_all [Orderly, Place.groups]

/-! ## Symbols of tokens -/

/-- The symbols of tokens and of the end of an expression. -/
def endingSymbols (separator : Char) (ts : List Token) : List Symbol :=
  ts.flatMap (Token.symbols separator) ++ [.plain ')', .plain '$']

theorem endingSymbols_cons (separator : Char) (t : Token) (ts : List Token) :
    endingSymbols separator (t :: ts) = t.symbols separator ++ endingSymbols separator ts := by
  simp [endingSymbols]

theorem hyphen_ne_head?_ending (separator : Char) (ts : List Token) :
    (endingSymbols separator ts).head? ≠ some (.plain '-') := by
  cases ts with
  | nil => simp [endingSymbols]
  | cons t ts =>
    cases t with
    | literal c => simpa [endingSymbols, Token.symbols] using symbolOf_ne (by decide) c
    | run | anyRun | one | openGroup | nextAlternative | closeGroup | set _ _ _ =>
      simp [endingSymbols, Token.symbols, notSeparatorSymbols]

namespace Reading

variable {r r' : Reading} {b : Bracket} {s : Symbol} {ss rest : List Symbol} {t : Token}
variable {negated closed : Bool} {items : List ClassItem} {k : CharClass} {p : Piece}

/-! ## Classes among the tokens -/

/-- The outer one of the two brackets that a class begins with. -/
theorem read_outerBracket (r : Reading) (ss : List Symbol) :
    r.read (.plain '[' :: .plain '[' :: ss) = (r.within {}).read (.plain '[' :: ss) :=
  read_open rfl

theorem read_set (r : Reading) (separator : Char) (negated : Bool) (items : List ClassItem)
    (rest : List Symbol) :
    r.read ((Token.set negated items true).symbols separator ++ rest)
      = (r.within {}).read (.plain '[' :: (classSymbols negated items ++
          .plain ']' :: (closingSymbols separator ++ rest))) := by
  have hsymbols : (Token.set negated items true).symbols separator ++ rest
      = .plain '[' :: .plain '[' :: (classSymbols negated items ++
          .plain ']' :: (closingSymbols separator ++ rest)) := by
    simp [Token.symbols]
  rw [hsymbols, read_outerBracket]

/-- **A class is read** as the characters it matches. -/
theorem read_set_ok (h : CharClass.ofItems negated items = .ok k) (r : Reading) (separator : Char)
    (rest : List Symbol) :
    r.read ((Token.set negated items true).symbols separator ++ rest)
      = (r.accept fun c => k.contains c && c != separator).read rest := by
  rw [read_set, read_class_ok h, read_closing, test_closing]

theorem read_set_inverted (h : CharClass.ofItems negated items = .error .invertedRange)
    (r : Reading) (separator : Char) (rest : List Symbol) :
    ∃ fault, r.read ((Token.set negated items true).symbols separator ++ rest) = .error fault := by
  rw [read_set]
  exact read_class_inverted h (r) {} _

theorem eq_nil_of_ofItems (h : CharClass.ofItems negated items = .error .empty) : items = [] := by
  cases items with
  | nil => rfl
  | cons item items =>
    simp only [CharClass.ofItems] at h
    split at h
    · cases h
    · split at h <;> cases h

/-- A class that lists nothing leaves a bracket open. -/
theorem read_set_empty (r : Reading) (separator : Char) (negated : Bool) (rest : List Symbol) :
    ∃ b, r.read ((Token.set negated [] true).symbols separator ++ rest)
      = (r.within b).read rest := by
  rw [read_set, read_class_empty]
  exact ⟨_, read_closing _ _ separator rest⟩

/-! ## Brackets that stay open -/

/-- Only a closing bracket closes one. -/
theorem exists_within_of_step (hs : s ≠ .plain ']')
    (h : (r.within b).step s ss = .ok (r', rest)) : ∃ r₀ b', r' = Reading.within r₀ b' := by
  rw [step, within] at h
  dsimp only at h
  unfold inside at h
  split at h
  · split at h
    · cases h
      exact ⟨r, _, rfl⟩
    · cases h
      exact ⟨r.within b, _, rfl⟩
  · exact absurd rfl hs
  · cases h
    exact ⟨r, _, rfl⟩
  · cases h
    exact ⟨r, _, rfl⟩
  · cases h
    exact ⟨r, _, rfl⟩
  · split_ifs at h
    · cases h
      exact ⟨r, _, rfl⟩
    · cases h
      exact ⟨r, _, rfl⟩
  · cases h
    exact ⟨r, _, rfl⟩

/-- **Without a closing bracket** no open one is closed. -/
theorem read_within_error (ss : List Symbol) (r : Reading) (b : Bracket)
    (hclose : .plain ']' ∉ ss) : ∃ fault, (r.within b).read ss = .error fault := by
  -- A step may leave any end of the symbols, so the induction is on their number.
  induction hlength : ss.length using Nat.strong_induction_on generalizing ss r b with
  | _ n ih =>
    subst hlength
    cases ss with
    | nil => exact ⟨.openClass, read_nil _⟩
    | cons s ss =>
      obtain ⟨hs, hss⟩ := List.ne_and_not_mem_of_not_mem_cons hclose
      cases hstep : (r.within b).step s ss with
      | error fault => exact ⟨fault, read_of_step_error hstep⟩
      | ok next =>
        obtain ⟨r', rest⟩ := next
        obtain ⟨r₀, b', rfl⟩ := exists_within_of_step hs.symm hstep
        have hsuffix := step_suffix hstep
        rw [read_of_step hstep]
        exact ih rest.length (Nat.lt_succ_of_le hsuffix.length_le) rest r₀ b'
          (fun hmem => hss (hsuffix.subset hmem)) rfl

/-- A class that was left open stays open. -/
theorem read_set_open (r : Reading) (separator : Char) (negated : Bool) (items : List ClassItem) :
    ∃ fault, r.read ((Token.set negated items false).symbols separator ++
      endingSymbols separator []) = .error fault := by
  have hitems := close_notMem_items items
  have hsymbols : (Token.set negated items false).symbols separator ++ endingSymbols separator []
      = .plain '[' :: .plain '[' :: (classSymbols negated items ++ [.plain ')', .plain '$']) := by
    simp [Token.symbols, endingSymbols]
  rw [hsymbols, read_outerBracket]
  refine read_within_error _ r _ ?_
  cases negated <;> simpa [classSymbols] using hitems

/-- A character that is no bracket and no operator is listed as it is. -/
theorem read_plain {d : Char} (hd : d ∉ ['[', ']', '&', '-', '~'])
    (h : ss.head? ≠ some (.plain '-')) :
    (r.within b).read (.plain d :: ss) = (r.within (b.list (· == d))).read ss := by
  have hbrackets : ['[', ']'] ⊆ ['[', ']', '&', '-', '~'] := by decide
  have hoperators : ['&', '-', '~'] ⊆ ['[', ']', '&', '-', '~'] := by decide
  refine read_of_step ?_
  rw [step, within]
  refine inside_eq (fun e he heq => ?_) (fun e he heq => ?_) h
  · cases heq
    exact hd (hbrackets he)
  · cases heq
    exact absurd (hoperators he) hd

/-- **What a bracket that is open makes of a token**: it cannot be read, or a
bracket is open behind it. -/
theorem read_token_within {n : Nat} (horderly : Orderly n (t :: ts)) (r : Reading) (b : Bracket)
    (separator : Char) :
    (∃ fault, (r.within b).read (endingSymbols separator (t :: ts)) = .error fault) ∨
      ∃ r' b', (r.within b).read (endingSymbols separator (t :: ts))
        = (Reading.within r' b').read (endingSymbols separator ts) := by
  have hhead := hyphen_ne_head?_ending separator ts
  rw [endingSymbols_cons]
  cases t with
  | literal c => exact .inr ⟨r, _, read_symbolOf c hhead⟩
  | run =>
    refine .inr ⟨r, (b.list (· != separator)).list (· == '*'), ?_⟩
    rw [Token.symbols, List.append_assoc, read_notSeparator, accept_within]
    exact read_plain (by decide) hhead
  | anyRun =>
    exact .inr ⟨r, _, (read_plain (by decide) (by simp)).trans (read_plain (by decide) hhead)⟩
  | one => exact .inr ⟨r, _, read_notSeparator _ separator _⟩
  | openGroup =>
    exact .inr ⟨r, _, (read_plain (by decide) (by simp)).trans <|
      (read_plain (by decide) (by simp)).trans (read_plain (by decide) hhead)⟩
  | nextAlternative | closeGroup => exact .inr ⟨r, _, read_plain (by decide) hhead⟩
  | set negated items closed =>
    cases closed with
    | false =>
      obtain rfl : ts = [] := horderly
      exact .inl (read_set_open _ separator negated items)
    | true =>
      cases hk : CharClass.ofItems negated items with
      | ok k => exact .inr ⟨r, _, read_set_ok hk _ separator _⟩
      | error fault =>
        cases fault with
        | invertedRange => exact .inl (read_set_inverted hk _ separator _)
        | empty =>
          obtain rfl := eq_nil_of_ofItems hk
          obtain ⟨b', hread⟩ := read_set_empty (r.within b) separator negated
            (endingSymbols separator ts)
          exact .inr ⟨_, b', hread⟩

/-- **A bracket that is open between tokens stays open**, whichever they are: the
brackets that tokens open are closed by them, or not at all. -/
theorem read_ending_within {n : Nat} (horderly : Orderly n ts) (r : Reading) (b : Bracket)
    (separator : Char) :
    ∃ fault, (r.within b).read (endingSymbols separator ts) = .error fault := by
  induction ts generalizing n r b with
  | nil => exact read_within_error _ r b (by simp [endingSymbols])
  | cons t ts ih =>
    obtain hfault | ⟨r', b', hread⟩ := read_token_within horderly r b separator
    · exact hfault
    · obtain ⟨m, htail⟩ := horderly.tail
      rw [hread]
      exact ih htail r' b'

/-! ## Tokens outside brackets -/

/-- What has been read of an expression when its tokens are assembled so far. -/
def ofFrames (separator : Char) (outer : List Frame) (frame : Frame) : Reading where
  outer := outer.map (Frame.choices separator) ++ [{ current := [.start] }]
  choices := frame.choices separator

variable {choices : Choices} {around : List Choices}

theorem read_star (e : Regex) :
    ({ outer := around, choices := choices.push e } : Reading).read (.plain '*' :: ss)
      = ({ outer := around, choices := choices.push (.star e) } : Reading).read ss :=
  read_of_step rfl

theorem read_dot :
    ({ outer := around, choices } : Reading).read (.plain '.' :: ss)
      = ({ outer := around, choices := choices.push (.one (· != '\n')) } : Reading).read ss :=
  read_of_step rfl

theorem read_closeGroup (before : Choices) :
    ({ outer := before :: around, choices } : Reading).read (.plain ')' :: ss)
      = ({ outer := around, choices := before.push (.group choices.all) } : Reading).read ss :=
  read_of_step rfl

theorem read_end :
    ({ outer := around, choices } : Reading).read [.plain '$']
      = ({ outer := around, choices := choices.push .finish } : Reading).result := by
  rw [← read_nil]
  exact read_of_step rfl

/-- A token that adds a piece is read as that piece. -/
theorem ofFrames_piece (h : t.piece? = some p) (separator : Char) (outer : List Frame)
    (frame : Frame) (ts : List Token) :
    (ofFrames separator outer frame).read (endingSymbols separator (t :: ts))
      = (ofFrames separator outer (frame.push p)).read (endingSymbols separator ts) := by
  have hhead := hyphen_ne_head?_ending separator ts
  rw [endingSymbols_cons]
  cases t with
  | literal c =>
    cases h
    exact read_symbolOf c hhead
  | run =>
    cases h
    rw [Token.symbols, List.append_assoc, read_notSeparator]
    exact read_star _
  | anyRun =>
    cases h
    exact read_dot.trans (read_star _)
  | one =>
    cases h
    exact read_notSeparator _ separator _
  | openGroup | nextAlternative | closeGroup => cases h
  | set negated items closed =>
    cases closed with
    | false => cases h
    | true =>
      cases hk : CharClass.ofItems negated items with
      | ok k =>
        obtain rfl : Piece.set k = p := by
          simpa [Token.piece?, classPiece, hk, Except.toOption] using h
        exact read_set_ok hk _ separator _
      | error fault => cases fault <;> simp [Token.piece?, classPiece, hk, Except.toOption] at h

theorem ofFrames_openGroup (separator : Char) (outer : List Frame) (frame : Frame)
    (ts : List Token) :
    (ofFrames separator outer frame).read (endingSymbols separator (.openGroup :: ts))
      = (ofFrames separator (frame :: outer) {}).read (endingSymbols separator ts) :=
  (congrArg _ (endingSymbols_cons separator .openGroup ts)).trans (read_of_step rfl)

theorem ofFrames_nextAlternative (separator : Char) (outer : List Frame) (frame : Frame)
    (ts : List Token) :
    (ofFrames separator outer frame).read (endingSymbols separator (.nextAlternative :: ts))
      = (ofFrames separator outer frame.next).read (endingSymbols separator ts) := by
  rw [endingSymbols_cons, ofFrames, ofFrames, Frame.choices_next]
  exact read_of_step rfl

theorem ofFrames_closeGroup (separator : Char) (f : Frame) (outer : List Frame) (frame : Frame)
    (ts : List Token) :
    (ofFrames separator (f :: outer) frame).read (endingSymbols separator (.closeGroup :: ts))
      = (ofFrames separator outer (f.push (.group frame.alternatives))).read
          (endingSymbols separator ts) := by
  have hpush : (f.push (.group frame.alternatives)).choices separator
      = (f.choices separator).push (.group (frame.choices separator).all) := by
    rw [Frame.all_choices]
    rfl
  rw [endingSymbols_cons, ofFrames, ofFrames, hpush]
  exact read_closeGroup _

/-- A class that adds no piece makes the expression one that cannot be read. -/
theorem ofFrames_set {n : Nat} (h : (Token.set negated items closed).piece? = none)
    (horderly : Orderly n (.set negated items closed :: ts)) (separator : Char) (outer : List Frame)
    (frame : Frame) :
    ∃ fault, (ofFrames separator outer frame).read
      (endingSymbols separator (.set negated items closed :: ts)) = .error fault := by
  rw [endingSymbols_cons]
  cases closed with
  | false =>
    obtain rfl : ts = [] := horderly
    exact read_set_open _ separator negated items
  | true =>
    cases hk : CharClass.ofItems negated items with
    | ok k => simp [Token.piece?, classPiece, hk, Except.toOption] at h
    | error fault =>
      cases fault with
      | invertedRange => exact read_set_inverted hk _ separator _
      | empty =>
        obtain rfl := eq_nil_of_ofItems hk
        obtain ⟨b, hread⟩ := read_set_empty (ofFrames separator outer frame) separator negated
          (endingSymbols separator ts)
        obtain ⟨m, htail⟩ := horderly.tail
        rw [hread]
        exact read_ending_within htail _ b separator

/-- The end of an expression completes it just if no group is open. -/
theorem ofFrames_nil (separator : Char) (frame : Frame) :
    (ofFrames separator [] frame).read (endingSymbols separator [])
      = .ok (wholeRegex separator frame.alternatives) := by
  rw [ofFrames, endingSymbols, List.map_nil, List.flatMap_nil, List.nil_append, List.nil_append,
    read_closeGroup, read_end, Frame.all_choices]
  rfl

theorem ofFrames_open_nil (separator : Char) (f : Frame) (outer : List Frame) (frame : Frame) :
    (ofFrames separator (f :: outer) frame).read (endingSymbols separator [])
      = .error .openGroup := by
  rw [ofFrames, endingSymbols, List.map_cons, List.flatMap_nil, List.nil_append, List.cons_append,
    read_closeGroup, read_end]
  cases outer <;> rfl

/-- **The symbols of tokens are read as what is assembled from them**, or not at
all if nothing is. -/
theorem read_ending (horderly : Orderly outer.length ts) (separator : Char) :
    (∀ alternatives, assemble outer frame ts = .ok alternatives →
      (ofFrames separator outer frame).read (endingSymbols separator ts)
        = .ok (wholeRegex separator alternatives)) ∧
    ((∃ fault, assemble outer frame ts = .error fault) → ∃ fault,
      (ofFrames separator outer frame).read (endingSymbols separator ts) = .error fault) := by
  -- The tokens are read and assembled side by side, and `ofFrames` relates the two.
  induction ts generalizing outer frame with
  | nil =>
    cases outer with
    | nil => simp [assemble, ofFrames_nil]
    | cons f outer => simp [assemble, ofFrames_open_nil]
  | cons t ts ih =>
    obtain ⟨p, hp⟩ | rfl | rfl | rfl | ⟨hp, ⟨negated, items, closed, rfl⟩, fault, -, hfault⟩ :=
      token_cases t
    · rw [assemble_piece hp, ofFrames_piece hp]
      exact ih (horderly.of_piece hp)
    · have hnext : Orderly (frame :: outer).length ts := horderly
      rw [ofFrames_openGroup]
      exact ih hnext
    · have hnext : Orderly outer.length ts := horderly
      rw [ofFrames_nextAlternative]
      exact ih hnext
    · cases outer with
      | nil => exact horderly.elim
      | cons f outer =>
        have hnext : Orderly outer.length ts := horderly
        rw [ofFrames_closeGroup]
        exact ih hnext
    · refine ⟨fun _ hok => by simp [hfault] at hok, fun _ => ?_⟩
      exact ofFrames_set hp horderly separator outer frame

end Reading

/-! ## Whole expressions -/

theorem known_symbolOf (c : Char) : (symbolOf c).Known := by
  by_cases hc : c ∈ metacharacters
  · rw [symbolOf, if_pos hc]
    exact hc
  · rw [symbolOf, if_neg hc]
    rintro rfl
    exact hc (by decide)

theorem known_plain {c : Char} : (Symbol.plain c).Known ↔ c ≠ '\\' := Iff.rfl

/-- **Tokens have known symbols only**, whichever characters they are made of. -/
theorem known_symbols (separator : Char) (t : Token) : ∀ s ∈ t.symbols separator, s.Known := by
  have hitem (item : ClassItem) : item.symbol.Known := by
    cases item with
    | char c => exact known_symbolOf c
    | hyphen => decide
  have hnotSeparator : ∀ s ∈ notSeparatorSymbols separator, s.Known := by
    simp [notSeparatorSymbols, known_symbolOf, known_plain]
  cases t with
  | literal c => simp [Token.symbols, known_symbolOf]
  | run | one => simpa [Token.symbols, or_imp, forall_and, known_plain] using hnotSeparator
  | anyRun | openGroup | nextAlternative | closeGroup => simp [Token.symbols, known_plain]
  | set negated items closed =>
    cases closed with
    | false => simp [Token.symbols, classSymbols, or_imp, forall_and, known_plain, hitem]
    | true =>
      simpa [Token.symbols, classSymbols, closingSymbols, or_imp, forall_and, known_plain, hitem]
        using hnotSeparator

/-- **The regular expression of a pattern is read as what is assembled from its
tokens**, and cannot be read just if they cannot be assembled. -/
theorem readRegex_regexText (pattern : String) (separator : Char) :
    (∀ alternatives, assemble [] {} (tokens pattern) = .ok alternatives →
      readRegex (regexText pattern separator) = .ok (wholeRegex separator alternatives)) ∧
    ((∃ fault, assemble [] {} (tokens pattern) = .error fault) → ∃ fault,
      readRegex (regexText pattern separator) = .error fault) := by
  have hread : readRegex (regexText pattern separator)
      = (Reading.ofFrames separator [] {}).read (endingSymbols separator (tokens pattern)) := by
    have hknown : ∀ s ∈ symbols (regexText pattern separator).toList, s.Known := by
      have htokens : ∀ s t, t ∈ tokens pattern → s ∈ t.symbols separator → s.Known :=
        fun s t _ hs => known_symbols separator t s hs
      simpa [symbols_regexText, or_imp, forall_and, known_plain] using htokens
    simp only [readRegex]
    rw [if_pos hknown, symbols_regexText]
    exact (Reading.read_of_step rfl).trans (Reading.read_of_step rfl)
  have horderly : Orderly 0 (tokens pattern) := orderly_scan (.outside 0) pattern.toList
  rw [hread]
  exact @Reading.read_ending {} [] (tokens pattern) horderly separator

/-! ## Finding -/

theorem repeats_one (test : Char → Bool) (before part after : List Char) :
    Repeats (Regex.one test).Spans before part after ↔ part ∈ runOf test := by
  rw [mem_runOf]
  constructor
  · intro h
    induction h with
    | nil => simp
    | cons head _ ih =>
      obtain ⟨c, rfl, hc⟩ := head
      simpa [hc] using ih
  · intro h
    induction part generalizing before with
    | nil => exact .nil
    | cons c part ih =>
      obtain ⟨hc, hpart⟩ := List.forall_mem_cons.mp h
      exact .cons (u := [c]) ⟨c, rfl, hc⟩ (ih _ hpart)

mutual

/-- A piece spans what it matches. -/
theorem Piece.spans_regex (separator : Char) : ∀ (p : Piece) (before part after : List Char),
    (p.regex separator).Spans before part after ↔ part ∈ p.language separator
  | .literal _, _, _, _ => Iff.rfl
  | .run, before, part, after => repeats_one _ before part after
  | .anyRun, before, part, after => repeats_one _ before part after
  | .one, _, _, _ => Iff.rfl
  | .set _, _, _, _ => Iff.rfl
  | .group alternatives, before, part, after =>
    choicesSpan_alternativesRegex separator alternatives before part after

/-- So does a sequence of pieces. -/
theorem sequenceSpans_piecesRegex (separator : Char) :
    ∀ (ps : List Piece) (before part after : List Char),
      SequenceSpans (piecesRegex separator ps) before part after ↔
        part ∈ piecesLanguage separator ps
  | [], _, _, _ => Iff.rfl
  | p :: ps, before, part, after => by
    simp only [piecesRegex, SequenceSpans, piecesLanguage, Language.mem_mul,
      p.spans_regex separator, sequenceSpans_piecesRegex separator ps]
    constructor
    · rintro ⟨u, v, rfl, hu, hv⟩
      exact ⟨u, hu, v, hv, rfl⟩
    · rintro ⟨u, hu, v, hv, rfl⟩
      exact ⟨u, v, rfl, hu, hv⟩

/-- So do alternatives. -/
theorem choicesSpan_alternativesRegex (separator : Char) :
    ∀ (as : List (List Piece)) (before part after : List Char),
      ChoicesSpan (alternativesRegex separator as) before part after ↔
        part ∈ alternativesLanguage separator as
  | [], _, _, _ => Iff.rfl
  | ps :: as, before, part, after => by
    simp only [alternativesRegex, ChoicesSpan, alternativesLanguage, Language.mem_add,
      sequenceSpans_piecesRegex separator ps, choicesSpan_alternativesRegex separator as]

end

/-- **The expression of a glob is found** in the names that the glob matches. -/
theorem finds_wholeRegex (g : Glob) (name : String) :
    Finds (wholeRegex g.separator g.alternatives) name.toList ↔ g.isMatch name = true := by
  rw [isMatch_iff, ← choicesSpan_alternativesRegex g.separator g.alternatives [] name.toList []]
  simp only [Finds, wholeRegex, ChoicesSpan, SequenceSpans, Regex.Spans, or_false]
  constructor
  · rintro ⟨before, part, after, hname, u, v, rfl, ⟨rfl, rfl⟩, w, x, rfl, hspan, y, z, rfl,
      ⟨rfl, hafter⟩, rfl⟩
    -- The anchors leave nothing before and behind what the group spans.
    obtain ⟨-, rfl⟩ := List.append_eq_nil_iff.mp hafter
    simpa [hname] using hspan
  · intro h
    exact ⟨[], name.toList, [], by simp, [], name.toList, rfl, ⟨rfl, rfl⟩, name.toList, [], by simp,
      h, [], [], rfl, ⟨rfl, rfl⟩, rfl⟩

/-- **The expression of a pattern that can be assembled can be read**, and is
found in the names that its glob matches. -/
theorem exists_readRegex_of_assemble {pattern : String} {alternatives : List (List Piece)}
    (h : assemble [] {} (tokens pattern) = .ok alternatives) (separator : Char) :
    ∃ e, readRegex (regexText pattern separator) = .ok e ∧ ∀ name : String,
      Finds e name.toList ↔ Glob.isMatch { pattern, separator, alternatives } name = true :=
  ⟨_, (readRegex_regexText pattern separator).1 _ h, finds_wholeRegex ⟨pattern, separator, _⟩⟩

/-- **The expression of a glob that compiles can be read**, and is found in the
names that the glob matches. -/
theorem exists_readRegex_of_compile {engine : Engine} {pattern : String} {g : Glob}
    (h : compile engine pattern separator = .ok g) :
    ∃ e, readRegex (regexText pattern separator) = .ok e ∧
      ∀ name : String, Finds e name.toList ↔ g.isMatch name = true := by
  obtain ⟨hassemble, -, -, rfl, rfl⟩ := compile_eq_ok_iff.mp h
  exact exists_readRegex_of_assemble hassemble g.separator

/-- It can be read just if the tokens can be assembled. -/
theorem readRegex_isOk_iff (pattern : String) (separator : Char) :
    (∃ e, readRegex (regexText pattern separator) = .ok e) ↔
      ∃ alternatives, assemble [] {} (tokens pattern) = .ok alternatives := by
  obtain ⟨hok, herror⟩ := readRegex_regexText pattern separator
  cases hassemble : assemble [] {} (tokens pattern) with
  | ok alternatives => exact ⟨fun _ => ⟨_, rfl⟩, fun _ => ⟨_, hok alternatives hassemble⟩⟩
  | error fault =>
    obtain ⟨fault', hfault⟩ := herror ⟨fault, hassemble⟩
    simp [hfault]

end Glob

end ExportSurface
