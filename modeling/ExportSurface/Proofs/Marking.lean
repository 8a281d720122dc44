import ExportSurface.Pass
import Mathlib.Data.List.Nodup
/-!
# Marking declarations at their paths

What it is to mark several declarations at once is said without paths that are
followed one after another: `SourceModule.appendMarkers` goes over the module
once and appends the marker at the chosen places. Every path that the walk
lists leads to the declaration it is listed with (`SourceModule.find?_of_mem_walk`)
and no two are the same (`SourceModule.nodup_walk`), and marking such paths in
turn never fails and comes to the same as marking them at once
(`Pass.markAll_eq`). Afterwards every path leads to what it led to, with the
markers appended (`SourceModule.find?_appendMarkers`).
-/

namespace ExportSurface

/-! ## Following paths -/

namespace Declaration

variable {d d' : Declaration} {ds : List Declaration} {i k : Nat} {is rest : List Nat}

theorem follow?_singleton (k : Nat) (ds : List Declaration) : follow? [k] ds = ds[k]? := rfl

theorem follow?_cons_of_class {h : ClassHeader} {ms : List Declaration}
    (hk : ds[k]? = some (.classDecl h ms)) (hrest : rest ≠ []) :
    follow? (k :: rest) ds = follow? rest ms := by
  cases rest with
  | nil => exact absurd rfl hrest
  | cons j is =>
    simp only [follow?, hk]
    rfl

theorem follow?_succ_cons (k : Nat) (rest : List Nat) (d : Declaration) (ds : List Declaration) :
    follow? ((k + 1) :: rest) (d :: ds) = follow? (k :: rest) ds := by
  cases rest with
  | nil => rfl
  | cons j is => rfl

/-- What a path of several steps follows is a class first. -/
theorem exists_class_of_follow? (hrest : rest ≠ []) (h : follow? (k :: rest) ds = some d) :
    ∃ header ms, ds[k]? = some (.classDecl header ms) ∧ follow? rest ms = some d := by
  cases rest with
  | nil => exact absurd rfl hrest
  | cons j is =>
    cases hk : ds[k]? with
    | none =>
      simp only [follow?, hk] at h
      cases h
    | some d₀ =>
      cases d₀ with
      | classDecl header ms =>
        refine ⟨header, ms, rfl, ?_⟩
        rwa [follow?_cons_of_class hk hrest] at h
      | function f =>
        simp only [follow?, hk] at h
        cases h
      | property p =>
        simp only [follow?, hk] at h
        cases h
      | constructor c =>
        simp only [follow?, hk] at h
        cases h

mutual

/-- Inside a declaration, the walk lists it and what its members lead to. -/
theorem mem_walkFrom {here : List Nat} {d : Declaration} {is : List Nat} {d' : Declaration}
    (hmem : (is, d') ∈ walkFrom here d) :
    (is = here ∧ d' = d) ∨ ∃ header ms rest, d = .classDecl header ms ∧ rest ≠ [] ∧
      is = here ++ rest ∧ follow? rest ms = some d' := by
  cases d with
  | classDecl header ms =>
    rw [walkFrom] at hmem
    rcases List.mem_cons.mp hmem with heq | hin
    · exact Or.inl (Prod.mk.inj heq)
    · obtain ⟨k, rest, his, hfollow⟩ := mem_walkSiblings hin
      rw [Nat.zero_add] at his
      exact Or.inr ⟨header, ms, k :: rest, rfl, List.cons_ne_nil _ _, his, hfollow⟩
  | function f => exact Or.inl (Prod.mk.inj (List.mem_singleton.mp hmem))
  | property p => exact Or.inl (Prod.mk.inj (List.mem_singleton.mp hmem))
  | constructor c => exact Or.inl (Prod.mk.inj (List.mem_singleton.mp hmem))

/-- Among siblings, the walk lists what can be followed, numbered from where it
began. -/
theorem mem_walkSiblings {parent : List Nat} {i : Nat} {ds : List Declaration} {is : List Nat}
    {d' : Declaration} (hmem : (is, d') ∈ walkSiblings parent i ds) :
    ∃ k rest, is = parent ++ (i + k) :: rest ∧ follow? (k :: rest) ds = some d' := by
  cases ds with
  | nil => cases hmem
  | cons d ds =>
    rw [walkSiblings] at hmem
    rcases List.mem_append.mp hmem with hfirst | hlater
    · rcases mem_walkFrom hfirst with ⟨rfl, rfl⟩ | ⟨header, ms, rest, rfl, hne, rfl, hfollow⟩
      · exact ⟨0, [], rfl, rfl⟩
      · refine ⟨0, rest, by simp, ?_⟩
        rwa [follow?_cons_of_class rfl hne]
    · obtain ⟨k, rest, his, hfollow⟩ := mem_walkSiblings hlater
      refine ⟨k + 1, rest, ?_, ?_⟩
      · rw [his]
        congr 2
        omega
      · rwa [follow?_succ_cons]

end

theorem lt_append_cons (is : List Nat) (k : Nat) (rest : List Nat) : is < is ++ k :: rest :=
  calc is = is ++ [] := (List.append_nil is).symm
    _ < is ++ k :: rest := List.append_left_lt (List.nil_lt_cons k rest)

mutual

/-- The indices inside a declaration are in their order. -/
theorem pairwise_walkFrom (here : List Nat) (d : Declaration) :
    ((walkFrom here d).map Prod.fst).Pairwise (· < ·) := by
  cases d with
  | classDecl header ms =>
    rw [walkFrom, List.map_cons, List.pairwise_cons]
    refine ⟨fun is his => ?_, pairwise_walkSiblings here 0 ms⟩
    obtain ⟨⟨_, d'⟩, hmem, rfl⟩ := List.mem_map.mp his
    obtain ⟨k, rest, rfl, -⟩ := mem_walkSiblings hmem
    exact lt_append_cons here _ rest
  | function f => exact List.pairwise_singleton _ _
  | property p => exact List.pairwise_singleton _ _
  | constructor c => exact List.pairwise_singleton _ _

/-- The indices of siblings, and of what is inside them, are in their order. -/
theorem pairwise_walkSiblings (parent : List Nat) (i : Nat) (ds : List Declaration) :
    ((walkSiblings parent i ds).map Prod.fst).Pairwise (· < ·) := by
  cases ds with
  | nil => exact List.Pairwise.nil
  | cons d ds =>
    rw [walkSiblings, List.map_append, List.pairwise_append]
    refine ⟨pairwise_walkFrom _ d, pairwise_walkSiblings parent (i + 1) ds, ?_⟩
    intro is his js hjs
    obtain ⟨⟨is, d₁⟩, h₁, rfl⟩ := List.mem_map.mp his
    obtain ⟨⟨js, d₂⟩, h₂, rfl⟩ := List.mem_map.mp hjs
    obtain ⟨k, rest, rfl, -⟩ := mem_walkSiblings h₂
    -- those of the first sibling begin with its number, those of later ones with a greater
    obtain ⟨rest', rfl⟩ : ∃ rest', is = parent ++ i :: rest' := by
      rcases mem_walkFrom h₁ with ⟨rfl, -⟩ | ⟨header, ms, rest', -, -, rfl, -⟩
      · exact ⟨[], rfl⟩
      · exact ⟨rest', by rw [List.append_assoc, List.singleton_append]⟩
    exact List.append_left_lt (List.cons_lt_cons_iff.mpr (Or.inl (by omega)))

end

end Declaration

namespace TreePath

/-- The order of places: by files, and within a file what encloses before what
it encloses and earlier siblings, with all inside them, before later ones. -/
def Precedes (p q : TreePath) : Prop :=
  p.file < q.file ∨ p.file = q.file ∧ p.indices < q.indices

theorem Precedes.ne {p q : TreePath} (h : Precedes p q) : p ≠ q := by
  rintro rfl
  rcases h with h | ⟨-, h⟩
  · exact Nat.lt_irrefl _ h
  · exact List.lt_irrefl _ h

end TreePath

namespace SourceModule

variable {m : SourceModule} {path : TreePath} {d : Declaration}

theorem mem_walk_iff : (path, d) ∈ m.walk ↔ ∃ file, m.files[path.file]? = some file ∧
    (path.indices, d) ∈ Declaration.walkSiblings [] 0 file.declarations := by
  rw [walk, List.mem_flatten]
  constructor
  · rintro ⟨l, hl, hmem⟩
    obtain ⟨n, hn, rfl⟩ := List.mem_mapIdx.mp hl
    obtain ⟨⟨is, d'⟩, hin, heq⟩ := List.mem_map.mp hmem
    cases heq
    exact ⟨m.files[n], List.getElem?_eq_getElem hn, hin⟩
  · rintro ⟨file, hfile, hin⟩
    obtain ⟨hn, rfl⟩ := List.getElem?_eq_some_iff.mp hfile
    exact ⟨_, List.mem_mapIdx.mpr ⟨path.file, hn, rfl⟩, List.mem_map.mpr ⟨_, hin, rfl⟩⟩

/-- **Every path of the walk leads to the declaration it is listed with.** -/
theorem find?_of_mem_walk (h : (path, d) ∈ m.walk) : m.find? path = some d := by
  obtain ⟨file, hfile, hin⟩ := mem_walk_iff.mp h
  obtain ⟨k, rest, his, hfollow⟩ := Declaration.mem_walkSiblings hin
  rw [List.nil_append, Nat.zero_add] at his
  simp only [find?, hfile, his]
  exact hfollow

/-- **The walk is in the order of places.** -/
theorem pairwise_walk (m : SourceModule) : (m.walk.map Prod.fst).Pairwise TreePath.Precedes := by
  rw [walk, List.map_flatten, List.pairwise_flatten]
  constructor
  · intro l hl
    obtain ⟨l', hl', rfl⟩ := List.mem_map.mp hl
    obtain ⟨n, hn, rfl⟩ := List.mem_mapIdx.mp hl'
    have hwithin := Declaration.pairwise_walkSiblings [] 0 m.files[n].declarations
    rw [List.pairwise_map] at hwithin ⊢
    rw [List.pairwise_map]
    exact hwithin.imp fun hlt => Or.inr ⟨rfl, hlt⟩
  · rw [List.pairwise_map, List.pairwise_iff_getElem]
    intro a b ha hb hab p hp q hq
    simp only [List.getElem_mapIdx, List.map_map, List.mem_map, Function.comp] at hp hq
    obtain ⟨_, _, rfl⟩ := hp
    obtain ⟨_, _, rfl⟩ := hq
    exact Or.inl hab

/-- **No two paths of the walk are the same.** -/
theorem nodup_walk (m : SourceModule) : (m.walk.map Prod.fst).Nodup :=
  m.pairwise_walk.imp TreePath.Precedes.ne

end SourceModule

/-! ## Markers appended at several places -/

namespace Declaration

/-- The declaration with the marker at the end of its annotations; a
constructor stays as it is. -/
def appendMarker : Declaration → Declaration
  | .classDecl h ms => .classDecl { h with annotations := h.annotations ++ [exportMarker] } ms
  | .function f => .function { f with annotations := f.annotations ++ [exportMarker] }
  | .property p => .property { p with annotations := p.annotations ++ [exportMarker] }
  | .constructor c => .constructor c

/-- Marking what is not marked appends the marker. -/
theorem markExported_of_not_isExported {d : Declaration} (h : d.isExported = false) :
    d.markExported = d.appendMarker := by
  have hwith : ∀ as, carriesMarker as = false → withMarker as = as ++ [exportMarker] := by
    intro as has
    rw [withMarker, has, if_neg (by simp)]
  cases d with
  | classDecl header ms =>
    rw [markExported, ClassHeader.markExported, hwith header.annotations h]
    rfl
  | function f =>
    rw [markExported, FunctionDecl.markExported, hwith f.annotations h]
    rfl
  | property p =>
    rw [markExported, PropertyDecl.markExported, hwith p.annotations h]
    rfl
  | constructor c => rfl

/-- The declaration with the marker, if it is chosen. -/
def appendIf (chosen : Bool) (d : Declaration) : Declaration :=
  if chosen then d.appendMarker else d

mutual

/-- The declaration with the marker at the chosen places inside it, itself
included. -/
def appendWhere (chosen : List Nat → Bool) : Declaration → Declaration
  | .classDecl h ms => appendIf (chosen []) (.classDecl h (appendAmong chosen 0 ms))
  | .function f => appendIf (chosen []) (.function f)
  | .property p => appendIf (chosen []) (.property p)
  | .constructor c => .constructor c

/-- The siblings from number `i` on with the marker at the chosen places. -/
def appendAmong (chosen : List Nat → Bool) (i : Nat) : List Declaration → List Declaration
  | [] => []
  | d :: ds => appendWhere (fun is => chosen (i :: is)) d :: appendAmong chosen (i + 1) ds

end

end Declaration

namespace SourceModule

/-- The module with the marker appended at the chosen places, all at once. -/
def appendMarkers (m : SourceModule) (chosen : TreePath → Bool) : SourceModule :=
  { m with
    files := m.files.mapIdx fun n file =>
      { file with
        declarations := Declaration.appendAmong (fun is => chosen ⟨n, is⟩) 0 file.declarations } }

end SourceModule

namespace Declaration

variable {chosen other : List Nat → Bool} {d : Declaration} {ds : List Declaration} {i k : Nat}

theorem getElem?_appendAmong (chosen : List Nat → Bool) (i : Nat) (ds : List Declaration)
    (k : Nat) : (appendAmong chosen i ds)[k]?
      = ds[k]?.map (appendWhere fun is => chosen ((i + k) :: is)) := by
  induction ds generalizing i k with
  | nil => rfl
  | cons d ds ih =>
    cases k with
    | zero => rfl
    | succ k =>
      rw [appendAmong, List.getElem?_cons_succ, ih, List.getElem?_cons_succ]
      congr 4
      funext is
      congr 2
      omega

theorem appendAmong_congr (h : ∀ i is, chosen (i :: is) = other (i :: is)) :
    appendAmong chosen i ds = appendAmong other i ds := by
  refine List.ext_getElem? fun k => ?_
  have hsame : (fun is => chosen ((i + k) :: is)) = fun is => other ((i + k) :: is) :=
    funext fun is => h _ is
  rw [getElem?_appendAmong, getElem?_appendAmong, hsame]

mutual

/-- Nothing chosen, nothing changes. -/
theorem appendWhere_none (d : Declaration) : appendWhere (fun _ => false) d = d := by
  cases d with
  | classDecl header ms =>
    rw [appendWhere, appendAmong_none 0 ms]
    rfl
  | function f => rfl
  | property p => rfl
  | constructor c => rfl

theorem appendAmong_none (i : Nat) (ds : List Declaration) :
    appendAmong (fun _ => false) i ds = ds := by
  cases ds with
  | nil => rfl
  | cons d ds => rw [appendAmong, appendWhere_none d, appendAmong_none (i + 1) ds]

end

/-- A place chosen besides others. -/
def alsoAt (chosen : List Nat → Bool) (place : List Nat) (is : List Nat) : Bool :=
  chosen is || is == place

theorem alsoAt_of_ne {place is : List Nat} (h : is ≠ place) :
    alsoAt chosen place is = chosen is := by
  simp [alsoAt, h]

theorem alsoAt_self (chosen : List Nat → Bool) (place : List Nat) :
    alsoAt chosen place place = true := by
  simp [alsoAt]

theorem alsoAt_cons (chosen : List Nat → Bool) (k : Nat) (rest : List Nat) :
    (fun is => alsoAt chosen (k :: rest) (k :: is)) = alsoAt (fun is => chosen (k :: is)) rest := by
  funext is
  simp [alsoAt]

theorem isExported_appendWhere (h : chosen [] = false) :
    (appendWhere chosen d).isExported = d.isExported := by
  cases d with
  | classDecl header ms => rw [appendWhere, appendIf, h, if_neg (by simp)]; rfl
  | function f => rw [appendWhere, appendIf, h, if_neg (by simp)]
  | property p => rw [appendWhere, appendIf, h, if_neg (by simp)]
  | constructor c => rfl

/-- What is chosen carries the marker, a constructor never. -/
theorem isExported_appendWhere_of_chosen (h : chosen [] = true)
    (hd : ∀ k, d ≠ .constructor k) : (appendWhere chosen d).isExported = true := by
  have hlast : ∀ as, carriesMarker (as ++ [exportMarker]) = true := by
    intro as
    simp [carriesMarker]
  cases d with
  | classDecl header ms =>
    rw [appendWhere, appendIf, if_pos h]
    exact hlast _
  | function f =>
    rw [appendWhere, appendIf, if_pos h]
    exact hlast _
  | property p =>
    rw [appendWhere, appendIf, if_pos h]
    exact hlast _
  | constructor k => exact absurd rfl (hd k)

/-- To mark a declaration that is not chosen yet is to choose it too. -/
theorem markExported_appendWhere (hroot : chosen [] = false) (hd : d.isExported = false) :
    (appendWhere chosen d).markExported = appendWhere (alsoAt chosen []) d := by
  rw [markExported_of_not_isExported ((isExported_appendWhere hroot).trans hd)]
  have hothers : ∀ i is, alsoAt chosen [] (i :: is) = chosen (i :: is) := fun i is =>
    alsoAt_of_ne (List.cons_ne_nil i is)
  cases d with
  | classDecl header ms =>
    rw [appendWhere, appendWhere, hroot, alsoAt_self, appendAmong_congr hothers]
    rfl
  | function f =>
    rw [appendWhere, appendWhere, hroot, alsoAt_self]
    rfl
  | property p =>
    rw [appendWhere, appendWhere, hroot, alsoAt_self]
    rfl
  | constructor c => rfl

/-- Siblings but the one a path begins with are chosen as before. -/
theorem getElem?_appendAmong_alsoAt_of_ne {j : Nat} {rest : List Nat} (h : j ≠ k) :
    (appendAmong (alsoAt chosen (k :: rest)) 0 ds)[j]? = (appendAmong chosen 0 ds)[j]? := by
  have hsame : (fun is => alsoAt chosen (k :: rest) ((0 + j) :: is))
      = fun is => chosen ((0 + j) :: is) := by
    funext is
    refine alsoAt_of_ne fun heq => h ?_
    have := (List.cons.inj heq).1
    omega
  rw [getElem?_appendAmong, getElem?_appendAmong, hsame]

/-- One sibling replaced by itself with one more place chosen inside. -/
theorem set_appendAmong {rest : List Nat} (hk : ds[k]? = some d) :
    (appendAmong chosen 0 ds).set k (appendWhere (alsoAt (fun is => chosen (k :: is)) rest) d)
      = appendAmong (alsoAt chosen (k :: rest)) 0 ds := by
  refine List.ext_getElem? fun j => ?_
  by_cases hj : j = k
  · subst hj
    have hlt : j < (appendAmong chosen 0 ds).length := by
      have hsome : (appendAmong chosen 0 ds)[j]?.isSome := by
        rw [getElem?_appendAmong, hk]
        rfl
      simpa using hsome
    rw [List.getElem?_set_self hlt, getElem?_appendAmong, hk, Nat.zero_add, alsoAt_cons]
    rfl
  · rw [List.getElem?_set_ne (Ne.symm hj), getElem?_appendAmong_alsoAt_of_ne hj]

/-- A class stays a class with its members, wherever markers are appended. -/
theorem appendWhere_classDecl (chosen : List Nat → Bool) (h : ClassHeader) (ms : List Declaration) :
    ∃ h', appendWhere chosen (.classDecl h ms) = .classDecl h' (appendAmong chosen 0 ms) := by
  cases hroot : chosen [] with
  | true => exact ⟨_, by rw [appendWhere, hroot]; rfl⟩
  | false => exact ⟨_, by rw [appendWhere, hroot]; rfl⟩

/-- **Marking at a path is choosing its place too.** -/
theorem adjust?_appendAmong {is : List Nat} (hfollow : follow? is ds = some d)
    (hnot : chosen is = false) (hd : d.isExported = false) :
    adjust? markExported is (appendAmong chosen 0 ds)
      = some (appendAmong (alsoAt chosen is) 0 ds) := by
  induction is generalizing ds chosen with
  | nil => cases hfollow
  | cons k rest ih =>
    by_cases hrest : rest = []
    · subst hrest
      have hk : ds[k]? = some d := hfollow
      have hget : (appendAmong chosen 0 ds)[k]?
          = some (appendWhere (fun is => chosen (k :: is)) d) := by
        rw [getElem?_appendAmong, hk, Nat.zero_add]
        rfl
      simp only [adjust?, hget]
      rw [← set_appendAmong hk, ← markExported_appendWhere hnot hd]
      rfl
    · obtain ⟨header, ms, hk, hms⟩ := exists_class_of_follow? hrest hfollow
      have hinner := @ih (fun is => chosen (k :: is)) ms hms hnot
      -- the class on the way may be chosen itself, which changes its header and not its members
      obtain ⟨header', hheader⟩ : ∃ header', ∀ other : List Nat → Bool,
          other [] = chosen [k] → ∀ ms, appendWhere other (.classDecl header ms)
            = .classDecl header' (appendAmong other 0 ms) := by
        cases hroot : chosen [k] with
        | true => exact ⟨_, fun other ho ms => by rw [appendWhere, ho]; rfl⟩
        | false => exact ⟨_, fun other ho ms => by rw [appendWhere, ho]; rfl⟩
      have hget : (appendAmong chosen 0 ds)[k]?
          = some (.classDecl header' (appendAmong (fun is => chosen (k :: is)) 0 ms)) := by
        rw [getElem?_appendAmong, hk, Nat.zero_add, Option.map_some, hheader _ rfl]
      have hafter := hheader (alsoAt (fun is => chosen (k :: is)) rest)
        (alsoAt_of_ne (Ne.symm hrest)) ms
      rw [← set_appendAmong hk, hafter]
      cases rest with
      | nil => exact absurd rfl hrest
      | cons j is =>
        simp only [adjust?, hget, Option.bind_eq_bind, Option.bind_some, hinner]
        rfl

/-- **A path leads to what it led to**, with the markers appended inside. -/
theorem follow?_appendAmong {is : List Nat} (h : follow? is ds = some d) :
    follow? is (appendAmong chosen 0 ds) = some (appendWhere (fun js => chosen (is ++ js)) d) := by
  induction is generalizing ds chosen with
  | nil => cases h
  | cons k rest ih =>
    have hget := getElem?_appendAmong chosen 0 ds k
    rw [Nat.zero_add] at hget
    by_cases hrest : rest = []
    · subst hrest
      rw [follow?_singleton] at h ⊢
      rw [hget, h]
      rfl
    · obtain ⟨header, ms, hk, hms⟩ := exists_class_of_follow? hrest h
      obtain ⟨header', hclass⟩ := appendWhere_classDecl (fun is => chosen (k :: is)) header ms
      rw [hk, Option.map_some, hclass] at hget
      rw [follow?_cons_of_class hget hrest]
      exact ih hms

end Declaration

namespace SourceModule

variable {m : SourceModule} {chosen : TreePath → Bool} {path : TreePath} {d : Declaration}

theorem appendMarkers_none (m : SourceModule) : m.appendMarkers (fun _ => false) = m := by
  have hfiles : (m.files.mapIdx fun n file =>
      { file with declarations := Declaration.appendAmong (fun _ => false) 0 file.declarations })
        = m.files := by
    refine List.ext_getElem? fun n => ?_
    rw [List.getElem?_mapIdx]
    cases m.files[n]? with
    | none => rfl
    | some file => simp [Declaration.appendAmong_none]
  exact congrArg (fun files => { m with files }) hfiles

/-- **Marking at a path of the module**, not chosen before and not marked, is
choosing it too. -/
theorem markAt?_appendMarkers (hfind : m.find? path = some d) (hnot : chosen path = false)
    (hd : d.isExported = false) :
    (m.appendMarkers chosen).markAt? path
      = some (m.appendMarkers fun p => chosen p || p == path) := by
  cases hfile : m.files[path.file]? with
  | none =>
    simp only [find?, hfile] at hfind
    cases hfind
  | some file =>
    simp only [find?, hfile] at hfind
    have hadjust : Declaration.adjust? Declaration.markExported path.indices
        (Declaration.appendAmong (fun is => chosen ⟨path.file, is⟩) 0 file.declarations)
          = some (Declaration.appendAmong (Declaration.alsoAt
              (fun is => chosen ⟨path.file, is⟩) path.indices) 0 file.declarations) :=
      Declaration.adjust?_appendAmong hfind hnot hd
    have hlt : path.file < m.files.length := (List.getElem?_eq_some_iff.mp hfile).1
    have hplace : ∀ n is, ((⟨n, is⟩ : TreePath) == path)
        = (n == path.file && is == path.indices) := by
      intro n is
      obtain ⟨k, js⟩ := path
      rw [Bool.eq_iff_iff]
      simp
    simp only [markAt?, adjustAt?, appendMarkers, List.getElem?_mapIdx, hfile, Option.map_some,
      Option.bind_eq_bind, Option.bind_some, hadjust]
    congr 2
    refine List.ext_getElem? fun n => ?_
    by_cases hn : n = path.file
    · subst hn
      rw [List.getElem?_set_self (by simpa using hlt), List.getElem?_mapIdx, hfile]
      simp only [hplace, beq_self_eq_true, Bool.true_and, Option.map_some]
      rfl
    · have hother : (n == path.file) = false := by simpa using hn
      rw [List.getElem?_set_ne (Ne.symm hn), List.getElem?_mapIdx, List.getElem?_mapIdx]
      simp only [hplace, hother, Bool.false_and, Bool.or_false]

/-- **A place of the module leads to what it led to**, with the markers
appended. -/
theorem find?_appendMarkers (h : m.find? path = some d) :
    (m.appendMarkers chosen).find? path = some
      (d.appendWhere fun is => chosen ⟨path.file, path.indices ++ is⟩) := by
  cases hfile : m.files[path.file]? with
  | none =>
    simp only [find?, hfile] at h
    cases h
  | some file =>
    simp only [find?, hfile] at h
    simp only [find?, appendMarkers, List.getElem?_mapIdx, hfile, Option.map_some]
    exact Declaration.follow?_appendAmong h

end SourceModule

namespace Pass

variable {m : SourceModule} {chosen : TreePath → Bool}

/-- Marking at paths in turn, from a module with other places chosen before. -/
theorem markAll_appendMarkers {paths : List TreePath} (hnodup : paths.Nodup)
    (hfind : ∀ p ∈ paths, ∃ d, m.find? p = some d ∧ d.isExported = false)
    (hnot : ∀ p ∈ paths, chosen p = false) :
    markAll (m.appendMarkers chosen) paths
      = (.ok (), m.appendMarkers fun p => chosen p || paths.contains p) := by
  induction paths generalizing chosen with
  | nil => simp [markAll]
  | cons path paths ih =>
    obtain ⟨hnotin, hrest⟩ := List.nodup_cons.mp hnodup
    obtain ⟨d, hd, hmarked⟩ := hfind path List.mem_cons_self
    have hmark := SourceModule.markAt?_appendMarkers hd (hnot path List.mem_cons_self) hmarked
    have hlater : ∀ p ∈ paths, (chosen p || p == path) = false := by
      intro p hp
      have hne : p ≠ path := fun heq => hnotin (heq ▸ hp)
      simp [hnot p (List.mem_cons_of_mem path hp), hne]
    rw [SourceModule.markAt?] at hmark
    rw [markAll, SourceModule.markAt, SourceModule.adjustAt, hmark]
    refine (ih hrest (fun p hp => hfind p (List.mem_cons_of_mem path hp)) hlater).trans ?_
    simp only [List.contains_cons, Bool.or_assoc]

/-- **Marking never fails, and is done all at once**: different paths that lead
to declarations without the marker can be marked in turn, which comes to the
marker appended at each. -/
theorem markAll_eq {paths : List TreePath} (hnodup : paths.Nodup)
    (hfind : ∀ p ∈ paths, ∃ d, m.find? p = some d ∧ d.isExported = false) :
    markAll m paths = (.ok (), m.appendMarkers fun p => paths.contains p) := by
  have hnone : ∀ p ∈ paths, (fun _ : TreePath => false) p = false := fun _ _ => rfl
  have h := markAll_appendMarkers hnodup hfind hnone
  simpa only [SourceModule.appendMarkers_none, Bool.false_or] using h

end Pass

end ExportSurface
