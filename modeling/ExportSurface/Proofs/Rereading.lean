import ExportSurface.Proofs.Nesting
import ExportSurface.Proofs.SchemaReading
import ExportSurface.Pass
/-!
# Rereading — what was accepted once, written and read again

A text may leave out what has a default, while a module is always written in
full. So the written form of a module can nest one container deeper than the
text it was decoded from, and then it may be one too many for the reader: what
was accepted is accepted again just if its written form fits.
-/

namespace ExportSurface

open Decoder
open Decoder.Field.StaysWithin (needed free neededFlat freeFlat)
open Json (depthItems depthMembers)

/-! ## Leaves -/

@[simp] theorem Json.depth_strings (ss : List String) : (Json.strings ss).depth = 1 := by
  simp only [Json.strings, Json.depth, Nat.add_eq_right]
  induction ss with
  | nil => rfl
  | cons s ss ih => simpa [depthItems, Json.depth] using ih

@[simp] theorem QualifiedName.depth_listToJson (ns : List QualifiedName) :
    (QualifiedName.listToJson ns).depth = 1 :=
  Json.depth_strings _

@[simp] theorem Visibility.depth_toJson (v : Visibility) : v.toJson.depth = 0 := rfl

@[simp] theorem ClassKind.depth_toJson (k : ClassKind) : k.toJson.depth = 0 := rfl

@[simp] theorem Modifiers.depth_toJson (m : Modifiers) : m.toJson.depth = 1 := rfl

@[simp] theorem Json.depth_string (s : String) : (Json.string s).depth = 0 := rfl

@[simp] theorem Json.depth_bool (b : Bool) : (Json.bool b).depth = 0 := rfl

/-! ## Types -/

theorem TypeArgument.deepens {type : Decoder TypeRef}
    (h : Deepens type fun t => t.toJson.depth) :
    Deepens (TypeArgument.decodeWith type) fun a => a.toJson.depth := by
  intro s j a ha
  unfold TypeArgument.decodeWith at ha
  split at ha
  · cases ha
    exact Nat.zero_le _
  · obtain ⟨_, _, hstar⟩ := of_bind_eq_ok ha
    cases hstar
    exact Nat.zero_le _
  · obtain ⟨t, ht, rfl⟩ := of_map_eq_ok ha
    have hdepth : t.toJson.depth ≤ _ := h _ _ _ ht
    simp only [TypeArgument.toJson, Json.depth, depthMembers, Nat.max_zero]
    omega
  · cases ha

theorem TypeRef.deepens_named {type : Decoder TypeRef}
    (h : Deepens type fun t => t.toJson.depth) :
    Deepens (TypeRef.decodeNamed type) fun t => t.toJson.depth := by
  refine .map (.record
    (fun p => [("arguments", .array (p.2.1.map TypeArgument.toJson))]) ?_ ?_) ?_
  · simp [depthMembers, Json.depth, depthItems]
  · simp only [List.forall_mem_cons, List.not_mem_nil, false_implies, implies_true, and_true]
    refine ⟨neededFlat _ ?_, free _ (.list (TypeArgument.deepens h)) ?_, freeFlat _ ?_⟩ <;>
    · intro b p n hb hp
      simp only [depthMembers, Nat.max_le] at hp ⊢
      omega
  · rintro ⟨name, args, nullable⟩
    simp [TypeRef.toJson, TypeArgument.toJsons_eq_map, Json.depth, depthMembers]

theorem TypeRef.deepens_parameter {type : Decoder TypeRef}
    (h : Deepens type fun t => t.toJson.depth) :
    Deepens (TypeRef.decodeParameter type) fun t => t.toJson.depth := by
  refine .map (.record
    (fun p => [("bounds", .array (p.2.1.map TypeRef.toJson))]) ?_ ?_) ?_
  · simp [depthMembers, Json.depth, depthItems]
  · simp only [List.forall_mem_cons, List.not_mem_nil, false_implies, implies_true, and_true]
    refine ⟨neededFlat _ ?_, free _ (.list h) ?_, freeFlat _ ?_⟩ <;>
    · intro b p n hb hp
      simp only [depthMembers, Nat.max_le] at hp ⊢
      omega
  · rintro ⟨name, bounds, nullable⟩
    simp [TypeRef.toJson, TypeRef.toJsons_eq_map, Json.depth, depthMembers]

theorem TypeRef.deepens_within (fuel : Nat) :
    Deepens (TypeRef.decodeWithin fuel) fun t => t.toJson.depth := by
  induction fuel with
  | zero =>
    intro s j t ht
    cases ht
  | succ fuel ih =>
    intro s j t ht
    obtain ⟨⟨w, rest⟩, htag, hrest⟩ := of_bind_eq_ok ht
    have hdepth := depth_tagged htag
    have hrecord : t.toJson.depth ≤ rest.depth + 1 := by
      simp only at hrest
      split at hrest
      · exact TypeRef.deepens_named ih _ _ _ hrest
      · exact TypeRef.deepens_parameter ih _ _ _ hrest
      · have hblank : TypeRef.dynamic.toJson.depth ≤ 1 := Nat.le_refl 1
        have hnone : ∀ f ∈ ([] : List (Decoder.Field TypeRef)),
            f.StaysWithin fun t => t.toJson.depth := by
          simp
        have hinside := depth_record hnone hblank hrest
        exact Nat.le_succ_of_le hinside
    exact Nat.le_trans hrecord (Nat.succ_le_succ hdepth)

theorem TypeRef.deepens : Deepens TypeRef.decode fun t => t.toJson.depth :=
  fun s j t ht => TypeRef.deepens_within _ s j t ht

/-! ## Declarations -/

theorem ValueParameter.deepens : Deepens ValueParameter.decode fun p => p.toJson.depth := by
  refine .record _ (by decide) ?_
  simp only [List.forall_mem_cons, List.not_mem_nil, false_implies, implies_true, and_true]
  refine ⟨neededFlat _ ?_, needed _ TypeRef.deepens ?_⟩ <;>
  · intro b p n hb hp
    simp only [depthMembers, Nat.max_le, Json.depth_string] at hp ⊢
    omega

theorem Getter.deepens : Deepens Getter.decode fun g => g.toJson.depth := by
  refine .record _ (by decide) ?_
  simp only [List.forall_mem_cons, List.not_mem_nil, false_implies, implies_true, and_true]
  refine ⟨needed _ TypeRef.deepens ?_, free _ (.option TypeRef.deepens) ?_,
    free _ (.option TypeRef.deepens) ?_⟩ <;>
  · intro b g n hb hg
    simp only [depthMembers, Nat.max_le] at hg ⊢
    omega

theorem FunctionDecl.deepens :
    Deepens FunctionDecl.decode fun f => (Json.object f.fields).depth := by
  refine .record _ (by decide) ?_
  simp only [List.forall_mem_cons, List.not_mem_nil, false_implies, implies_true, and_true]
  refine ⟨neededFlat _ ?_, freeFlat _ ?_, freeFlat _ ?_, freeFlat _ ?_,
    needed _ TypeRef.deepens ?_, free _ (.list ValueParameter.deepens) ?_,
    free _ (.option TypeRef.deepens) ?_, free _ (.option TypeRef.deepens) ?_,
    free _ (.option TypeRef.deepens) ?_⟩ <;>
  · intro b f n hb hf
    simp only [FunctionDecl.fields, ValueParameter.listToJson, depthMembers, Nat.max_le,
      Json.depth_string, Visibility.depth_toJson, Modifiers.depth_toJson,
      QualifiedName.depth_listToJson] at hf ⊢
    omega

theorem PropertyDecl.deepens :
    Deepens PropertyDecl.decode fun p => (Json.object p.fields).depth := by
  refine .record _ (by decide) ?_
  simp only [List.forall_mem_cons, List.not_mem_nil, false_implies, implies_true, and_true]
  refine ⟨neededFlat _ ?_, freeFlat _ ?_, freeFlat _ ?_, freeFlat _ ?_, freeFlat _ ?_,
    free _ (.option Getter.deepens) ?_, free _ (.option TypeRef.deepens) ?_,
    free _ (.option TypeRef.deepens) ?_⟩ <;>
  · intro b p n hb hp
    simp only [PropertyDecl.fields, depthMembers, Nat.max_le, Json.depth_string, Json.depth_bool,
      Visibility.depth_toJson, Modifiers.depth_toJson, QualifiedName.depth_listToJson] at hp ⊢
    omega

theorem ConstructorDecl.deepens :
    Deepens ConstructorDecl.decode fun c => (Json.object c.fields).depth := by
  refine .record _ (by decide) ?_
  simp only [List.forall_mem_cons, List.not_mem_nil, false_implies, implies_true, and_true]
  refine ⟨freeFlat _ ?_, freeFlat _ ?_, freeFlat _ ?_, free _ (.list ValueParameter.deepens) ?_,
    free _ (.option TypeRef.deepens) ?_⟩ <;>
  · intro b c n hb hc
    simp only [ConstructorDecl.fields, ValueParameter.listToJson, depthMembers, Nat.max_le,
      Json.depth_bool, Visibility.depth_toJson, Modifiers.depth_toJson] at hc ⊢
    omega

theorem ClassDecl.deepens_with {member : Decoder Declaration}
    (h : Deepens member fun decl => decl.toJson.depth) :
    Deepens (ClassDecl.decodeWith member) fun c => c.toJson.depth := by
  refine .record _ (by decide) ?_
  simp only [List.forall_mem_cons, List.not_mem_nil, false_implies, implies_true, and_true]
  refine ⟨neededFlat _ ?_, freeFlat _ ?_, freeFlat _ ?_, freeFlat _ ?_, freeFlat _ ?_,
    freeFlat _ ?_, free _ (.list TypeRef.deepens) ?_, free _ (.list h) ?_⟩ <;>
  · intro b c n hb hc
    simp only [ClassHeader.fields, TypeRef.toJsons_eq_map, Declaration.toJsons_eq_map, depthMembers,
      Nat.max_le, Json.depth_string, Json.depth_strings, Visibility.depth_toJson,
      ClassKind.depth_toJson, Modifiers.depth_toJson, QualifiedName.depth_listToJson] at hc ⊢
    omega

theorem Declaration.deepens_within (fuel : Nat) :
    Deepens (Declaration.decodeWithin fuel) fun decl => decl.toJson.depth := by
  induction fuel with
  | zero =>
    intro s j decl h
    cases h
  | succ fuel ih =>
    intro s j decl h
    obtain ⟨⟨w, rest⟩, htag, hrest⟩ := of_bind_eq_ok h
    have hdepth := depth_tagged htag
    -- The tag adds a member and no container.
    have htagged : ∀ w ms,
        (Json.object (("decl", .string w) :: ms)).depth = (Json.object ms).depth := by
      simp [Json.depth, depthMembers]
    have hrecord : decl.toJson.depth ≤ rest.depth + 1 := by
      simp only at hrest
      split at hrest
      · obtain ⟨c, hc, rfl⟩ := of_map_eq_ok hrest
        have hclass := ClassDecl.deepens_with ih _ _ _ hc
        rwa [ClassDecl.toDeclaration, Declaration.toJson, htagged]
      · obtain ⟨f, hf, rfl⟩ := of_map_eq_ok hrest
        have hfunction := FunctionDecl.deepens _ _ _ hf
        rwa [Declaration.toJson, htagged]
      · obtain ⟨p, hp, rfl⟩ := of_map_eq_ok hrest
        have hproperty := PropertyDecl.deepens _ _ _ hp
        rwa [Declaration.toJson, htagged]
      · obtain ⟨c, hc, rfl⟩ := of_map_eq_ok hrest
        have hconstructor := ConstructorDecl.deepens _ _ _ hc
        rwa [Declaration.toJson, htagged]
    exact Nat.le_trans hrecord (Nat.succ_le_succ hdepth)

theorem Declaration.deepens : Deepens Declaration.decode fun decl => decl.toJson.depth :=
  fun s j decl h => Declaration.deepens_within _ s j decl h

/-! ## Modules -/

theorem SourceFile.deepens : Deepens SourceFile.decode fun f => f.toJson.depth := by
  refine .record _ (by decide) ?_
  simp only [List.forall_mem_cons, List.not_mem_nil, false_implies, implies_true, and_true]
  refine ⟨neededFlat _ ?_, freeFlat _ ?_, free _ (.list Declaration.deepens) ?_⟩ <;>
  · intro b f n hb hf
    simp only [Declaration.toJsons_eq_map, depthMembers, Nat.max_le, Json.depth_string] at hf ⊢
    omega

/-- **The written form of a module is at most one container deeper than what it
was decoded from.** -/
theorem SourceModule.deepens : Deepens SourceModule.decode fun m => m.toJson.depth := by
  refine .record _ (by decide) ?_
  simp only [List.forall_mem_cons, List.not_mem_nil, false_implies, implies_true, and_true]
  refine ⟨neededFlat _ ?_, free _ (.list SourceFile.deepens) ?_,
    free _ (.list (ClassDecl.deepens_with Declaration.deepens)) ?_⟩ <;>
  · intro b m n hb hm
    simp only [depthMembers, Nat.max_le, Json.depth_string] at hm ⊢
    omega

/-! ## Marking

A marker is one more text in a list of texts, so a pass does not change how
deep a module nests. -/

theorem Json.depthItems_set {vs : List Json} {i : Nat} {v v' : Json} (hi : vs[i]? = some v)
    (h : v'.depth = v.depth) : depthItems (vs.set i v') = depthItems vs := by
  induction vs generalizing i with
  | nil => rfl
  | cons w vs ih =>
    cases i with
    | zero =>
      obtain rfl : w = v := by simpa using hi
      simp only [List.set_cons_zero, depthItems, h]
    | succ i =>
      simp only [List.set_cons_succ, depthItems, ih (by simpa using hi)]

/-- Marking a declaration adds no container. -/
theorem Declaration.depth_markExported (decl : Declaration) :
    decl.markExported.toJson.depth = decl.toJson.depth := by
  cases decl <;>
    simp [markExported, toJson, ClassHeader.fields, FunctionDecl.fields, PropertyDecl.fields,
      ClassHeader.markExported, FunctionDecl.markExported, PropertyDecl.markExported, Json.depth,
      depthMembers]

/-- Replacing a declaration by one that is as deep leaves the depth of its
siblings and itself together. -/
theorem Declaration.depthItems_set {decls : List Declaration} {i : Nat} {decl decl' : Declaration}
    (hi : decls[i]? = some decl) (h : decl'.toJson.depth = decl.toJson.depth) :
    depthItems (toJsons (decls.set i decl')) = depthItems (toJsons decls) := by
  have hjson : (decls.map toJson)[i]? = some decl.toJson := by simp [hi]
  simp only [Declaration.toJsons_eq_map, List.map_set, Json.depthItems_set hjson h]

/-- And so it does at any place inside them. -/
theorem Declaration.depthItems_adjust? {f : Declaration → Declaration}
    (hf : ∀ decl, (f decl).toJson.depth = decl.toJson.depth) {indices : List Nat}
    {decls decls' : List Declaration} (h : adjust? f indices decls = some decls') :
    depthItems (toJsons decls') = depthItems (toJsons decls) := by
  induction indices generalizing decls decls' with
  | nil => cases h
  | cons i indices ih =>
    cases indices with
    | nil =>
      simp only [adjust?, Option.bind_eq_bind, Option.bind_eq_some_iff] at h
      obtain ⟨decl, hi, heq⟩ := h
      cases heq
      exact depthItems_set hi (hf decl)
    | cons j indices =>
      simp only [adjust?, Option.bind_eq_bind, Option.bind_eq_some_iff] at h
      obtain ⟨decl, hi, hinside⟩ := h
      split at hinside
      · obtain ⟨members, hmembers, heq⟩ := Option.bind_eq_some_iff.mp hinside
        cases heq
        refine depthItems_set hi ?_
        simp only [toJson, ClassHeader.fields, Json.depth, depthMembers, ih hmembers]
      · cases hinside

theorem SourceModule.depth_markAt {m m' : SourceModule} {path : TreePath}
    (h : m.markAt path = .ok m') : m'.toJson.depth = m.toJson.depth := by
  unfold SourceModule.markAt SourceModule.adjustAt at h
  split at h
  case h_1 marked hmarked =>
    cases h
    simp only [adjustAt?, Option.bind_eq_bind, Option.bind_eq_some_iff] at hmarked
    obtain ⟨file, hfile, decls, hdecls, heq⟩ := hmarked
    cases heq
    have hjson : (m.files.map SourceFile.toJson)[path.file]? = some file.toJson := by simp [hfile]
    have hdepth := Declaration.depthItems_adjust? Declaration.depth_markExported hdecls
    simp only [SourceModule.toJson, Json.depth, depthMembers, List.map_set]
    rw [Json.depthItems_set hjson]
    simp only [SourceFile.toJson, Json.depth, depthMembers, hdepth]
  case h_2 => cases h

theorem Pass.depth_markAll (m : SourceModule) (paths : List TreePath) :
    (Pass.markAll m paths).2.toJson.depth = m.toJson.depth := by
  induction paths generalizing m with
  | nil => rfl
  | cons path paths ih =>
    rw [Pass.markAll]
    split
    case h_1 => rfl
    case h_2 marked hmarked => rw [ih, SourceModule.depth_markAt hmarked]

/-- **A pass leaves the depth of the module.** -/
theorem Pass.depth_result (p : Pass) (m : SourceModule) :
    (p.run m).result.toJson.depth = m.toJson.depth := by
  unfold Pass.run
  simp only
  split
  · rfl
  case h_2 g _ =>
    have hdepth := Pass.depth_markAll m g.plan
    split
    case h_1 failure marked hmarked => rwa [hmarked] at hdepth
    case h_2 marked hmarked => rwa [hmarked] at hdepth

/-! ## Classes inside one another

A text of such classes that says no more than it must, and the module it
describes, which says more. -/

/-- `n` classes around one. -/
def Declaration.nested : Nat → Declaration
  | 0 => .classDecl { name := ⟨"c"⟩ } []
  | n + 1 => .classDecl { name := ⟨"c"⟩ } [Declaration.nested n]

/-- The same without what need not be said. -/
def Declaration.nestedBriefly : Nat → Json
  | 0 => .object [("decl", .string "class"), ("fq-name", .string "c")]
  | n + 1 =>
    .object [("decl", .string "class"), ("fq-name", .string "c"),
      ("declarations", .array [Declaration.nestedBriefly n])]

/-- A module with them. -/
def SourceModule.nested (n : Nat) : SourceModule where
  name := "m"
  files := [{ path := "f", declarations := [Declaration.nested n] }]

/-- The same without what need not be said. -/
def SourceModule.nestedBriefly (n : Nat) : Json :=
  .object [("name", .string "m"),
    ("files", .array [.object [("path", .string "f"),
      ("declarations", .array [Declaration.nestedBriefly n])]])]

theorem ClassDecl.reads_briefly (member : Decoder Declaration) :
    Reads (ClassDecl.decodeWith member) (.object [("fq-name", .string "c")])
      { name := ⟨"c"⟩ } :=
  .record (by simp) <|
    .cons (.map _ (QualifiedName.reads ⟨"c"⟩)) <| .skip rfl <| .skip rfl <| .skip rfl <|
    .skip rfl <| .skip rfl <| .skip rfl <| .skip rfl <| .nil _

theorem ClassDecl.reads_around {member : Decoder Declaration} {j : Json} {decl : Declaration}
    (h : Reads member j decl) :
    Reads (ClassDecl.decodeWith member)
      (.object [("fq-name", .string "c"), ("declarations", .array [j])])
      { name := ⟨"c"⟩, members := [decl] } :=
  .record (by simp) <|
    .cons (.map _ (QualifiedName.reads ⟨"c"⟩)) <| .skip rfl <| .skip rfl <| .skip rfl <|
    .skip rfl <| .skip rfl <| .skip rfl <| .cons (.map _ (.list (.cons h .nil))) <| .nil _

theorem Declaration.reads_nestedBriefly {n : Nat} {deep : Json → Nat}
    (h : n ≤ deep (Declaration.nestedBriefly n)) :
    Reads (fun s j => Declaration.decodeWithin (deep j + 1) s j) (Declaration.nestedBriefly n)
      (Declaration.nested n) := by
  induction n generalizing deep with
  | zero =>
    have hrecord := ClassDecl.reads_briefly
      (Declaration.decodeWithin (deep (Declaration.nestedBriefly 0)))
    refine .tagged (fun _ _ => rfl) (by decide) (by simp) hrecord.plain ?_
    exact congrArg (ClassDecl.toDeclaration <$> ·) (hrecord.whole .held)
  | succ n ih =>
    obtain ⟨fuel, hfuel⟩ : ∃ fuel, deep (Declaration.nestedBriefly (n + 1)) = fuel + 1 :=
      Nat.exists_eq_add_one_of_ne_zero (by omega)
    have hmember : Reads (Declaration.decodeWithin (fuel + 1)) _ _ :=
      @ih (fun _ => fuel) (by omega)
    have hrecord := ClassDecl.reads_around hmember
    rw [← hfuel] at hrecord
    refine .tagged (fun _ _ => rfl) (by decide) (by simp) hrecord.plain ?_
    exact congrArg (ClassDecl.toDeclaration <$> ·) (hrecord.whole .held)

theorem Declaration.depth_nestedBriefly (n : Nat) :
    (Declaration.nestedBriefly n).depth = 2 * n + 1 := by
  induction n with
  | zero => rfl
  | succ n ih =>
    simp only [Declaration.nestedBriefly, Json.depth, depthMembers, depthItems, ih]
    omega

theorem Declaration.depth_nested (n : Nat) : (Declaration.nested n).toJson.depth = 2 * n + 2 := by
  induction n with
  | zero => rfl
  | succ n ih =>
    simp [Declaration.nested, Declaration.toJson, Declaration.toJsons, TypeRef.toJsons,
      ClassHeader.fields, Json.depth, depthMembers, depthItems, ih]
    omega

/-- **The brief text of nested classes is accepted as long as it fits.** -/
theorem SourceModule.ofText_nestedBriefly {n : Nat} (h : n ≤ 61) :
    SourceModule.ofText (SourceModule.nestedBriefly n).pretty = .ok (SourceModule.nested n) := by
  have hdecl : Reads Declaration.decode (Declaration.nestedBriefly n) (Declaration.nested n) :=
    Declaration.reads_nestedBriefly (by rw [Declaration.depth_nestedBriefly]; omega)
  have hfile : Reads SourceFile.decode
      (.object [("path", .string "f"), ("declarations", .array [Declaration.nestedBriefly n])])
      { path := "f", declarations := [Declaration.nested n] } :=
    .record (by simp) <|
      .cons (.map _ (.string "f")) <| .skip rfl <| .cons (.map _ (.list (.cons hdecl .nil))) <|
      .nil _
  have hmodule : Reads SourceModule.decode (SourceModule.nestedBriefly n)
      (SourceModule.nested n) :=
    .record (by simp) <|
      .cons (.map _ (.string "m")) <| .cons (.map _ (.list (.cons hfile .nil))) <| .skip rfl <|
      .nil _
  have hdepth : (SourceModule.nestedBriefly n).depth ≤ Json.maxDepth := by
    simp only [SourceModule.nestedBriefly, Json.depth, depthMembers, depthItems,
      Declaration.depth_nestedBriefly, Json.maxDepth]
    omega
  rw [SourceModule.ofText, SourceModule.ofDocument, Json.ofText_pretty hmodule.plain, Decoder.run,
    Json.cut_of_depth_le hdepth, hmodule.whole]
  rfl

/-! ## Reading again what was accepted -/

/-- **What was accepted is accepted again just if its written form fits**, also
after a pass, and that form is at most one container deeper than the text it
came from. -/
theorem SourceModule.ofText_toText_of_ofText {text : String} {m : SourceModule}
    (h : SourceModule.ofText text = .ok m) :
    (Json.Document.ofText text).root.depth ≤ Json.maxDepth ∧
      m.toJson.depth ≤ (Json.Document.ofText text).root.depth + 1 ∧
      SourceModule.ofText m.toText
        = (if m.toJson.depth ≤ Json.maxDepth then .ok m else .error .malformed) ∧
      ∀ p : Pass, SourceModule.ofText (p.run m).result.toText
        = if m.toJson.depth ≤ Json.maxDepth then .ok (p.run m).result else .error .malformed := by
  refine ⟨Json.depth_ofText_le text, ?_, m.ofText_toText, fun p => ?_⟩
  · rw [SourceModule.ofText, SourceModule.ofDocument, Decoder.run] at h
    split at h
    case h_1 m' hm =>
      split at h
      · cases h
      · cases h
        exact SourceModule.deepens _ _ _ hm
    case h_2 => cases h
  · rw [← p.depth_result m]
    exact (p.run m).result.ofText_toText

theorem SourceModule.ofText_toText_single :
    SourceModule.ofText (SourceModule.nestedBriefly 0).pretty = .ok (SourceModule.nested 0) ∧
      SourceModule.ofText (SourceModule.nested 0).toText = .ok (SourceModule.nested 0) := by
  have h := SourceModule.ofText_nestedBriefly (Nat.zero_le 61)
  obtain ⟨-, -, hreread, -⟩ := SourceModule.ofText_toText_of_ofText h
  have hfits : (SourceModule.nested 0).toJson.depth ≤ Json.maxDepth := by decide +kernel
  exact ⟨h, by rw [hreread, if_pos hfits]⟩

/-- **A text that is accepted, and what is written for it is not.** -/
theorem SourceModule.ofText_toText_nested :
    SourceModule.ofText (SourceModule.nestedBriefly 61).pretty = .ok (SourceModule.nested 61) ∧
      SourceModule.ofText (SourceModule.nested 61).toText = .error .malformed := by
  refine ⟨SourceModule.ofText_nestedBriefly (Nat.le_refl 61), ?_⟩
  rw [SourceModule.ofText_toText, if_neg]
  simp [SourceModule.nested, SourceModule.toJson, SourceFile.toJson, Declaration.toJsons,
    Json.depth, depthMembers, depthItems, Declaration.depth_nested, Json.maxDepth]

end ExportSurface
