import ExportSurface.Proofs.ShapeReading
import ExportSurface.Schema.Decode
import ExportSurface.Schema.Encode
/-!
# Modules — what is written is read back

Every part of a module is written in a form that its own decoder reads back,
as long as it fits; so is the module, and so is the text of it.
-/

namespace ExportSurface

open Decoder

/-! ## Words and names -/

theorem QualifiedName.reads (n : QualifiedName) : Reads QualifiedName.decode (.string n.text) n :=
  .map _ (.string n.text)

theorem QualifiedName.reads_list (ns : List QualifiedName) :
    Reads (list QualifiedName.decode) (QualifiedName.listToJson ns) ns := by
  rw [QualifiedName.listToJson, Json.strings, List.map_map]
  exact .list_map fun n _ => n.reads

theorem reads_strings (ss : List String) : Reads (list string) (Json.strings ss) ss :=
  .list_map fun s _ => .string s

theorem Visibility.reads (v : Visibility) : Reads Visibility.decode v.toJson v :=
  .word (by cases v <;> decide)

theorem ClassKind.reads (k : ClassKind) : Reads ClassKind.decode k.toJson k :=
  .word (by cases k <;> decide)

theorem Modifiers.reads (m : Modifiers) : Reads Modifiers.decode m.toJson m :=
  .record (by decide) <|
    .cons (.map _ (.bool _)) <| .cons (.map _ (.bool _)) <| .cons (.map _ (.bool _)) <|
    .cons (.map _ (.bool _)) <| .cons (.map _ (.bool _)) <| .cons (.map _ (.bool _)) <| .nil _

/-! ## Types -/

theorem TypeRef.toJsons_eq_map (types : List TypeRef) :
    TypeRef.toJsons types = types.map TypeRef.toJson := by
  induction types with
  | nil => rfl
  | cons t types ih => rw [TypeRef.toJsons, ih, List.map_cons]

theorem TypeArgument.toJsons_eq_map (args : List TypeArgument) :
    TypeArgument.toJsons args = args.map TypeArgument.toJson := by
  induction args with
  | nil => rfl
  | cons a args ih => rw [TypeArgument.toJsons, ih, List.map_cons]

theorem TypeRef.toJson_ne_null (t : TypeRef) : t.toJson ≠ .null := by
  cases t <;> simp [TypeRef.toJson]

theorem TypeRef.reads_named {type : Decoder TypeRef} {js : List Json} {args : List TypeArgument}
    (name : QualifiedName) (nullable : Bool)
    (hargs : List.Forall₂ (Reads (TypeArgument.decodeWith type)) js args) :
    Reads (TypeRef.decodeNamed type)
      (.object [("class", .string name.text), ("arguments", .array js),
        ("nullable", .bool nullable)])
      (.named name args nullable) :=
  Reads.map (a := (name, args, nullable)) _ <| .record (by simp) <|
    .cons (.map _ name.reads) <| .cons (.map _ (.list hargs)) <| .cons (.map _ (.bool nullable)) <|
    .nil _

theorem TypeRef.reads_parameter {type : Decoder TypeRef} {js : List Json} {bounds : List TypeRef}
    (name : String) (nullable : Bool) (hbounds : List.Forall₂ (Reads type) js bounds) :
    Reads (TypeRef.decodeParameter type)
      (.object [("name", .string name), ("bounds", .array js), ("nullable", .bool nullable)])
      (.parameter name bounds nullable) :=
  Reads.map (a := (name, bounds, nullable)) _ <| .record (by simp) <|
    .cons (.map _ (.string name)) <| .cons (.map _ (.list hbounds)) <|
    .cons (.map _ (.bool nullable)) <| .nil _

theorem TypeArgument.reads_star (type : Decoder TypeRef) :
    Reads (TypeArgument.decodeWith type) TypeArgument.star.toJson .star :=
  .of_depth_zero trivial rfl fun _ => rfl

theorem TypeArgument.reads_type {type : Decoder TypeRef} {t : TypeRef}
    (h : Reads type t.toJson t) :
    Reads (TypeArgument.decodeWith type) (TypeArgument.type t).toJson (.type t) := by
  rw [TypeArgument.toJson]
  refine .of_members ⟨h.plain, trivial⟩ rfl fun s room hs => ?_
  simp only [Json.depthMembers, Nat.max_zero] at hs ⊢
  simp only [Json.cutMembers, TypeArgument.decodeWith, h.cut s room hs]
  split <;> rfl

mutual

/-- A type is read back by a decoder that looks as deep as it is. -/
theorem TypeRef.reads_within : ∀ {t : TypeRef} {deep : Json → Nat},
    t.toJson.depth ≤ deep t.toJson →
    Reads (fun s j => TypeRef.decodeWithin (deep j + 1) s j) t.toJson t
  | .named name args nullable, deep, h => by
    have hargs : Json.depthItems (TypeArgument.toJsons args)
        < deep (TypeRef.named name args nullable).toJson := by
      simp only [TypeRef.toJson, Json.depth, Json.depthMembers] at h ⊢
      omega
    have hrecord := TypeRef.reads_named name nullable (TypeArgument.reads_all hargs)
    exact .tagged (fun _ _ => rfl) (by decide) (by simp) hrecord.plain (hrecord.whole .held)
  | .parameter name bounds nullable, deep, h => by
    have hbounds : Json.depthItems (TypeRef.toJsons bounds)
        < deep (TypeRef.parameter name bounds nullable).toJson := by
      simp only [TypeRef.toJson, Json.depth, Json.depthMembers] at h ⊢
      omega
    have hrecord := TypeRef.reads_parameter name nullable (TypeRef.reads_all hbounds)
    exact .tagged (fun _ _ => rfl) (by decide) (by simp) hrecord.plain (hrecord.whole .held)
  | .dynamic, _, _ => .tagged (fun _ _ => rfl) (by decide) (by simp) trivial rfl

theorem TypeRef.reads_all : ∀ {types : List TypeRef} {fuel : Nat},
    Json.depthItems (TypeRef.toJsons types) < fuel →
    List.Forall₂ (Reads (TypeRef.decodeWithin fuel)) (TypeRef.toJsons types) types
  | [], _, _ => .nil
  | t :: types, fuel + 1, h => by
    simp only [TypeRef.toJsons, Json.depthItems, Nat.max_lt] at h
    have ht := @TypeRef.reads_within t (fun _ => fuel) (by omega)
    exact .cons ht (TypeRef.reads_all h.2)

theorem TypeArgument.reads_all : ∀ {args : List TypeArgument} {fuel : Nat},
    Json.depthItems (TypeArgument.toJsons args) < fuel →
    List.Forall₂ (Reads (TypeArgument.decodeWith (TypeRef.decodeWithin fuel)))
      (TypeArgument.toJsons args) args
  | [], _, _ => .nil
  | .star :: args, fuel, h => by
    simp only [TypeArgument.toJsons, Json.depthItems, Nat.max_lt] at h
    exact .cons (TypeArgument.reads_star _) (TypeArgument.reads_all h.2)
  | .type t :: args, fuel + 1, h => by
    simp only [TypeArgument.toJsons, TypeArgument.toJson, Json.depthItems, Json.depth,
      Json.depthMembers, Nat.max_lt] at h
    have ht := @TypeRef.reads_within t (fun _ => fuel) (by omega)
    exact .cons (TypeArgument.reads_type ht) (TypeArgument.reads_all h.2)

end

/-- **A type is read back.** -/
theorem TypeRef.reads (t : TypeRef) : Reads TypeRef.decode t.toJson t :=
  TypeRef.reads_within (Nat.le_refl _)

/-- An optional type is read back. -/
theorem TypeRef.reads_option (t : Option TypeRef) :
    Reads (option TypeRef.decode) (Json.option TypeRef.toJson t) t :=
  match t with
  | none => .none
  | some t => .some t.reads t.toJson_ne_null

/-- Types are read back. -/
theorem TypeRef.reads_list (types : List TypeRef) :
    Reads (list TypeRef.decode) (.array (TypeRef.toJsons types)) types := by
  rw [TypeRef.toJsons_eq_map]
  exact .list_map fun t _ => t.reads

/-! ## Declarations -/

theorem Declaration.toJsons_eq_map (decls : List Declaration) :
    Declaration.toJsons decls = decls.map Declaration.toJson := by
  induction decls with
  | nil => rfl
  | cons decl decls ih => rw [Declaration.toJsons, ih, List.map_cons]

theorem ValueParameter.reads (p : ValueParameter) : Reads ValueParameter.decode p.toJson p :=
  .record (by simp) <| .cons (.map _ (.string p.name)) <| .cons (.map _ p.type.reads) <| .nil _

theorem ValueParameter.reads_list (ps : List ValueParameter) :
    Reads (list ValueParameter.decode) (ValueParameter.listToJson ps) ps :=
  .list_map fun p _ => p.reads

theorem Getter.reads (g : Getter) : Reads Getter.decode g.toJson g :=
  .record (by simp) <|
    .cons (.map _ g.returnType.reads) <| .cons (.map _ (TypeRef.reads_option g.dispatchReceiver)) <|
    .cons (.map _ (TypeRef.reads_option g.extensionReceiver)) <| .nil _

theorem Getter.reads_option (g : Option Getter) :
    Reads (option Getter.decode) (Json.option Getter.toJson g) g :=
  match g with
  | none => .none
  | some g => .some g.reads (by simp [Json.option, Getter.toJson])

theorem FunctionDecl.reads (f : FunctionDecl) :
    Reads FunctionDecl.decode (.object f.fields) f :=
  .record (by simp) <|
    .cons (.map _ f.name.reads) <| .cons (.map _ f.visibility.reads) <|
    .cons (.map _ f.modifiers.reads) <| .cons (.map _ (QualifiedName.reads_list f.annotations)) <|
    .cons (.map _ f.returnType.reads) <| .cons (.map _ (ValueParameter.reads_list f.parameters)) <|
    .cons (.map _ (TypeRef.reads_option f.dispatchReceiver)) <|
    .cons (.map _ (TypeRef.reads_option f.extensionReceiver)) <|
    .cons (.map _ (TypeRef.reads_option f.inheritedFrom)) <| .nil _

theorem PropertyDecl.reads (p : PropertyDecl) :
    Reads PropertyDecl.decode (.object p.fields) p :=
  .record (by simp) <|
    .cons (.map _ p.name.reads) <| .cons (.map _ p.visibility.reads) <|
    .cons (.map _ p.modifiers.reads) <| .cons (.map _ (QualifiedName.reads_list p.annotations)) <|
    .cons (.map _ (.bool p.mutable)) <| .cons (.map _ (Getter.reads_option p.getter)) <|
    .cons (.map _ (TypeRef.reads_option p.backingField)) <|
    .cons (.map _ (TypeRef.reads_option p.inheritedFrom)) <| .nil _

theorem ConstructorDecl.reads (c : ConstructorDecl) :
    Reads ConstructorDecl.decode (.object c.fields) c :=
  .record (by simp) <|
    .cons (.map _ c.visibility.reads) <| .cons (.map _ c.modifiers.reads) <|
    .cons (.map _ (.bool c.primary)) <| .cons (.map _ (ValueParameter.reads_list c.parameters)) <|
    .cons (.map _ (TypeRef.reads_option c.dispatchReceiver)) <| .nil _

theorem ClassHeader.reads {member : Decoder Declaration} {js : List Json}
    {members : List Declaration} (h : ClassHeader)
    (hmembers : List.Forall₂ (Reads member) js members) :
    Reads (ClassDecl.decodeWith member) (.object (h.fields js)) ⟨h, members⟩ :=
  .record (by simp) <|
    .cons (.map _ h.name.reads) <| .cons (.map _ h.kind.reads) <|
    .cons (.map _ h.visibility.reads) <| .cons (.map _ h.modifiers.reads) <|
    .cons (.map _ (QualifiedName.reads_list h.annotations)) <|
    .cons (.map _ (reads_strings h.typeParameters)) <|
    .cons (.map _ (TypeRef.reads_list h.supertypes)) <| .cons (.map _ (.list hmembers)) <| .nil _

mutual

/-- A declaration is read back by a decoder that looks as deep as it is. -/
theorem Declaration.reads_within : ∀ {decl : Declaration} {deep : Json → Nat},
    decl.toJson.depth ≤ deep decl.toJson →
    Reads (fun s j => Declaration.decodeWithin (deep j + 1) s j) decl.toJson decl
  | .classDecl header members, deep, h => by
    have hmembers : Json.depthItems (Declaration.toJsons members)
        < deep (Declaration.classDecl header members).toJson := by
      simp only [Declaration.toJson, ClassHeader.fields, Json.depth, Json.depthMembers] at h ⊢
      omega
    have hrecord := header.reads (Declaration.reads_all hmembers)
    refine .tagged (fun _ _ => rfl) (by decide) (by simp [ClassHeader.fields]) hrecord.plain ?_
    exact congrArg (ClassDecl.toDeclaration <$> ·) (hrecord.whole .held)
  | .function f, deep, h => by
    refine .tagged (fun _ _ => rfl) (by decide) (by simp [FunctionDecl.fields]) f.reads.plain ?_
    exact congrArg (Declaration.function <$> ·) (f.reads.whole .held)
  | .property p, deep, h => by
    refine .tagged (fun _ _ => rfl) (by decide) (by simp [PropertyDecl.fields]) p.reads.plain ?_
    exact congrArg (Declaration.property <$> ·) (p.reads.whole .held)
  | .constructor c, deep, h => by
    refine .tagged (fun _ _ => rfl) (by decide) (by simp [ConstructorDecl.fields]) c.reads.plain ?_
    exact congrArg (Declaration.constructor <$> ·) (c.reads.whole .held)

theorem Declaration.reads_all : ∀ {decls : List Declaration} {fuel : Nat},
    Json.depthItems (Declaration.toJsons decls) < fuel →
    List.Forall₂ (Reads (Declaration.decodeWithin fuel)) (Declaration.toJsons decls) decls
  | [], _, _ => .nil
  | decl :: decls, fuel + 1, h => by
    simp only [Declaration.toJsons, Json.depthItems, Nat.max_lt] at h
    have hdecl := @Declaration.reads_within decl (fun _ => fuel) (by omega)
    exact .cons hdecl (Declaration.reads_all h.2)

end

/-- **A declaration is read back.** -/
theorem Declaration.reads (decl : Declaration) : Reads Declaration.decode decl.toJson decl :=
  Declaration.reads_within (Nat.le_refl _)

theorem Declaration.reads_each (decls : List Declaration) :
    List.Forall₂ (Reads Declaration.decode) (Declaration.toJsons decls) decls := by
  rw [Declaration.toJsons_eq_map, List.forall₂_map_left_iff, List.forall₂_same]
  exact fun decl _ => decl.reads

/-- A class is read back without its tag. -/
theorem ClassDecl.reads (c : ClassDecl) : Reads ClassDecl.decode c.toJson c :=
  c.toClassHeader.reads (Declaration.reads_each c.members)

/-! ## Modules -/

theorem SourceFile.reads (f : SourceFile) : Reads SourceFile.decode f.toJson f :=
  .record (by simp) <|
    .cons (.map _ (.string f.path)) <| .cons (.map _ (.string f.package)) <|
    .cons (.map _ (.list (Declaration.reads_each f.declarations))) <| .nil _

/-- **A module is read back.** -/
theorem SourceModule.reads (m : SourceModule) : Reads SourceModule.decode m.toJson m :=
  .record (by simp) <|
    .cons (.map _ (.string m.name)) <| .cons (.map _ (.list_map fun f _ => f.reads)) <|
    .cons (.map _ (.list_map fun c _ => c.reads)) <| .nil _

/-- **The text of a module is read back just if it does not nest too deep**,
and refused as malformed otherwise. -/
theorem SourceModule.ofText_toText (m : SourceModule) :
    SourceModule.ofText m.toText
      = if m.toJson.depth ≤ Json.maxDepth then .ok m else .error .malformed := by
  have hcut := m.reads.cut .direct Json.maxDepth (fun h => nomatch h)
  rw [SourceModule.ofText, SourceModule.ofDocument, SourceModule.toText,
    Json.ofText_pretty m.reads.plain, Decoder.run, hcut]
  by_cases hfits : m.toJson.depth ≤ Json.maxDepth <;> simp [hfits]

/-- **A module that fits is read back from its text**, whatever its
declarations, types and texts are. -/
theorem SourceModule.ofText_toText_of_fits (m : SourceModule)
    (h : m.toJson.depth ≤ Json.maxDepth) : SourceModule.ofText m.toText = .ok m := by
  rw [SourceModule.ofText_toText, if_pos h]

/-- One declaration of each kind, each kind of type and argument, and texts
that have to be escaped. -/
def SourceModule.sampler : SourceModule where
  name := "say \"hi\"\t\\ \x01"
  files :=
    [{ path := "é", declarations :=
        [.classDecl { name := ⟨"c"⟩, kind := .interface, typeParameters := ["T"] }
          [.constructor { primary := true },
           .classDecl { name := ⟨"c.d"⟩, supertypes := [.named ⟨"c"⟩ [.star, .type .dynamic] true] }
             [.property { name := ⟨"p"⟩, getter := some { returnType := .dynamic } }]],
         .function { name := ⟨"f"⟩, returnType := .parameter "T" [.dynamic] false }] }]
  dependencies := [{ name := ⟨"e"⟩, visibility := .internal, modifiers := { expect := true } }]

theorem SourceModule.ofText_toText_sampler :
    SourceModule.sampler.toJson.depth ≤ Json.maxDepth ∧
      SourceModule.ofText SourceModule.sampler.toText = .ok SourceModule.sampler :=
  ⟨by decide +kernel, SourceModule.ofText_toText_of_fits SourceModule.sampler (by decide +kernel)⟩

end ExportSurface
