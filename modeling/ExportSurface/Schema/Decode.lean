import ExportSurface.Schema.Shape
import ExportSurface.Json.Reader
import ExportSurface.SourceModule
/-!
# Decoding modules

The fields of every record of a module document, with their defaults.
`SourceModule.ofDocument` is the whole of it; `TypeRef.ofDocument` and
`Declaration.ofDocument` decode the parts that may also stand alone.
-/

namespace ExportSurface

open Decoder

/-- A decoder applied to a whole document, which must hold nothing else. Where
there is no text only the shape can be wrong. -/
def Decoder.run (value : Decoder α) (d : Json.Document) : Except Fault α :=
  match value .direct d.root with
  | .ok a => if d.trailing then .error .malformed else .ok a
  | .error fault => .error (if d.isText then fault else .mismatched)

/-! ## Words and names -/

/-- A qualified name. -/
def QualifiedName.decode : Decoder QualifiedName := map (⟨·⟩) string

/-- The words for visibilities. -/
def Visibility.words : List (String × Visibility) :=
  [("public", .pub), ("protected", .prot), ("internal", .internal), ("private", .priv)]

/-- The words for kinds of class. -/
def ClassKind.words : List (String × ClassKind) :=
  [("class", .plainClass), ("interface", .interface), ("object", .object),
   ("enum", .enumClass), ("annotation", .annotationClass)]

/-- A visibility. -/
def Visibility.decode : Decoder Visibility := word words

/-- A kind of class. -/
def ClassKind.decode : Decoder ClassKind := word words

/-- Modifiers, none of them set where nothing is said. -/
def Modifiers.decode : Decoder Modifiers :=
  record
    [.free "expect" bool fun b m => { m with expect := b },
     .free "external" bool fun b m => { m with external := b },
     .free "inline" bool fun b m => { m with inline := b },
     .free "suspend" bool fun b m => { m with suspend := b },
     .free "value" bool fun b m => { m with value := b },
     .free "anonymous" bool fun b m => { m with anonymous := b }]
    {}

/-! ## Types -/

/-- A type argument, which always stands inside a type. -/
def TypeArgument.decodeWith (type : Decoder TypeRef) : Decoder TypeArgument
  | _, .string "star" => .ok .star
  | s, .object [("star", v)] => do
    nothing s v
    return .star
  | s, .object [("type", v)] => .type <$> type s v
  | _, j => .error j.wrongShape

/-- A class type's fields. -/
def TypeRef.decodeNamed (type : Decoder TypeRef) : Decoder TypeRef :=
  map (fun (name, arguments, nullable) => .named name arguments nullable)
    (record
      [.needed "class" QualifiedName.decode fun n (_, as, b) => (n, as, b),
       .free "arguments" (list (TypeArgument.decodeWith type)) fun as (n, _, b) => (n, as, b),
       .free "nullable" bool fun b (n, as, _) => (n, as, b)]
      (⟨""⟩, [], false))

/-- A type parameter's fields. -/
def TypeRef.decodeParameter (type : Decoder TypeRef) : Decoder TypeRef :=
  map (fun (name, bounds, nullable) => .parameter name bounds nullable)
    (record
      [.needed "name" string fun n (_, ts, b) => (n, ts, b),
       .free "bounds" (list type) fun ts (n, _, b) => (n, ts, b),
       .free "nullable" bool fun b (n, ts, _) => (n, ts, b)]
      ("", [], false))

/-- A type, looked into as deep as `fuel` says. -/
def TypeRef.decodeWithin : Nat → Decoder TypeRef
  | 0, _, _ => .error .malformed
  | fuel + 1, s, j => do
    let (w, rest) ← tagged "kind" ["class", "parameter", "dynamic"] s j
    match w with
    | "class" => TypeRef.decodeNamed (decodeWithin fuel) .held rest
    | "parameter" => TypeRef.decodeParameter (decodeWithin fuel) .held rest
    | _ => record [] .dynamic .held rest

/-- A type. -/
def TypeRef.decode : Decoder TypeRef :=
  fun s j => decodeWithin (j.depth + 1) s j

/-! ## Declarations -/

/-- A value parameter. -/
def ValueParameter.decode : Decoder ValueParameter :=
  record
    [.needed "name" string fun n p => { p with name := n },
     .needed "type" TypeRef.decode fun t p => { p with type := t }]
    default

/-- A getter. -/
def Getter.decode : Decoder Getter :=
  record
    [.needed "return-type" TypeRef.decode fun t g => { g with returnType := t },
     .free "dispatch-receiver" (option TypeRef.decode) fun t g => { g with dispatchReceiver := t },
     .free "extension-receiver" (option TypeRef.decode) fun t g =>
       { g with extensionReceiver := t }]
    { returnType := .dynamic }

/-- A function's fields. -/
def FunctionDecl.decode : Decoder FunctionDecl :=
  record
    [.needed "fq-name" QualifiedName.decode fun n f => { f with name := n },
     .free "visibility" Visibility.decode fun v f => { f with visibility := v },
     .free "modifiers" Modifiers.decode fun m f => { f with modifiers := m },
     .free "annotations" (list QualifiedName.decode) fun as f => { f with annotations := as },
     .needed "return-type" TypeRef.decode fun t f => { f with returnType := t },
     .free "parameters" (list ValueParameter.decode) fun ps f => { f with parameters := ps },
     .free "dispatch-receiver" (option TypeRef.decode) fun t f => { f with dispatchReceiver := t },
     .free "extension-receiver" (option TypeRef.decode) fun t f =>
       { f with extensionReceiver := t },
     .free "inherited-from" (option TypeRef.decode) fun t f => { f with inheritedFrom := t }]
    { name := ⟨""⟩, returnType := .dynamic }

/-- A property's fields. -/
def PropertyDecl.decode : Decoder PropertyDecl :=
  record
    [.needed "fq-name" QualifiedName.decode fun n p => { p with name := n },
     .free "visibility" Visibility.decode fun v p => { p with visibility := v },
     .free "modifiers" Modifiers.decode fun m p => { p with modifiers := m },
     .free "annotations" (list QualifiedName.decode) fun as p => { p with annotations := as },
     .free "mutable" bool fun b p => { p with mutable := b },
     .free "getter" (option Getter.decode) fun g p => { p with getter := g },
     .free "backing-field" (option TypeRef.decode) fun t p => { p with backingField := t },
     .free "inherited-from" (option TypeRef.decode) fun t p => { p with inheritedFrom := t }]
    { name := ⟨""⟩ }

/-- A constructor's fields. -/
def ConstructorDecl.decode : Decoder ConstructorDecl :=
  record
    [.free "visibility" Visibility.decode fun v c => { c with visibility := v },
     .free "modifiers" Modifiers.decode fun m c => { c with modifiers := m },
     .free "primary" bool fun b c => { c with primary := b },
     .free "parameters" (list ValueParameter.decode) fun ps c => { c with parameters := ps },
     .free "dispatch-receiver" (option TypeRef.decode) fun t c => { c with dispatchReceiver := t }]
    {}

/-- A class's fields. -/
def ClassDecl.decodeWith (member : Decoder Declaration) : Decoder ClassDecl :=
  record
    [.needed "fq-name" QualifiedName.decode fun n c => { c with name := n },
     .free "kind" ClassKind.decode fun k c => { c with kind := k },
     .free "visibility" Visibility.decode fun v c => { c with visibility := v },
     .free "modifiers" Modifiers.decode fun m c => { c with modifiers := m },
     .free "annotations" (list QualifiedName.decode) fun as c => { c with annotations := as },
     .free "type-parameters" (list string) fun ps c => { c with typeParameters := ps },
     .free "supertypes" (list TypeRef.decode) fun ts c => { c with supertypes := ts },
     .free "declarations" (list member) fun ds c => { c with members := ds }]
    { name := ⟨""⟩ }

/-- A declaration, looked into as deep as `fuel` says. -/
def Declaration.decodeWithin : Nat → Decoder Declaration
  | 0, _, _ => .error .malformed
  | fuel + 1, s, j => do
    let (w, rest) ← tagged "decl" ["class", "function", "property", "constructor"] s j
    match w with
    | "class" => ClassDecl.toDeclaration <$> ClassDecl.decodeWith (decodeWithin fuel) .held rest
    | "function" => Declaration.function <$> FunctionDecl.decode .held rest
    | "property" => Declaration.property <$> PropertyDecl.decode .held rest
    | _ => Declaration.constructor <$> ConstructorDecl.decode .held rest

/-- A declaration. -/
def Declaration.decode : Decoder Declaration :=
  fun s j => decodeWithin (j.depth + 1) s j

/-- A class without a tag. -/
def ClassDecl.decode : Decoder ClassDecl := decodeWith Declaration.decode

/-! ## Modules -/

/-- A source file. -/
def SourceFile.decode : Decoder SourceFile :=
  record
    [.needed "path" string fun p f => { f with path := p },
     .free "package" string fun p f => { f with package := p },
     .free "declarations" (list Declaration.decode) fun ds f => { f with declarations := ds }]
    { path := "" }

/-- A module. -/
def SourceModule.decode : Decoder SourceModule :=
  record
    [.needed "name" string fun n m => { m with name := n },
     .free "files" (list SourceFile.decode) fun fs m => { m with files := fs },
     .free "dependencies" (list ClassDecl.decode) fun cs m => { m with dependencies := cs }]
    { name := "" }

/-- The type a document describes. -/
def TypeRef.ofDocument (d : Json.Document) : Except Fault TypeRef := TypeRef.decode.run d

/-- The declaration a document describes. -/
def Declaration.ofDocument (d : Json.Document) : Except Fault Declaration :=
  Declaration.decode.run d

/-- The module a document describes. -/
def SourceModule.ofDocument (d : Json.Document) : Except Fault SourceModule :=
  SourceModule.decode.run d

/-- The module a text describes. -/
def SourceModule.ofText (s : String) : Except Fault SourceModule :=
  ofDocument (.ofText s)

end ExportSurface
