import ExportSurface.Text.Split
/-!
# Files

The program looks up a few paths and may write one file. It does so through
`Files`, which says what looking and writing come to; `FileTree` is the
instance in which all files are a value.
-/

namespace ExportSurface

/-! ## Paths -/

namespace Text

/-- Whether a path is taken from the top. -/
def isAbsolute (path : String) : Bool := path.toList.head? = some '/'

/-- A path as it is taken from a directory. -/
def joinPath (directory name : String) : String :=
  if isAbsolute name then name
  else if directory = "" || directory.toList.getLast? = some '/' then directory ++ name
  else directory ++ "/" ++ name

/-- The components of a path. -/
def components (path : String) : List String :=
  (pieces '/' path.toList).map String.ofList

/-- Whether a component leaves a path where it is. -/
def isIdle (component : String) : Bool := component = "" || component = "."

/-- Components up to the last one that leads somewhere. -/
def trimIdle (components : List String) : List String :=
  (components.reverse.dropWhile isIdle).reverse

/-- The path without its last component, if another one is left. Components
that lead nowhere go with it, unless the path starts with them. -/
def parentPath? (path : String) : Option String :=
  match (trimIdle (components path)).dropLast with
  | [] => none
  | first :: rest =>
    match first, trimIdle rest with
    | "", [] => some "/"
    | _, kept => some ("/".intercalate (first :: kept))

end Text

/-! ## Access -/

/-- What is found at a path. -/
inductive PathEntry where
  | missing
  | directory
  | file (content : String)
deriving DecidableEq, Repr, Inhabited

/-- Why a path leads nowhere, or nothing can be written where it leads. -/
inductive PathError where
  | missing
  | notDirectory
  | isDirectory
  | nameTooLong
deriving DecidableEq, Repr, Inhabited

/-- The wording of a path error. -/
def PathError.message : PathError → String
  | .missing => "No such file or directory (os error 2)"
  | .notDirectory => "Not a directory (os error 20)"
  | .isDirectory => "Is a directory (os error 21)"
  | .nameTooLong => "File name too long (os error 36)"

/-- Access to files. -/
structure Files (m : Type → Type) where
  look : String → m PathEntry
  /-- Writes a file, and tells what went wrong if it could not. -/
  write : (path content : String) → m (Option String)

/-! ## Trees -/

/-- Files and directories below one that goes by the name `mount`. Paths that
do not start with that name are taken from the working directory. -/
structure FileTree where
  mount : String
  working : List String
  files : List (List String × String)
  directories : List (List String)
deriving Inhabited

namespace FileTree

/-- A place in the tree, or `none` for the directories that it stands in. Out
there no name is known, and what is written is not kept. -/
abbrev Place := Option (List String)

/-- The place that a name leads to. -/
def child? (here : Place) (name : String) : Place := here.map (· ++ [name])

/-- The place above. -/
def above (here : Place) : Place :=
  match here with
  | none | some [] => none
  | some names => some names.dropLast

/-- Whether there is a directory at a place in the tree. -/
def hasDirectory (t : FileTree) (names : List String) : Bool :=
  names = [] || t.directories.any (names.isPrefixOf ·)
    || t.files.any fun (p, _) => names.isPrefixOf p && p ≠ names

/-- What is at a place. -/
def entryAt (t : FileTree) : Place → PathEntry
  | none => .directory
  | some names =>
    match t.files.lookup names with
    | some content => .file content
    | none => if t.hasDirectory names then .directory else .missing

/-- What a name leads to. -/
def entryOf (t : FileTree) (here : Place) (name : String) : PathEntry :=
  if here.isNone then .missing else t.entryAt (child? here name)

/-- The bytes that a name and a path may have. -/
def maxName : Nat := 255

@[inherit_doc maxName]
def maxPath : Nat := 4095

/-- The place that components lead to. Each of them has to be taken from a
directory. -/
def walk (t : FileTree) (here : Place) : List String → Except PathError Place
  | [] => .ok here
  | c :: cs =>
    if t.entryAt here ≠ .directory then .error .notDirectory
    else if Text.isIdle c then walk t here cs
    else if c = ".." then walk t (above here) cs
    else if c.utf8ByteSize > maxName then .error .nameTooLong
    else if t.entryOf here c = .missing then .error .missing
    else walk t (child? here c) cs

/-- Where a path starts, and the components it goes along from there. -/
def start (t : FileTree) (path : String) : Except PathError (Place × List String) :=
  if path = "" then .error .missing
  else if path.utf8ByteSize > maxPath then .error .nameTooLong
  else
    match Text.components path with
    | "" :: cs => .ok (none, cs)
    | c :: cs => if c = t.mount then .ok (some [], cs) else .ok (some t.working, c :: cs)
    | [] => .error .missing

/-- What is found at a path. -/
def look (t : FileTree) (path : String) : PathEntry :=
  let found := do
    let (here, cs) ← t.start path
    t.walk here cs
  match found with
  | .ok place => t.entryAt place
  | .error _ => .missing

/-- The tree with a file written, or what went wrong. The last component has
to be a name, and one with a slash behind it is taken for a directory's. -/
def write (t : FileTree) (path content : String) : Except PathError FileTree := do
  let (here, cs) ← t.start path
  let names := (cs.reverse.dropWhile (· = "")).reverse
  let last := names.getLastD "."
  let directory ← t.walk here names.dropLast
  if t.entryAt directory ≠ .directory then .error .notDirectory
  else if Text.isIdle last || last = ".." || cs.getLast? = some "" then .error .isDirectory
  else if last.utf8ByteSize > maxName then .error .nameTooLong
  else if t.entryOf directory last = .directory then .error .isDirectory
  else
    match directory with
    | none => .ok t
    | some names =>
      let place := names ++ [last]
      .ok { t with files := t.files.filter (·.1 ≠ place) ++ [(place, content)] }

/-- Access to the files of a tree. -/
def access : Files (StateM FileTree) where
  look path := return (← get).look path
  write path content := do
    match (← get).write path content with
    | .ok t =>
      set t
      return none
    | .error cause => return some cause.message

end FileTree

end ExportSurface
