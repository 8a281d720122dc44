/-!
# Arguments

What the words on the command line ask for. Options are written `--name value`
or `--name=value`, and those of one letter also `-nvalue`, several flags in one
word; after `--` every word counts as it is. A value that looks like an option
must be attached or stand after `--`.
-/

namespace ExportSurface

/-- How often an option may be given, and whether it has a value. -/
inductive OptionArity where
  | flag
  | single
  | many
deriving DecidableEq, Repr, Inhabited

/-- An option that a command knows. -/
structure OptionSpec where
  long : String
  short : Option Char := none
  arity : OptionArity := .flag
  /-- Whether a value is admitted. -/
  admits : String → Bool := fun _ => true

/-- Why the words cannot be understood. -/
inductive UsageError where
  | unknownOption (word : String)
  | missingValue (option : String)
  | unexpectedValue (option : String)
  | invalidValue (option value : String)
  | repeated (option : String)
  | unexpectedWord (word : String)
  | missingWord (name : String)
  | missingCommand
deriving DecidableEq, Repr, Inhabited

/-- The wording of a usage error. -/
def UsageError.message : UsageError → String
  | .unknownOption word => "unexpected argument '" ++ word ++ "' found"
  | .missingValue option => "a value is required for '" ++ option ++ "' but none was supplied"
  | .unexpectedValue option => "unexpected value for '" ++ option ++ "' found"
  | .invalidValue option value => "invalid value '" ++ value ++ "' for '" ++ option ++ "'"
  | .repeated option => "the argument '" ++ option ++ "' cannot be used multiple times"
  | .unexpectedWord word => "unexpected argument '" ++ word ++ "' found"
  | .missingWord name => "the argument <" ++ name ++ "> was not provided"
  | .missingCommand => "a subcommand is required"

/-- Why reading the words ends early. -/
inductive Stop where
  | usage (error : UsageError)
  | help
  | version
deriving DecidableEq, Repr, Inhabited

/-- What was given: options by their long names with their values, and the
words that belong to no option. -/
structure Given where
  options : List (String × String) := []
  words : List String := []
deriving Inhabited

namespace Given

/-- Whether an option was given. -/
def has (g : Given) (name : String) : Bool := g.options.any (·.1 = name)

/-- The value of an option that was given. -/
def value? (g : Given) (name : String) : Option String := g.options.lookup name

/-- All values of an option, in order. -/
def values (g : Given) (name : String) : List String :=
  (g.options.filter (·.1 = name)).map (·.2)

/-- One more option, unless it may not be given again or the value is not
admitted. -/
def add (g : Given) (spec : OptionSpec) (value : String) : Except Stop Given :=
  if spec.arity ≠ .many && g.has spec.long then .error (.usage (.repeated spec.long))
  else if spec.arity ≠ .flag && !spec.admits value then
    .error (.usage (.invalidValue spec.long value))
  else .ok { g with options := g.options ++ [(spec.long, value)] }

end Given

/-- What a command understands. -/
structure CommandSpec where
  options : List OptionSpec
  /-- Whether the version can be asked for. -/
  hasVersion : Bool := false
  /-- Whether the first word names another command, which reads on. -/
  delegates : Bool := false
  /-- The most words that may be given, if there is a bound. -/
  maxWords : Option Nat := none

namespace CommandSpec

variable (c : CommandSpec)

/-- Whether a word is read as options where one may stand. -/
def looksLikeOption (word : String) : Bool :=
  match word.toList with
  | '-' :: _ :: _ => true
  | _ => false

/-- An option that still wants a value takes it from the next word. -/
def takeValue (spec : OptionSpec) (g : Given) (rest : List String) :
    Except Stop (Given × List String) :=
  match rest with
  | value :: rest =>
    if looksLikeOption value then .error (.usage (.missingValue spec.long))
    else do return (← g.add spec value, rest)
  | [] => .error (.usage (.missingValue spec.long))

/-- Reads a word that starts with two hyphens. -/
def readLong (body : List Char) (g : Given) (rest : List String) :
    Except Stop (Given × List String) :=
  let name := String.ofList (body.takeWhile (· ≠ '='))
  let attached := match body.dropWhile (· ≠ '=') with
    | _ :: value => some (String.ofList value)
    | [] => none
  match c.options.find? (·.long = name) with
  | some spec =>
    match spec.arity, attached with
    | .flag, some _ => .error (.usage (.unexpectedValue name))
    | .flag, none => do return (← g.add spec "", rest)
    | _, some value => do return (← g.add spec value, rest)
    | _, none => takeValue spec g rest
  | none =>
    if attached.isSome then .error (.usage (.unknownOption ("--" ++ name)))
    else if name = "help" then .error .help
    else if name = "version" && c.hasVersion then .error .version
    else .error (.usage (.unknownOption ("--" ++ name)))

/-- Reads the letters of a word that starts with one hyphen. -/
def readShort (rest : List String) : List Char → Given → Except Stop (Given × List String)
  | [], g => .ok (g, rest)
  | letter :: letters, g =>
    match c.options.find? (·.short = some letter) with
    | some spec =>
      if spec.arity = .flag then do readShort rest letters (← g.add spec "")
      else
        match letters with
        | [] => takeValue spec g rest
        | '=' :: value => do return (← g.add spec (String.ofList value), rest)
        | value => do return (← g.add spec (String.ofList value), rest)
    | none =>
      if letter = 'h' then .error .help
      else if letter = 'V' && c.hasVersion then .error .version
      else .error (.usage (.unknownOption (String.ofList ['-', letter])))

/-- One more word that belongs to no option. -/
def addWord (g : Given) (word : String) : Except Stop Given :=
  if c.maxWords.any (g.words.length ≥ ·) then .error (.usage (.unexpectedWord word))
  else .ok { g with words := g.words ++ [word] }

/-- Reads words: what they give, and the words left to another command. Each
step takes at least one word. -/
def read : Nat → Given → List String → Except Stop (Given × List String)
  | 0, g, rest => .ok (g, rest)
  | _, g, [] => .ok (g, [])
  | fuel + 1, g, word :: rest =>
    match word.toList with
    | ['-', '-'] => do return (← rest.foldlM c.addWord g, [])
    | '-' :: '-' :: body => do
      let (g, rest) ← c.readLong body g rest
      read fuel g rest
    | '-' :: letter :: letters => do
      let (g, rest) ← c.readShort rest (letter :: letters) g
      read fuel g rest
    | _ => do
      if c.delegates then return (g, word :: rest)
      else read fuel (← c.addWord g word) rest

end CommandSpec

/-! ## The commands -/

/-- What a run is asked to do. -/
inductive Command where
  /-- Run the export pass over a module. -/
  | analyze (input : String) (patterns : List String) (exportPatterns report output : Option String)
      (lenientProperties : Bool)
  /-- Show how a pattern compiles and which names it selects. -/
  | glob (pattern : String) (names : List String) (separator : Char)
deriving DecidableEq, Repr

/-- A command with the options common to all. -/
structure Invocation where
  verbose : Bool
  quiet : Bool
  command : Command
deriving DecidableEq, Repr

namespace Invocation

/-- The options common to all commands. -/
def commonOptions : List OptionSpec :=
  [{ long := "verbose", short := some 'v' }, { long := "quiet", short := some 'q' },
   { long := "no-color" }]

/-- The words before a command. -/
def rootSpec : CommandSpec :=
  { options := commonOptions, hasVersion := true, delegates := true, maxWords := some 0 }

/-- The words after `analyze`. -/
def analyzeSpec : CommandSpec where
  options := commonOptions ++
    [{ long := "pattern", short := some 'p', arity := .many },
     { long := "export-patterns", arity := .single },
     { long := "report", arity := .single },
     { long := "output", short := some 'o', arity := .single, admits := (· ≠ "") },
     { long := "lenient-properties" }]
  maxWords := some 1

/-- The words after `glob`. -/
def globSpec : CommandSpec where
  options := commonOptions ++
    [{ long := "separator", arity := .single, admits := (·.length = 1) }]

/-- A command with the common options given before or after its name. -/
def of (root given : Given) (command : Command) : Invocation where
  verbose := root.has "verbose" || given.has "verbose"
  quiet := root.has "quiet" || given.has "quiet"
  command

/-- What the words after `analyze` ask for. -/
def readAnalyze (root : Given) (rest : List String) : Except Stop Invocation := do
  let (g, _) ← analyzeSpec.read rest.length {} rest
  match g.words with
  | [] => .error (.usage (.missingWord "INPUT"))
  | input :: _ =>
    if input = "" then .error (.usage (.missingValue "INPUT"))
    else
      return of root g (.analyze input (g.values "pattern") (g.value? "export-patterns")
        (g.value? "report") (g.value? "output") (g.has "lenient-properties"))

/-- What the words after `glob` ask for. -/
def readGlob (root : Given) (rest : List String) : Except Stop Invocation := do
  let (g, _) ← globSpec.read rest.length {} rest
  match g.words with
  | [] => .error (.usage (.missingWord "PATTERN"))
  | pattern :: names =>
    let separator := ((g.value? "separator").bind (·.toList.head?)).getD '.'
    return of root g (.glob pattern names separator)

/-- What the words ask for. -/
def read (words : List String) : Except Stop Invocation := do
  let (root, rest) ← rootSpec.read words.length {} words
  match rest with
  | [] => .error (.usage .missingCommand)
  | "analyze" :: rest => readAnalyze root rest
  | "glob" :: rest => readGlob root rest
  | ["help"] | ["help", "analyze"] | ["help", "glob"] | ["help", "help"] => .error .help
  | "help" :: word :: _ => .error (.usage (.unexpectedWord word))
  | word :: _ => .error (.usage (.unexpectedWord word))

end Invocation

end ExportSurface
