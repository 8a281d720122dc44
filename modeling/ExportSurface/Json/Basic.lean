/-!
# JSON — values, also of faulty texts

A text is read into a tree even when it is not JSON: where reading meets a
fault the tree has a leaf for it. A `fault` stands for a value; a `gap` stands
at the end of an array or object where the next item, the next member's name
or the closing bracket should be.

What a reader of the tree makes of such a leaf depends on how it comes upon
it. A value that is wanted is *read*, and fails with the fault met. A value
that nobody asked for is *passed over*, and then only its brackets, quotes and
literals have to be right: an escape for half a surrogate pair, a numeral
beyond all bounds and nesting of any depth are no hindrance. A reader that is
*set* on one thing, a word or a closing bracket, looks at the next character
only, and takes what stands there for something else before it can see how
that ends. So the first fault in the order of the text decides, among those of
the text and those of its meaning alike.
-/

namespace ExportSurface

/-- What is wrong with a document. -/
inductive Fault where
  /-- The text ends too early. -/
  | truncated
  /-- The text is not JSON, or nests too deep. -/
  | malformed
  /-- The text is JSON of the wrong shape. -/
  | mismatched
deriving DecidableEq, Repr, Inhabited

/-- What stands where a fault is met: the text ends, or goes on wrongly. -/
def faultAt : List Char → Fault
  | [] => .truncated
  | _ :: _ => .malformed

/-- What readers make of a place that cannot be read. -/
structure Flaw where
  /-- The fault that a reader of any value meets. -/
  met : Fault
  /-- The fault that a reader passing over meets all the same. -/
  passed : Option Fault
  /-- The fault that a reader set on a word or a closing bracket meets. -/
  set : Fault
deriving DecidableEq, Repr, Inhabited

/-- A JSON value, or as much of one as a faulty text holds. Numerals are kept
as they are spelled. -/
inductive Json where
  | null
  | bool (value : Bool)
  | number (numeral : String)
  | string (value : String)
  | array (items : List Json)
  | object (members : List (String × Json))
  /-- A value that cannot be read. -/
  | fault (flaw : Flaw)
  /-- The last item of an array, or the value of an object's last member,
  where the text does not go on as an array or object does. -/
  | gap (flaw : Flaw)

namespace Json

instance : Inhabited Json := ⟨.null⟩

/-- A count as a JSON number. -/
def nat (n : Nat) : Json := .number (toString n)

/-- A list of texts. -/
def strings (ss : List String) : Json := .array (ss.map .string)

/-- A value that may be absent. -/
def option (toJson : α → Json) : Option α → Json
  | none => .null
  | some a => toJson a

mutual

/-- The first fault met when the value is read in full. -/
def readFault : Json → Option Fault
  | .array items => readFaultItems items
  | .object members => readFaultMembers members
  | .fault flaw | .gap flaw => some flaw.met
  | _ => none

/-- The first fault met when the items are read in full. -/
def readFaultItems : List Json → Option Fault
  | [] => none
  | v :: vs => (readFault v).or (readFaultItems vs)

/-- The first fault met when the members are read in full. -/
def readFaultMembers : List (String × Json) → Option Fault
  | [] => none
  | (_, v) :: ms => (readFault v).or (readFaultMembers ms)

end

mutual

/-- The first fault met when the value is passed over. -/
def passFault : Json → Option Fault
  | .array items => passFaultItems items
  | .object members => passFaultMembers members
  | .fault flaw | .gap flaw => flaw.passed
  | _ => none

/-- The first fault met when the items are passed over. -/
def passFaultItems : List Json → Option Fault
  | [] => none
  | v :: vs => (passFault v).or (passFaultItems vs)

/-- The first fault met when the members are passed over. -/
def passFaultMembers : List (String × Json) → Option Fault
  | [] => none
  | (_, v) :: ms => (passFault v).or (passFaultMembers ms)

end

/-- What is wrong with a value of another shape than wanted. -/
def wrongShape : Json → Fault
  | .fault flaw | .gap flaw => flaw.met
  | _ => .mismatched

mutual

/-- How many arrays and objects stand inside one another. -/
def depth : Json → Nat
  | .array items => depthItems items + 1
  | .object members => depthMembers members + 1
  | _ => 0

/-- The greatest depth among the items. -/
def depthItems : List Json → Nat
  | [] => 0
  | v :: vs => max (depth v) (depthItems vs)

/-- The greatest depth among the members. -/
def depthMembers : List (String × Json) → Nat
  | [] => 0
  | (_, v) :: ms => max (depth v) (depthMembers ms)

end

/-- The value of the first member with the name. -/
def member? (j : Json) (name : String) : Option Json :=
  match j with
  | .object members => members.lookup name
  | _ => none

/-- The arrays and objects that may stand inside one another. -/
def maxDepth : Nat := 127

end Json

end ExportSurface
