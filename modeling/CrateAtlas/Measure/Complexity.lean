import CrateAtlas.Kind
import CrateAtlas.Measure.Branching
import CrateAtlas.Measure.Halstead
import CrateAtlas.Text.Blank

/-!
# Complexity of elements

Functions are measured in full.  Types have a baseline that counts their parts: one for
structs and unions, the variants of an enum, the members of a trait or an impl block, and
never less than one.  Other kinds have no complexity.
-/

namespace CrateAtlas

/-- How complex an element is, in four steps. -/
inductive Level where
  | low
  | medium
  | high
  | veryHigh
deriving DecidableEq, Repr

/-- The name of a level in reports. -/
def Level.name : Level → String
  | low => "low"
  | medium => "medium"
  | high => "high"
  | veryHigh => "very_high"

/-- The measures of a function. -/
structure Complexity where
  cyclomatic : Int
  cognitive : Int
  halstead : Halstead
  nestingDepth : Int
  parameterCount : Int
  returnCount : Int
  linesOfCode : Int
deriving DecidableEq, Repr

namespace Complexity

/-- A weighted sum of the measures, at least one. -/
def overallScore (c : Complexity) : Int :=
  max 1 (c.cyclomatic * 2 + c.cognitive + c.nestingDepth + c.returnCount)

/-- The level of the weighted sum. -/
def level (c : Complexity) : Level :=
  if c.overallScore ≤ 10 then .low
  else if c.overallScore ≤ 20 then .medium
  else if c.overallScore ≤ 50 then .high
  else .veryHigh

/-- The number of parameters of a function. -/
def parameters (node : Node) : Nat :=
  match node.child? "parameters" with
  | some list => list.namedChildren.countP Node.isParameter
  | none => 0

/-- Whether a line holds code: it is neither blank nor a line comment. -/
def isCodeLine (line : List Char) : Bool :=
  let stripped := Text.trimChars line
  !stripped.isEmpty && !(['/', '/'].isPrefixOf stripped)

/-- The number of lines of a node that hold code. -/
def codeLines (source : Source) (node : Node) : Nat :=
  (Text.lines (source.lenientText node.label)).countP isCodeLine

/-- The measures of a function. -/
def ofFunction (source : Source) (node : Node) : Complexity :=
  let branching := Branching.ofFunction node
  { cyclomatic := 1 + branching.branches
    cognitive := branching.weighted
    halstead := Halstead.ofFunction source node
    nestingDepth := branching.depth
    parameterCount := parameters node
    returnCount := branching.returns
    linesOfCode := codeLines source node }

/-- The number of parts in the body of a type. -/
def parts (node : Node) (isPart : Node → Bool) : Nat :=
  match node.child? "body" with
  | some body => body.namedChildren.countP isPart
  | none => 0

/-- The baseline of a type, none for other kinds. -/
def structural (kind : Kind) (node : Node) : Option Nat :=
  match kind with
  | .struct | .union => some 1
  | .enum => some (max 1 (parts node Node.isVariant))
  | .trait => some (max 1 (parts node Node.isTraitMember))
  | .impl => some (max 1 (parts node Node.isImplMember))
  | _ => none

/-- The measures of an element, for functions only. -/
def measured (source : Source) (kind : Kind) (node : Node) : Option Complexity :=
  if kind = .function then some (ofFunction source node) else none

/-- The complexity of an element: cyclomatic for functions, the baseline for types. -/
def value (source : Source) (kind : Kind) (node : Node) : Option Int :=
  match measured source kind node with
  | some measures => some measures.cyclomatic
  | none => (structural kind node).map Int.ofNat

end Complexity

end CrateAtlas
