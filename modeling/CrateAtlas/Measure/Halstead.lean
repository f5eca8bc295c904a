import CrateAtlas.Measure.Counts
import CrateAtlas.Measure.Quantity
import CrateAtlas.Node.Grammar
import CrateAtlas.Node.Source

/-!
# Halstead measures

The tokens of a function body are operands, which are names and literals, and operators,
which are all other leaves except separators and closing brackets.  The measures follow
from the numbers of tokens and of different tokens.
-/

namespace CrateAtlas

/-! ## Tokens -/

/-- A token of a function body. -/
inductive Token where
  | operator (text : String)
  | operand (text : String)
deriving DecidableEq, Repr

namespace Token

/-- The token that a leaf stands for, if any. -/
def ofLeaf (text : String) : Option Token :=
  if text = "" ∨ Node.isSilentToken text then none else some (operator text)

mutual

/-- The tokens at and below a node, from left to right. -/
def below (source : Source) : Node → List Token
  | node@(.mk label children) =>
      if node.isComment || node.isNestedItem then []
      else if node.isOperand then [operand (source.lenientText label)]
      else if children.isEmpty then (ofLeaf (source.lenientText label)).toList
      else belowAll source children

/-- The tokens at and below several nodes. -/
def belowAll (source : Source) : List Node → List Token
  | [] => []
  | node :: rest => below source node ++ belowAll source rest

end

end Token

/-! ## Tallies -/

/-- How often each operator and each operand was seen. -/
structure Tally where
  operators : Counts
  operands : Counts
deriving DecidableEq, Repr

namespace Tally

/-- Nothing seen. -/
def empty : Tally := ⟨[], []⟩

/-- Count one more token. -/
def add (tally : Tally) : Token → Tally
  | .operator text => { tally with operators := tally.operators.add text 1 }
  | .operand text => { tally with operands := tally.operands.add text 1 }

/-- Count a token that may be missing. -/
def addSome (tally : Tally) : Option Token → Tally
  | some token => tally.add token
  | none => tally

/-- Count the tokens below a stack of nodes, the uppermost node first: a node without a
token of its own makes room for its children. -/
def collect (source : Source) : (stack : List Node) → Tally → Tally
  | [], tally => tally
  | node@(.mk label children) :: rest, tally =>
      if node.isComment || node.isNestedItem then collect source rest tally
      else if node.isOperand then
        collect source rest (tally.add (.operand (source.lenientText label)))
      else if children.isEmpty then
        collect source rest (tally.addSome (Token.ofLeaf (source.lenientText label)))
      else collect source (children ++ rest) tally
termination_by stack => Node.sizeAll stack
decreasing_by
  all_goals
    simp only [Node.sizeAll_cons, Node.sizeAll_append, Node.size_mk]
    omega

end Tally

/-- Numbers of different operators and operands, and of all operators and operands. -/
structure Halstead where
  distinctOperators : Int
  distinctOperands : Int
  operators : Int
  operands : Int
deriving DecidableEq, Repr

namespace Halstead

/-- The numbers of a tally. -/
def ofTally (tally : Tally) : Halstead :=
  ⟨tally.operators.length, tally.operands.length, tally.operators.total, tally.operands.total⟩

/-- The numbers of a function: those of its body, if it has one. -/
def ofFunction (source : Source) (node : Node) : Halstead :=
  match node.child? "body" with
  | some body => ofTally (Tally.collect source [body] .empty)
  | none => ofTally .empty

/-! ## Derived measures -/

/-- Number of different tokens. -/
def vocabulary (h : Halstead) : Int :=
  h.distinctOperators + h.distinctOperands

/-- Number of tokens. -/
def length (h : Halstead) : Int :=
  h.operators + h.operands

/-- The length that the numbers of different tokens suggest. -/
def calculatedLength (h : Halstead) : Quantity :=
  if h.distinctOperators = 0 ∨ h.distinctOperands = 0 then .ok 0.0
  else do
    let operators ← Quantity.bits h.distinctOperators h.distinctOperators
    let operands ← Quantity.bits h.distinctOperands h.distinctOperands
    return operators + operands

/-- The size of the body in bits. -/
def volume (h : Halstead) : Quantity :=
  if h.vocabulary = 0 then .ok 0.0 else Quantity.bits h.length h.vocabulary

/-- How hard the body is to write. -/
def difficulty (h : Halstead) : Quantity :=
  if h.distinctOperands = 0 then .ok 0.0
  else do
    let operators ← Quantity.ofInt h.distinctOperators
    let uses ← Quantity.quotient h.operands h.distinctOperands
    return operators / 2.0 * uses

/-- The effort of writing the body. -/
def effort (h : Halstead) : Quantity := do
  let difficulty ← h.difficulty
  let volume ← h.volume
  return difficulty * volume

end Halstead

end CrateAtlas
