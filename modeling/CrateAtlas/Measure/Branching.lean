import CrateAtlas.Node.Grammar

/-!
# Branching of function bodies

A walk over a function body counts its branches.  Conditionals, loops and short-circuit
operators are one branch each, a match with {lit}`n` arms has {lit}`n - 1`.  A branch
weighs one plus its nesting, which rises inside the bodies of conditionals, loops, match
arms and closures; an {lit}`else if` stays at the level of the conditional it continues.
Nested items and comments are left out.
-/

namespace CrateAtlas

/-- What a walk over a body has counted. -/
structure Branching where
  branches : Nat
  weighted : Nat
  depth : Nat
  returns : Nat
deriving DecidableEq, Repr

namespace Branching

/-- Nothing counted. -/
def zero : Branching := ⟨0, 0, 0, 0⟩

/-- Put two counts together: sums, and the larger depth. -/
def append (a b : Branching) : Branching :=
  ⟨a.branches + b.branches, a.weighted + b.weighted, max a.depth b.depth, a.returns + b.returns⟩

instance : Append Branching := ⟨append⟩

/-- Several branches at one nesting. -/
def branch (nesting count : Nat) : Branching :=
  ⟨count, count * (1 + nesting), 0, 0⟩

/-- A stretch at some nesting depth. -/
def atDepth (nesting : Nat) : Branching :=
  ⟨0, 0, nesting, 0⟩

/-- What a node that has no rule of its own for its children adds. -/
def own (nesting : Nat) (node : Node) : Branching :=
  if node.isBinary then
    match node.child? "operator" with
    | some operator => if operator.isShortCircuit then branch nesting 1 else zero
    | none => zero
  else if node.isLetChain then
    branch nesting (node.children.countP Node.isShortCircuit)
  else if node.isReturn then ⟨0, 0, 0, 1⟩
  else zero

/-- The arms of a match. -/
def arms (node : Node) : List Node :=
  match node.child? "body" with
  | some block => block.namedChildren.filter Node.isArm
  | none => []

mutual

/-- Count the branches at and below a node. -/
def walk (nesting : Nat) : Node → Branching
  | node@(.mk _ children) =>
      if node.isNestedItem || node.isComment then zero
      else if node.isIf then
        branch nesting 1 ++
          walkIf nesting (node.child? "consequence") (node.child? "alternative") children
      else if node.isLoop then
        branch nesting 1 ++ walkBody nesting (node.child? "body") children
      else if node.isMatch then
        branch nesting ((arms node).length - 1) ++ walkValue nesting children ++
          walkMatchBody nesting children
      else if node.isClosure then walkBody nesting (node.child? "body") children
      else own nesting node ++ walkNamed nesting children

/-- Count at and below the named nodes of a list. -/
def walkNamed (nesting : Nat) : List Node → Branching
  | [] => zero
  | node :: rest =>
      (if node.isNamed then walk nesting node else zero) ++ walkNamed nesting rest

/-- Count below a loop or closure, whose body is nested. -/
def walkBody (nesting : Nat) (body : Option Node) : List Node → Branching
  | [] => zero
  | node :: rest =>
      (if node.isNamed then
        if node.isAt body then atDepth (nesting + 1) ++ walk (nesting + 1) node
        else walk nesting node
      else zero) ++ walkBody nesting body rest

/-- Count below a conditional: its consequence is nested, and its alternative is passed
through. -/
def walkIf (nesting : Nat) (consequence alternative : Option Node) : List Node → Branching
  | [] => zero
  | node :: rest =>
      (if node.isNamed then
        if node.isAt consequence then atDepth (nesting + 1) ++ walk (nesting + 1) node
        else if node.isAt alternative then walkElse nesting node
        else walk nesting node
      else zero) ++ walkIf nesting consequence alternative rest

/-- Count below an alternative. -/
def walkElse (nesting : Nat) : Node → Branching
  | .mk _ children => walkElseChildren nesting children

/-- Count among the children of an alternative: a conditional continues at the same level,
everything else but comments is nested. -/
def walkElseChildren (nesting : Nat) : List Node → Branching
  | [] => zero
  | node :: rest =>
      (if node.isNamed then
        if node.isIf then walk nesting node
        else if node.isComment then zero
        else atDepth (nesting + 1) ++ walk (nesting + 1) node
      else zero) ++ walkElseChildren nesting rest

/-- Count at and below the value of a match, the first child under that field. -/
def walkValue (nesting : Nat) : List Node → Branching
  | [] => zero
  | node :: rest =>
      if node.label.field == "value" then walk nesting node else walkValue nesting rest

/-- Count below the body of a match, the first child under that field. -/
def walkMatchBody (nesting : Nat) : List Node → Branching
  | [] => zero
  | node :: rest =>
      if node.label.field == "body" then walkArms nesting node else walkMatchBody nesting rest

/-- Count the arms of a match body. -/
def walkArms (nesting : Nat) : Node → Branching
  | .mk _ children => walkArmsAmong nesting children

/-- Count among the children of a match body; only the arms matter, and they are nested. -/
def walkArmsAmong (nesting : Nat) : List Node → Branching
  | [] => zero
  | node :: rest =>
      (if node.isNamed && node.isArm then atDepth (nesting + 1) ++ walk (nesting + 1) node
      else zero) ++ walkArmsAmong nesting rest

end

/-- The branching of a function: that of its body, if it has one. -/
def ofFunction (node : Node) : Branching :=
  match node.child? "body" with
  | some body => walk 0 body
  | none => zero

end Branching

end CrateAtlas
