import CrateAtlas.Node.Source

/-!
# Syntax errors in a tree

A parser that recovers from errors leaves marks in the tree: nodes it could not make
sense of and nodes it inserted.  It also says of each node whether there is an error at
or below it.  A mark below another mark says nothing new, so the faults of a tree are the
marked nodes that lie under no other marked node.
-/

namespace CrateAtlas.Node

/-- Whether the parser says that there is an error at or below a node. -/
def hasError (node : Node) : Bool :=
  node.label.hasError

/-- The labels of the outermost marked nodes at and below a stack of nodes, the uppermost node
first.  A marked node is not looked into, and neither is a node that is said to have no error. -/
def searchFaults : (stack : List Node) → List Label
  | [] => []
  | node@(.mk label children) :: rest =>
      if label.faulty then label :: searchFaults rest
      else if node.hasError then searchFaults (children ++ rest)
      else searchFaults rest
termination_by stack => sizeAll stack
decreasing_by
  all_goals
    simp only [sizeAll_cons, sizeAll_append, size_mk]
    omega

/-- The labels of the outermost marked nodes of a tree, in source order. -/
def faults (root : Node) : List Label :=
  if root.hasError then searchFaults [root] else []

/-- Line, from one, and column, from zero, of the first fault. -/
def firstFault? (source : Source) (root : Node) : Option (Nat × Nat) :=
  root.faults.head?.map fun label => (source.row label.start + 1, source.column label.start)

end CrateAtlas.Node
