/-!
# Concrete syntax trees

A node of a concrete syntax tree carries a label and its children in source order, named
nodes and bare tokens alike.  The label holds the type of the node, the byte span it
covers, the field under which its parent knows it, marks for nodes that the parser
named, inserted, or could not make sense of, and what the parser says about errors at
and below the node.
-/

namespace CrateAtlas

/-- What a syntax node carries besides its children. -/
structure Label where
  kind : String
  named : Bool
  missing : Bool
  error : Bool
  start : Nat
  stop : Nat
  field : String
  hasError : Bool
deriving DecidableEq, Repr, Inhabited

/-- Whether the parser inserted the node or could not make sense of it. -/
def Label.faulty (label : Label) : Bool :=
  label.error || label.missing

/-- Two labels describe the same place when spans and types agree. -/
def Label.samePlace (a b : Label) : Bool :=
  a.start == b.start && a.stop == b.stop && a.kind == b.kind

/-- A node of a concrete syntax tree. -/
inductive Node where
  | mk (label : Label) (children : List Node)

namespace Node

/-- A bare token without text. -/
def empty : Node := mk default []

instance : Inhabited Node := ⟨empty⟩

/-- The label of a node. -/
def label : Node → Label
  | mk label _ => label

/-- The children of a node, in source order. -/
def children : Node → List Node
  | mk _ children => children

@[simp]
theorem label_mk (label : Label) (children : List Node) : (mk label children).label = label :=
  rfl

@[simp]
theorem children_mk (label : Label) (children : List Node) :
    (mk label children).children = children :=
  rfl

/-! ## Sizes -/

mutual

/-- The number of nodes at and below a node. -/
def size : Node → Nat
  | mk _ children => 1 + sizeAll children

/-- The number of nodes at and below several nodes. -/
def sizeAll : List Node → Nat
  | [] => 0
  | node :: rest => size node + sizeAll rest

end

@[simp]
theorem size_mk (label : Label) (children : List Node) :
    size (mk label children) = 1 + sizeAll children := by
  simp [size]

@[simp]
theorem sizeAll_nil : sizeAll [] = 0 := by
  simp [sizeAll]

@[simp]
theorem sizeAll_cons (node : Node) (rest : List Node) :
    sizeAll (node :: rest) = node.size + sizeAll rest := by
  simp [sizeAll]

@[simp]
theorem sizeAll_append (xs ys : List Node) : sizeAll (xs ++ ys) = sizeAll xs + sizeAll ys := by
  induction xs with
  | nil => simp
  | cons node rest ih => simp [ih, Nat.add_assoc]

@[simp]
theorem sizeAll_reverse (nodes : List Node) : sizeAll nodes.reverse = sizeAll nodes := by
  induction nodes with
  | nil => rfl
  | cons node rest ih =>
      rw [List.reverse_cons, sizeAll_append, sizeAll_cons, sizeAll_nil, sizeAll_cons, ih]
      omega

/-- Fewer nodes have no more nodes below them. -/
theorem sizeAll_le_of_sublist {xs ys : List Node} (h : xs.Sublist ys) :
    sizeAll xs ≤ sizeAll ys := by
  induction h with
  | slnil => exact Nat.le_refl _
  | cons node _ ih =>
      rw [sizeAll_cons]
      omega
  | cons_cons node _ ih =>
      rw [sizeAll_cons, sizeAll_cons]
      omega

/-- There is at least the node itself. -/
theorem size_pos (node : Node) : 0 < node.size := by
  cases node
  simp only [size_mk]
  omega

/-! ## Types and fields -/

/-- The type of a node. -/
def kind (node : Node) : String :=
  node.label.kind

/-- Whether the node is named, as opposed to a bare token. -/
def isNamed (node : Node) : Bool :=
  node.label.named

/-- The named children of a node. -/
def namedChildren (node : Node) : List Node :=
  node.children.filter isNamed

/-- The first child that stands under a field. -/
def child? (node : Node) (field : String) : Option Node :=
  node.children.find? fun child => child.label.field == field

/-- Position of the first child that stands under a field. -/
def childIndex? (node : Node) (field : String) : Option Nat :=
  node.children.findIdx? fun child => child.label.field == field

/-- Whether two nodes describe the same place; a node that is absent is at no place. -/
def isAt (node : Node) (other : Option Node) : Bool :=
  match other with
  | some o => node.label.samePlace o.label
  | none => false

end Node

end CrateAtlas
