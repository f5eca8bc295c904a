import CrateAtlas.Kind
import CrateAtlas.Node.Basic

/-!
# The node types of Rust

The node types of the Rust grammar that matter here, as classes of nodes.
-/

namespace CrateAtlas.Node

/-! ## Declarations -/

/-- The kind of element that a node type declares. -/
def itemKindOf : String → Option Kind
  | "function_item" | "function_signature_item" => some .function
  | "struct_item" => some .struct
  | "union_item" => some .union
  | "enum_item" => some .enum
  | "trait_item" => some .trait
  | "impl_item" => some .impl
  | "mod_item" => some .mod
  | "const_item" => some .constant
  | "static_item" => some .static
  | "type_item" | "associated_type" => some .typeAlias
  | "macro_definition" => some .macroRules
  | _ => none

/-- The kind of element that a node declares. -/
def itemKind? (node : Node) : Option Kind :=
  itemKindOf node.kind

/-- A foreign block, whose items belong to the scope around it. -/
def isForeignBlock (node : Node) : Bool :=
  node.kind == "foreign_mod_item"

/-- Items that may stand inside a function body and are looked at on their own. -/
def isNestedItem (node : Node) : Bool :=
  node.itemKind?.isSome || node.kind == "use_declaration" || node.kind == "extern_crate_declaration"

/-- Line and block comments. -/
def isComment (node : Node) : Bool :=
  node.kind == "line_comment" || node.kind == "block_comment"

/-- Attributes of the item that follows. -/
def isAttribute (node : Node) : Bool :=
  node.kind == "attribute_item"

/-- Attributes of the enclosing item. -/
def isInnerAttribute (node : Node) : Bool :=
  node.kind == "inner_attribute_item"

/-- Visibility modifiers. -/
def isVisibility (node : Node) : Bool :=
  node.kind == "visibility_modifier"

/-- Top-level imports. -/
def isUse (node : Node) : Bool :=
  node.kind == "use_declaration"

/-! ## Members -/

/-- Members that count for the size of a trait. -/
def isTraitMember (node : Node) : Bool :=
  ["function_item", "function_signature_item", "associated_type", "const_item",
    "macro_invocation"].contains node.kind

/-- Members that count for the size of an impl block. -/
def isImplMember (node : Node) : Bool :=
  ["function_item", "type_item", "const_item", "macro_invocation"].contains node.kind

/-- Variants of an enum. -/
def isVariant (node : Node) : Bool :=
  node.kind == "enum_variant"

/-- Parameters of a function. -/
def isParameter (node : Node) : Bool :=
  ["parameter", "self_parameter", "variadic_parameter"].contains node.kind

/-! ## Branching -/

/-- Conditionals. -/
def isIf (node : Node) : Bool :=
  node.kind == "if_expression" || node.kind == "if_let_expression"

/-- Loops of all forms. -/
def isLoop (node : Node) : Bool :=
  ["while_expression", "while_let_expression", "loop_expression", "for_expression"].contains
    node.kind

/-- Match expressions. -/
def isMatch (node : Node) : Bool :=
  node.kind == "match_expression"

/-- Arms of a match. -/
def isArm (node : Node) : Bool :=
  node.kind == "match_arm"

/-- Closures. -/
def isClosure (node : Node) : Bool :=
  node.kind == "closure_expression"

/-- Binary operations. -/
def isBinary (node : Node) : Bool :=
  node.kind == "binary_expression"

/-- Chains of conditions and patterns in a conditional. -/
def isLetChain (node : Node) : Bool :=
  node.kind == "let_chain"

/-- Return expressions. -/
def isReturn (node : Node) : Bool :=
  node.kind == "return_expression"

/-- The operators that do not always evaluate their second operand. -/
def isShortCircuit (node : Node) : Bool :=
  node.kind == "&&" || node.kind == "||"

/-! ## Tokens -/

/-- Names and literals, each taken as one operand. -/
def isOperand (node : Node) : Bool :=
  ["identifier", "field_identifier", "type_identifier", "primitive_type",
    "shorthand_field_identifier", "self", "crate", "super", "metavariable", "integer_literal",
    "float_literal", "string_literal", "raw_string_literal", "char_literal",
    "boolean_literal"].contains node.kind

/-- Separators and closing brackets are no operators. -/
def isSilentToken (token : String) : Bool :=
  [",", ";", ")", "]", "\x7d"].contains token

/-! ## Names in use -/

/-- Leaves of a use declaration that are paths of one segment. -/
def isPathLeaf (node : Node) : Bool :=
  ["identifier", "self", "crate", "super", "metavariable"].contains node.kind

/-- Callees that name a function by its path. -/
def isPathCallee (node : Node) : Bool :=
  node.kind == "identifier" || node.kind == "scoped_identifier"

/-- Names of types. -/
def isTypeName (node : Node) : Bool :=
  node.kind == "type_identifier" || node.kind == "scoped_type_identifier"

/-- Declarations of type parameters that wrap their name. -/
def isTypeParameter (node : Node) : Bool :=
  ["type_parameter", "constrained_type_parameter", "optional_type_parameter"].contains node.kind

end CrateAtlas.Node
