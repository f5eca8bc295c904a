import CrateAtlas.Text.Quoted

/-!
# Kinds of elements

The closed set of declaration kinds, with the names used in reports and the labels used
in element identifiers.
-/

namespace CrateAtlas

/-- What an element declares. -/
inductive Kind where
  | function
  | struct
  | enum
  | trait
  | impl
  | mod
  | constant
  | static
  | typeAlias
  | macroRules
  | union
deriving DecidableEq, Repr

namespace Kind

/-- All kinds, in the order of reports. -/
def all : List Kind :=
  [function, struct, enum, trait, impl, mod, constant, static, typeAlias, macroRules, union]

/-- The name of a kind in reports. -/
def name : Kind → String
  | function => "function"
  | struct => "struct"
  | enum => "enum"
  | trait => "trait"
  | impl => "impl"
  | mod => "module"
  | constant => "constant"
  | static => "static"
  | typeAlias => "type_alias"
  | macroRules => "macro"
  | union => "union"

/-- The label of a kind in element identifiers. -/
def label : Kind → String
  | function => "Function"
  | struct => "Struct"
  | enum => "Enum"
  | trait => "Trait"
  | impl => "Impl"
  | mod => "Module"
  | constant => "Constant"
  | static => "Static"
  | typeAlias => "TypeAlias"
  | macroRules => "Macro"
  | union => "Union"

/-- A name that belongs to no kind. -/
structure Unknown where
  name : String
deriving DecidableEq, Repr

/-- The wording of the refusal of a name. -/
def Unknown.message (fault : Unknown) : String :=
  Text.quoted fault.name ++ " is not a valid ElementKind"

/-- The kind with a name. -/
def ofName (name : String) : Except Unknown Kind :=
  match all.find? fun kind => kind.name == name with
  | some kind => .ok kind
  | none => .error ⟨name⟩

/-- Modules, impl blocks and traits open a scope for the items in their body. -/
def opensScope : Kind → Bool
  | mod | impl | trait => true
  | _ => false

end Kind

end CrateAtlas
