import CrateAtlas.Node.Source

/-!
# Cross references

A reference is a use of a name inside an element, or the path of a top-level import.  It
has a target once it is resolved.
-/

namespace CrateAtlas

/-- What a reference points at. -/
inductive ReferenceType where
  | functionCall
  | typeUsage
  | traitImplementation
  | macroInvocation
  | importReference
deriving DecidableEq, Repr

namespace ReferenceType

/-- All types of references. -/
def all : List ReferenceType :=
  [functionCall, typeUsage, traitImplementation, macroInvocation, importReference]

/-- The name of a type of references in reports. -/
def name : ReferenceType → String
  | functionCall => "function_call"
  | typeUsage => "type_usage"
  | traitImplementation => "trait_implementation"
  | macroInvocation => "macro_invocation"
  | importReference => "import_reference"

/-- The type of references with a name. -/
def ofName? (name : String) : Option ReferenceType :=
  all.find? fun type => type.name == name

end ReferenceType

/-- A use of a name: who makes it, what it says, where it stands, and what it denotes.
Imports are made by no element. -/
structure Reference where
  origin : Option String
  type : ReferenceType
  text : String
  location : Location
  scope : String
  target : Option String
deriving DecidableEq, Repr

/-- Whether a reference has a target. -/
def Reference.isResolved (reference : Reference) : Bool :=
  reference.target.isSome

end CrateAtlas
