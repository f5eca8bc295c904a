import CrateAtlas.Kind
import CrateAtlas.Node.Grammar
import CrateAtlas.Reference.Basic
import CrateAtlas.ScopePath.Basic
import CrateAtlas.ScopePath.Normal

/-!
# The names an element uses

Functions use names in their parameters, result and body, types in their fields and
variants, traits in their bounds and impl blocks in their trait and self type.  Nested
items are elements of their own and do not count; modules and macros use nothing.

The places where names are used are found without reading the source; their texts are
read afterwards, in the same order.
-/

namespace CrateAtlas

/-- How a place uses a name. -/
inductive UsageForm where
  | implemented
  | typeName
  | callee
  | method
  | macroName
deriving DecidableEq, Repr

/-- The type of reference that a use of a name gives. -/
def UsageForm.referenceType : UsageForm → ReferenceType
  | implemented => .traitImplementation
  | typeName => .typeUsage
  | callee => .functionCall
  | method => .functionCall
  | macroName => .macroInvocation

/-- Generic arguments are dropped from paths, but not from the names of methods and
macros. -/
def UsageForm.reads : UsageForm → String → String
  | implemented, path => ScopePath.withoutGenerics path
  | typeName, path => ScopePath.withoutGenerics path
  | callee, path => ScopePath.withoutGenerics path
  | method, name => name
  | macroName, name => name

/-- A place where a name is used. -/
structure UsageSite where
  form : UsageForm
  label : Label
deriving DecidableEq, Repr

namespace UsageSite

/-! ## Finding the places -/

/-- How a node is looked at: as an expression or type, or as the callee of a call. -/
inductive Role where
  | ordinary
  | called
deriving DecidableEq, Repr

mutual

/-- The places at and below a node. -/
def walk (role : Role) : Node → List UsageSite
  | node@(.mk label children) =>
      if role = .called ∧ node.kind = "generic_function" then
        walkField "type_arguments" .ordinary children ++ walkField "function" .called children
      else if role = .called ∧ node.isPathCallee then [⟨.callee, label⟩]
      else if role = .called ∧ node.kind = "field_expression" then
        (match node.child? "field" with
        | some name => [⟨.method, name.label⟩]
        | none => []) ++ walkField "value" .ordinary children
      else if node.isComment || node.isNestedItem || node.isAttribute then []
      else if node.kind = "call_expression" then
        walkField "function" .called children ++ walkField "arguments" .ordinary children
      else if node.kind = "macro_invocation" then
        match node.child? "macro" with
        | some name => [⟨.macroName, name.label⟩]
        | none => []
      else if node.isTypeName then [⟨.typeName, label⟩]
      else walkNamed children

/-- The places at and below the first node under a field. -/
def walkField (field : String) (role : Role) : List Node → List UsageSite
  | [] => []
  | node :: rest =>
      if node.label.field == field then walk role node else walkField field role rest

/-- The places at and below the named nodes of a list. -/
def walkNamed : List Node → List UsageSite
  | [] => []
  | node :: rest => (if node.isNamed then walk .ordinary node else []) ++ walkNamed rest

end

/-- The fields of a declaration that are looked at elsewhere or not at all. -/
def skippedFields : Kind → List String
  | .trait => ["name", "body"]
  | .impl => ["name", "body", "trait"]
  | _ => ["name"]

/-- The children of a declaration in which its own uses of names are looked for. -/
def searched (kind : Kind) (node : Node) : List Node :=
  let skipped := (skippedFields kind).filterMap node.childIndex?
  (node.children.zipIdx.filter fun (child, i) => child.isNamed && !skipped.contains i).map
    Prod.fst

/-- The place where an impl block names its trait. -/
def implemented (kind : Kind) (node : Node) : List UsageSite :=
  if kind = .impl then
    match node.child? "trait" with
    | some trait => [⟨.implemented, trait.label⟩]
    | none => []
  else []

/-- The places where a declaration uses names. -/
def ofItem (kind : Kind) (node : Node) : List UsageSite :=
  implemented kind node ++ (searched kind node).flatMap (walk .ordinary)

end UsageSite

/-! ## Generic parameters -/

namespace Node

mutual

/-- The node that names a type parameter. -/
def parameterName? : Node → Option Node
  | node@(.mk _ children) =>
      if node.kind = "type_identifier" then some node
      else if node.isTypeParameter then
        match parameterNameUnder "name" children with
        | some found => found
        | none => (parameterNameUnder "left" children).getD none
      else none

/-- The node that names a type parameter, looked for at the first node under a field. -/
def parameterNameUnder (field : String) : List Node → Option (Option Node)
  | [] => none
  | node :: rest =>
      if node.label.field == field then some (parameterName? node)
      else parameterNameUnder field rest

end

/-- The nodes that name the type parameters of a declaration. -/
def parameterNames (node : Node) : List Node :=
  match node.child? "type_parameters" with
  | some parameters => parameters.namedChildren.filterMap parameterName?
  | none => []

end Node

/-- The names of the type parameters of a node and of the nodes around it, given from the
inside out. -/
def genericNames (source : Source) (chain : List Node) :
    Except Text.Utf8.Refusal (List String) :=
  (chain.flatMap Node.parameterNames).mapM fun node =>
    (source.text node.label).map ScopePath.normalize

/-! ## Reading the places -/

/-- A name used by an element. -/
structure Usage where
  type : ReferenceType
  text : String
  label : Label
deriving DecidableEq, Repr

namespace Usage

/-- Whether a type name says nothing about other elements: it is empty, starts with
{lit}`Self`, or starts with a type parameter in scope. -/
def isLocalType (generics : List String) (text : String) : Bool :=
  match ScopePath.split text with
  | [] => true
  | head :: _ => head == "Self" || generics.contains head

/-- Read the name used at a place. -/
def ofSite (source : Source) (generics : List String) (site : UsageSite) :
    Except Text.Utf8.Refusal (Option Usage) :=
  (source.text site.label).map fun written =>
    let text := site.form.reads (ScopePath.normalize written)
    if site.form = .typeName ∧ isLocalType generics text then none
    else if text = "" then none
    else some ⟨site.form.referenceType, text, site.label⟩

/-- The names used by a declaration, given the nodes around it from the inside out. -/
def ofItem (source : Source) (around : List Node) (kind : Kind) (node : Node) :
    Except Text.Utf8.Refusal (List Usage) :=
  if kind = .mod ∨ kind = .macroRules then .ok []
  else do
    let generics ← genericNames source (node :: around)
    let usages ← (UsageSite.ofItem kind node).mapM (ofSite source generics)
    return usages.filterMap id

end Usage

end CrateAtlas
