import CrateAtlas.Reference.Resolver

/-!
# Namespaces

The namespace of an element lists every name under which it can be reached, and says from
which modules it may be.
-/

namespace CrateAtlas

/-- Where an element is visible. -/
inductive Reach where
  | everywhere
  | crate
  | super
  | within
  | home
deriving DecidableEq, Repr

namespace Reach

/-- All reaches. -/
def all : List Reach := [everywhere, crate, super, within, home]

/-- The name of a reach in reports. -/
def name : Reach → String
  | everywhere => "public"
  | crate => "crate"
  | super => "super"
  | within => "module"
  | home => "private"

/-- The reach with a name. -/
def ofName? (name : String) : Option Reach :=
  all.find? fun reach => reach.name == name

end Reach

/-- Every name under which an element can be reached. -/
structure Namespace where
  elementId : String
  simpleName : String
  canonicalPath : String
  modulePath : String
  aliases : List String
  importPaths : List String
  isPublic : Bool
  reach : Reach
  restriction : Option String
deriving DecidableEq, Repr

namespace Namespace

/-- All names of an element. -/
def referenceNames (n : Namespace) : List String :=
  n.simpleName :: n.canonicalPath :: n.aliases ++ n.importPaths

/-- The outermost module from which an element is reachable, none if it is from anywhere. -/
def root? (n : Namespace) : Option String :=
  match n.reach with
  | .everywhere | .crate => none
  | .super =>
      let around := ScopePath.parent n.modulePath
      some (if around = "" then n.modulePath else around)
  | .within =>
      match n.restriction with
      | some restriction => some (if restriction = "" then n.modulePath else restriction)
      | none => some n.modulePath
  | .home => some n.modulePath

/-- Whether an element may be used in a module. -/
def isAccessibleFrom (n : Namespace) (home : String) : Bool :=
  match n.root? with
  | none => true
  | some root => ScopePath.within home root

end Namespace

/-! ## Visibility as reach -/

/-- How far an element can be seen, with the path of a restriction. -/
structure Sight where
  reach : Reach
  restriction : Option String
deriving DecidableEq, Repr

namespace Sight

/-- What stands between the first opening and the last closing parenthesis; without a
closing one the last character is cut. -/
def insideParentheses (text : String) : String :=
  let cs := text.toList
  match cs.findIdx? (· == '(') with
  | none => text
  | some start =>
      let stop := (Text.lastIndex? [')'] cs).getD (cs.length - 1)
      String.ofList (Text.trimChars ((cs.take stop).drop (start + 1)))

/-- The sight that a restriction gives in a module. -/
def ofRestriction (home restriction : String) : Sight :=
  let inner := insideParentheses restriction
  if Text.startsWith "in " inner then
    let path := Text.trim (String.ofList (inner.toList.drop 3))
    ⟨.within, (ScopePath.candidates path home).head?⟩
  else if inner = "self" then ⟨.home, none⟩
  else if Text.contains "crate" inner then ⟨.crate, none⟩
  else if Text.contains "super" inner then ⟨.super, none⟩
  else ⟨.home, none⟩

/-- The sight of an element; one without a visibility of its own is seen wherever its
nearest owner with one is, and everywhere if there is none. -/
def ofElement (model : FileModel) (element : Element) : Sight :=
  let deciding := (element :: model.owners element).find? fun e =>
    e.item.visibility ≠ .inherited
  match deciding with
  | none => ⟨.everywhere, none⟩
  | some owner =>
      match owner.item.visibility with
      | .pub | .inherited => ⟨.everywhere, none⟩
      | .priv => ⟨.home, none⟩
      | .restricted restriction => ofRestriction (model.enclosingModule owner) restriction

end Sight

/-! ## Namespaces of a run -/

/-- An import that reaches an element. -/
structure ImportPath where
  target : String
  asName : Option String
  path : String
deriving DecidableEq, Repr

namespace Resolver

/-- The imports of a file that reach an element. -/
def importPathsOf (resolver : Resolver) (model : FileModel) : List ImportPath :=
  model.imports.flatMap fun record =>
    record.names.filterMap fun name =>
      (resolver.lookupPath (ScopePath.join [record.modulePath, name]) model.modulePath).map
        fun target =>
          ⟨target, record.asName.filter fun asName => asName != "",
            ScopePath.join [model.modulePath, record.localName name]⟩

/-- All imports that reach an element. -/
def importPaths (resolver : Resolver) : List ImportPath :=
  resolver.files.flatMap resolver.importPathsOf

/-- The namespace of an element, given all imports. -/
def namespaceOf (imports : List ImportPath) (model : FileModel) (element : Element) : Namespace :=
  let own := imports.filter fun path => path.target == element.id
  let sight := Sight.ofElement model element
  { elementId := element.id
    simpleName := element.name
    canonicalPath := ScopePath.join [model.modulePath, element.qualifiedName]
    modulePath := model.enclosingModule element
    aliases := (own.filterMap ImportPath.asName).eraseDups
    importPaths := (own.map ImportPath.path).eraseDups
    isPublic := sight.reach = .everywhere
    reach := sight.reach
    restriction := sight.restriction }

/-- The namespaces of all elements, in the order of files and then of the source. -/
def namespaces (resolver : Resolver) : List Namespace :=
  let imports := resolver.importPaths
  resolver.files.flatMap fun model => model.elements.map (namespaceOf imports model)

end Resolver

end CrateAtlas
