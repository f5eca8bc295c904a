import CrateAtlas.FileModel

/-!
# Resolving references

A name is looked up in the file that uses it and in the whole crate.  In turn:

- {lit}`Self` is looked up in the scopes around the reference,
- a name bound by an import is looked up where the import says,
- the name itself is looked up in the file, then qualified by each scope around the
  reference,
- then as a path of the crate, relative to the enclosing module or to the root,
- and last in the modules of which everything is imported.

Of several elements with one name the first wins, where impl blocks come after everything
else in their file.
-/

namespace CrateAtlas

/-! ## Tables of names -/

/-- Names and the identifiers they denote; the first entry of a name counts. -/
abbrev NameTable := List (String × String)

namespace NameTable

/-- The first identifier of a name. -/
def get? (table : NameTable) (name : String) : Option String :=
  (table.find? fun entry => entry.1 == name).map Prod.snd

/-- The identifier of a name, or else of the name without generic arguments. -/
def lookup (table : NameTable) (name : String) : Option String :=
  match table.get? name with
  | some id => some id
  | none => table.get? (ScopePath.withoutSegmentGenerics name)

end NameTable

/-- Impl blocks carry the name of their type, so they come last. -/
def lookupOrder (elements : List Element) : List Element :=
  (elements.filter fun element => element.kind ≠ .impl) ++
    elements.filter fun element => element.kind = .impl

/-- The names under which an element is found: its qualified name, and the same without
generic arguments. -/
def lookupNames (element : Element) : List String :=
  let stripped := ScopePath.withoutSegmentGenerics element.qualifiedName
  if stripped = element.qualifiedName then [element.qualifiedName]
  else [element.qualifiedName, stripped]

namespace FileModel

/-! ## One file -/

/-- The names of a file, as its elements declare them. -/
def names (model : FileModel) : NameTable :=
  (lookupOrder model.elements).flatMap fun element =>
    (lookupNames element).map fun name => (name, element.id)

/-- The names of a file as paths of the crate. -/
def canonicalNames (model : FileModel) : NameTable :=
  model.names.map fun (name, id) => (ScopePath.join [model.modulePath, name], id)

/-- The names that the imports of a file bind, with the paths they stand for, in source
order. -/
def bindings (model : FileModel) : List (String × String) :=
  model.imports.flatMap fun record =>
    record.names.filterMap fun name =>
      let localName := record.localName name
      if localName = "_" then none
      else some (localName, ScopePath.join [record.modulePath, name])

/-- The path that an imported name stands for; the last import of a name counts. -/
def imported? (model : FileModel) (name : String) : Option String :=
  (model.bindings.reverse.find? fun binding => binding.1 == name).map Prod.snd

/-- The modules of which everything is imported. -/
def globs (model : FileModel) : List String :=
  (model.imports.filter ImportRecord.isGlob).map ImportRecord.modulePath

/-- The element of a file with an identifier. -/
def element? (model : FileModel) (id : String) : Option Element :=
  model.elements.reverse.find? fun element => element.id == id

/-- The parent of an element, found by its identifier. -/
def parentOf? (model : FileModel) (element : Element) : Option Element :=
  element.placement.parentId.bind model.element?

/-- What a climb from one element to the next passes in a number of turns. -/
def climb (next? : Element → Option Element) : (turns : Nat) → Element → List Element
  | 0, _ => []
  | turns + 1, element =>
      match next? element with
      | some next => next :: climb next? turns next
      | none => []

/-- The owners of an element, from the inside out.  A climb that is not over after one turn for each
element never ends. -/
def owners (model : FileModel) (element : Element) : List Element :=
  climb model.parentOf? model.elements.length element

/-- The module that encloses an element, inline modules included. -/
def enclosingModule (model : FileModel) (element : Element) : String :=
  let modules := (model.owners element).filter fun owner => owner.kind = .mod
  ScopePath.join (model.modulePath :: modules.reverse.map Element.name)

/-- Look a name up in a table, qualified by the scopes of a path given in reverse, the
longest qualification first. -/
def lookupScoped (table : NameTable) (name : String) : (reversed : List String) → Option String
  | [] => none
  | segment :: rest =>
      match table.lookup (ScopePath.join ((segment :: rest).reverse ++ [name])) with
      | some id => some id
      | none => lookupScoped table name rest

end FileModel

/-! ## All files -/

/-- What references are resolved against: the files of a run and the paths of the crate. -/
structure Resolver where
  files : List FileModel
  canonical : NameTable
deriving DecidableEq, Repr

namespace Resolver

/-- Add a file: it takes the place of an earlier file with the same path. -/
def register (model : FileModel) : List FileModel → List FileModel
  | [] => [model]
  | other :: rest =>
      if other.relativePath = model.relativePath then model :: rest
      else other :: register model rest

/-- The resolver of some files, in this order. -/
def ofFiles (files : List FileModel) : Resolver where
  files := files.foldl (fun known model => register model known) []
  canonical := files.flatMap FileModel.canonicalNames

/-- The first element that a path written in a module may denote. -/
def lookupPath (resolver : Resolver) (path home : String) : Option String :=
  (ScopePath.candidates path home).findSome? resolver.canonical.lookup

/-- The element that a path denotes through the imports of everything in a module. -/
def lookupGlobs (resolver : Resolver) (model : FileModel) (text : String) : Option String :=
  model.globs.findSome? fun glob =>
    resolver.lookupPath (ScopePath.join [glob, text]) model.modulePath

/-- The first of two answers. -/
def first (a : Option String) (b : Unit → Option String) : Option String :=
  match a with
  | some id => some id
  | none => b ()

/-- The element that a name denotes in a file; {lit}`scope` is the path of the scopes around
the reference and {lit}`home` the module that encloses it. -/
def resolveName (resolver : Resolver) (model : FileModel) (scope home text : String) :
    Option String :=
  match ScopePath.split text with
  | [] => none
  | head :: rest =>
      let around := (ScopePath.split scope).reverse
      if head = "Self" then FileModel.lookupScoped model.names (ScopePath.join rest) around
      else
        match model.imported? head with
        | some path => resolver.lookupPath (ScopePath.join (path :: rest)) model.modulePath
        | none =>
            first (model.names.lookup text) fun _ =>
            first (FileModel.lookupScoped model.names text around) fun _ =>
            first (resolver.lookupPath text home) fun _ =>
              if head = ScopePath.crateRoot ∨ ScopePath.isRelativeHead head then none
              else resolver.lookupGlobs model text

/-- The element that a reference denotes. -/
def resolve (resolver : Resolver) (model : FileModel) (reference : Reference) :
    Option String :=
  if reference.type = .importReference then
    resolver.lookupPath reference.text model.modulePath
  else
    match reference.origin.bind model.element? with
    | some element =>
        resolver.resolveName model element.placement.modulePath (model.enclosingModule element)
          reference.text
    | none => resolver.resolveName model "" model.modulePath reference.text

/-- A file with all its references resolved anew. -/
def resolveFile (resolver : Resolver) (model : FileModel) : FileModel :=
  { model with
    references := model.references.map fun reference =>
      { reference with target := resolver.resolve model reference } }

end Resolver

/-- A file with its references resolved against its own elements. -/
def FileModel.resolveAlone (model : FileModel) : FileModel :=
  (Resolver.ofFiles [model]).resolveFile model

/-- The model of a file, resolved against its own elements. -/
def FileModel.build (path : String) (file : SourceFile) (text : String) (root : Node) :
    Except FileModel.Fault FileModel :=
  (FileModel.unresolved path file text root).map FileModel.resolveAlone

end CrateAtlas
