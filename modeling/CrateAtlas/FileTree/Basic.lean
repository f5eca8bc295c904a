import CrateAtlas.Document.Basic
import CrateAtlas.Node.Source
import CrateAtlas.PosixPath

/-!
# File trees

A file tree holds files, directories and symbolic links.  A file comes with its bytes and
with what parsers make of them: a syntax tree, and a document unless they are malformed.
Looking up a path follows links, up to forty of them.  Names and paths have a largest number
of bytes, and a path with a null byte in it is no path.
-/

namespace CrateAtlas

/-! ## Errors -/

/-- Why nothing can be done at a path. -/
inductive PathError where
  | nullByte
  | notFound
  | alreadyThere
  | notDirectory
  | isDirectory
  | nameTooLong
  | tooManyLinks
deriving DecidableEq, Repr

namespace PathError

/-- The number of an error; a path with a null byte in it is refused without one. -/
def number? : PathError → Option Nat
  | nullByte => none
  | notFound => some 2
  | alreadyThere => some 17
  | notDirectory => some 20
  | isDirectory => some 21
  | nameTooLong => some 36
  | tooManyLinks => some 40

/-- The words of an error, without the path. -/
def words : PathError → String
  | nullByte => "embedded null byte"
  | notFound => "No such file or directory"
  | alreadyThere => "File exists"
  | notDirectory => "Not a directory"
  | isDirectory => "Is a directory"
  | nameTooLong => "File name too long"
  | tooManyLinks => "Too many levels of symbolic links"

/-- The wording of an error at a path. -/
def message (error : PathError) (path : String) : String :=
  match error.number? with
  | some number => s!"[Errno {number}] " ++ error.words ++ ": " ++ Text.quoted path
  | none => error.words

end PathError

/-! ## Trees -/

/-- The content of a file.  A parser of settings may also break off at it, as it does at a date
that there is not, without giving a document or refusing the file. -/
structure FileContent where
  bytes : Source
  root : Node
  document : Option Document
  breaksOff : Bool

/-- An entry of a file tree. -/
inductive FileTree where
  | file (content : FileContent)
  | link (target : String)
  | directory (entries : List (String × FileTree))

namespace FileTree

/-- A directory without entries. -/
def empty : FileTree := directory []

/-! ## Building -/

/-- Put an entry under a name, in the place of an earlier one. -/
def putEntry (name : String) (tree : FileTree) :
    List (String × FileTree) → List (String × FileTree)
  | [] => [(name, tree)]
  | (other, old) :: rest =>
      if other = name then (name, tree) :: rest else (other, old) :: putEntry name tree rest

/-- Put an entry at a path; directories on the way are made where they are missing, and a
directory that is already there stays. -/
def put (tree : FileTree) : List String → FileTree → FileTree
  | [], directory entries =>
      match tree with
      | directory [] => directory entries
      | _ => tree
  | [], _ => tree
  | name :: rest, directory entries =>
      let old := ((entries.find? fun entry => entry.1 == name).map Prod.snd).getD empty
      directory (putEntry name (put tree rest old) entries)
  | name :: rest, _ => directory [(name, put tree rest empty)]

/-! ## Looking up -/

/-- The entry at a path, without following links. -/
def entryAt? : FileTree → List String → Option FileTree
  | tree, [] => some tree
  | directory entries, name :: rest =>
      match entries.find? fun entry => entry.1 == name with
      | some entry => entryAt? entry.2 rest
      | none => none
  | _, _ :: _ => none

/-- Where a path leads: the place without links, what stands there, and how many more links
may be followed. -/
structure Place where
  path : List String
  tree : FileTree
  linksLeft : Nat

/-- The largest number of bytes in a name. -/
def maxNameBytes : Nat := 255

/-- Whether a name is longer than any name in a tree. -/
def isLongName (name : String) : Bool :=
  decide (maxNameBytes < name.utf8ByteSize)

/-- Follow the components of a path from a place given in reverse; {lit}`onLink` goes on at a
link. -/
def followWith (top : FileTree) (linksLeft : Nat)
    (onLink : List String → List String → Except PathError Place) :
    (here : List String) → List String → Except PathError Place
  | here, [] =>
      match top.entryAt? here.reverse with
      | some tree => .ok ⟨here.reverse, tree, linksLeft⟩
      | none => .error .notFound
  | here, part :: rest =>
      match top.entryAt? here.reverse with
      | some (directory entries) =>
          if part = "" ∨ part = "." then followWith top linksLeft onLink here rest
          else if part = ".." then followWith top linksLeft onLink here.tail rest
          else if isLongName part then .error .nameTooLong
          else
            match entries.find? fun entry => entry.1 == part with
            | none => .error .notFound
            | some (_, link target) =>
                onLink (if Text.startsWith "/" target then [] else here)
                  (PosixPath.pieces target ++ rest)
            | some _ => followWith top linksLeft onLink (part :: here) rest
      | some _ => .error .notDirectory
      | none => .error .notFound

/-- Follow the components of a path, and up to a number of links. -/
def follow (top : FileTree) : (links : Nat) → (here : List String) → List String →
    Except PathError Place
  | 0 => followWith top 0 fun _ _ => .error .tooManyLinks
  | links + 1 => followWith top (links + 1) (follow top links)

/-- The largest number of links that one path may lead through. -/
def maxLinks : Nat := 40

/-- The largest number of bytes in a path. -/
def maxPathBytes : Nat := 4095

/-- Refuse a path that cannot be looked up at all. -/
def checkPath (path : String) : Except PathError Unit :=
  if path.toList.contains '\x00' then .error .nullByte
  else if maxPathBytes < path.utf8ByteSize then .error .nameTooLong
  else .ok ()

/-- Where an absolute path leads. -/
def lookup (top : FileTree) (path : String) : Except PathError Place := do
  checkPath path
  top.follow maxLinks [] (PosixPath.pieces path)

/-- Where a path leads for a process whose working directory is at the place {lit}`here`. -/
def lookupFrom (top : FileTree) (here : List String) (path : String) : Except PathError Place :=
  if Text.startsWith "/" path then top.lookup path
  else do
    checkPath path
    top.follow maxLinks here.reverse (PosixPath.pieces path)

/-- The content of a file that was looked up. -/
def contentOf : Except PathError Place → Except PathError FileContent
  | .ok ⟨_, file content, _⟩ => .ok content
  | .ok _ => .error .isDirectory
  | .error error => .error error

/-- The content of the file at an absolute path. -/
def fileAt (top : FileTree) (path : String) : Except PathError FileContent :=
  contentOf (top.lookup path)

/-- The content of the file at a path, for a process in a working directory. -/
def fileFrom (top : FileTree) (here : List String) (path : String) :
    Except PathError FileContent :=
  contentOf (top.lookupFrom here path)

/-- Whether a path leads to a directory. -/
def isDirectoryAt (top : FileTree) (path : String) : Bool :=
  match top.lookup path with
  | .ok ⟨_, directory _, _⟩ => true
  | _ => false

end FileTree

end CrateAtlas
