import CrateAtlas.FileTree.Basic

/-!
# Writing into file trees

A file or a link is put at a path; the directories that lead there are made where they are
missing.  Making directories begins at the longest path and goes back to shorter ones only
while something on the way is missing.
-/

namespace CrateAtlas

/-- A path at which nothing can be written, and why. -/
structure WriteError where
  path : String
  error : PathError
deriving DecidableEq, Repr

/-- The wording of a refusal to write. -/
def WriteError.message (fault : WriteError) : String :=
  fault.error.message fault.path

namespace FileTree

/-- Make a directory in one that is there; it may be there itself. -/
def makeDirectory (top : FileTree) (path : String) : Except PathError FileTree :=
  match top.lookup path with
  | .ok ⟨_, directory _, _⟩ => .ok top
  | .ok _ => .error .alreadyThere
  | .error .notFound => do
      let parts := PosixPath.tailParts path
      let outer ← top.follow maxLinks [] parts.dropLast
      match outer.tree with
      | directory entries =>
          let name := (parts.getLast?).getD ""
          if entries.any fun entry => entry.1 == name then .error .alreadyThere
          else .ok (put empty (outer.path ++ [name]) top)
      | _ => .error .notDirectory
  | .error error => .error error

/-- Make the directory with the given components, innermost first, and those that lead to
it. -/
def makeDirectories (top : FileTree) : List String → Except WriteError FileTree
  | [] => .ok top
  | name :: outer =>
      let path := "/" ++ PosixPath.joinParts (name :: outer).reverse
      match top.makeDirectory path with
      | .ok made => .ok made
      | .error .notFound => do
          let made ← makeDirectories top outer
          (made.makeDirectory path).mapError fun error => ⟨path, error⟩
      | .error error => .error ⟨path, error⟩

/-- Put a file or a link at a path in a directory that is there.  A file that is there
already is replaced, also behind a link. -/
def putAt (top : FileTree) (path : String) (entry : FileTree) : Except PathError FileTree :=
  match top.lookup path with
  | .ok ⟨place, file _, _⟩ => .ok (put entry place top)
  | .ok _ => .error .isDirectory
  | .error .notFound => do
      let parts := PosixPath.tailParts path
      let outer ← top.follow maxLinks [] parts.dropLast
      .ok (put entry (outer.path ++ [(parts.getLast?).getD ""]) top)
  | .error error => .error error

/-- Put an entry at an absolute path, and make the directories that lead there. -/
def install (top : FileTree) (path : String) (entry : FileTree) : Except WriteError FileTree :=
  let parts := (PosixPath.tailParts path).reverse
  match entry with
  | directory _ => top.makeDirectories parts
  | _ => do
      let made ← top.makeDirectories parts.tail
      let shown := PosixPath.tidy path
      (made.putAt shown entry).mapError fun error => ⟨shown, error⟩

end FileTree

end CrateAtlas
