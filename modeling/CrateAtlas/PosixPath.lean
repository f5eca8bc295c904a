import CrateAtlas.Text.Search
import CrateAtlas.Text.Quoted

/-!
# File paths

Paths are texts whose components are separated by slashes.  This file holds the
arithmetic on them: the normal form of an absolute path, the way from one absolute path
to another, the components of a relative path, and the parts of a file name.
-/

namespace CrateAtlas.PosixPath

/-- The pieces of a path between slashes. -/
def pieces (path : String) : List String :=
  Text.splitOn "/" path

/-- Join components by slashes. -/
def joinParts (parts : List String) : String :=
  String.ofList (['/'].intercalate (parts.map String.toList))

/-- Append a path below a directory. -/
def below (directory path : String) : String :=
  if Text.startsWith "/" path then path
  else if directory.toList.getLast? = some '/' ∨ directory = "" then directory ++ path
  else directory ++ "/" ++ path

/-! ## Absolute paths -/

/-- Resolve the empty, {lit}`.` and {lit}`..` components of an absolute path; {lit}`kept`
holds the components so far in reverse. -/
def resolveParts : (kept : List String) → List String → List String
  | kept, [] => kept.reverse
  | kept, part :: rest =>
      if part = "" ∨ part = "." then resolveParts kept rest
      else if part = ".." then resolveParts kept.tail rest
      else resolveParts (part :: kept) rest

/-- The components of an absolute path in normal form. -/
def absoluteParts (path : String) : List String :=
  resolveParts [] (pieces path)

/-- The normal form of an absolute path; exactly two leading slashes are kept. -/
def absolute (path : String) : String :=
  let root := if Text.startsWith "//" path && !Text.startsWith "///" path then "//" else "/"
  root ++ joinParts (absoluteParts path)

/-- The absolute form of a path, for a process with a given working directory. -/
def absoluteFrom (workingDirectory path : String) : String :=
  absolute (below workingDirectory path)

/-- The number of components that two paths share at the front. -/
def sharedCount : List String → List String → Nat
  | a :: as, b :: bs => if a = b then sharedCount as bs + 1 else 0
  | _, _ => 0

/-- The way from the directory {lit}`root` to {lit}`path`, both given by components. -/
def relativeParts (path root : List String) : List String :=
  let shared := sharedCount root path
  List.replicate (root.length - shared) ".." ++ path.drop shared

/-- The way from the directory {lit}`root` to {lit}`path`, both absolute. -/
def relative (path root : String) : String :=
  match relativeParts (absoluteParts path) (absoluteParts root) with
  | [] => "."
  | parts => joinParts parts

/-- The directory that holds an absolute path in normal form. -/
def directory (path : String) : String :=
  "/" ++ joinParts (absoluteParts path).dropLast

/-- The last component of an absolute path in normal form, empty for the root. -/
def baseName (path : String) : String :=
  ((absoluteParts path).getLast?).getD ""

/-! ## Components of any path -/

/-- The root of a path: one slash, two when there are exactly two, or nothing. -/
def anchor (path : String) : String :=
  if !Text.startsWith "/" path then ""
  else if Text.startsWith "//" path && !Text.startsWith "///" path then "//"
  else "/"

/-- The components below the root, without empty ones and {lit}`.`. -/
def tailParts (path : String) : List String :=
  (pieces path).filter fun part => part != "" && part != "."

/-- A path without superfluous slashes and {lit}`.` components. -/
def tidy (path : String) : String :=
  let text := anchor path ++ joinParts (tailParts path)
  if text = "" then "." else text

/-! ## File names -/

/-- Cut a file name before its last dot, unless that dot is the first or the last
character. -/
def splitSuffix (name : String) : String × String :=
  let cs := name.toList
  match Text.lastIndex? ['.'] cs with
  | some i =>
      if 0 < i ∧ i + 1 < cs.length then (String.ofList (cs.take i), String.ofList (cs.drop i))
      else (name, "")
  | none => (name, "")

/-- The last component of a path, empty if it has none. -/
def name (path : String) : String :=
  ((tailParts path).getLast?).getD ""

/-- The suffix of the last component, with its dot. -/
def suffix (path : String) : String :=
  (splitSuffix (name path)).2

/-- The extension of a file name: from the last dot on, unless only dots stand before it. -/
def extension (name : String) : String :=
  let cs := name.toList
  match Text.lastIndex? ['.'] cs with
  | some i => if (cs.take i).all (· == '.') then "" else String.ofList (cs.drop i)
  | none => ""

/-- A path without a file name: nothing can be cut from it. -/
structure EmptyName where
  path : String
deriving DecidableEq, Repr

/-- The wording of the refusal to cut a suffix. -/
def EmptyName.message (fault : EmptyName) : String :=
  "PurePosixPath(" ++ Text.quoted (tidy fault.path) ++ ") has an empty name"

/-- All components of a path, its root first, with the suffix of the last one cut off. -/
def partsWithoutSuffix (path : String) : Except EmptyName (List String) :=
  let root := if anchor path = "" then [] else [anchor path]
  match (tailParts path).getLast? with
  | none => .error ⟨path⟩
  | some last => .ok (root ++ (tailParts path).dropLast ++ [(splitSuffix last).1])

end CrateAtlas.PosixPath
