import CrateAtlas.FileTree.Basic
import CrateAtlas.Glob.Match
import CrateAtlas.Settings.Basic

/-!
# Discovery of source files

A walk over a directory finds the source files that the settings select: first the files
of the directory by name, then those of its subdirectories by name.  Directories of version
control are left out, and so are directories that match an exclude pattern when a slash is
appended to their path.  Symbolic links are left out unless they are to be followed.
-/

namespace CrateAtlas.Discovery

/-- What a walk depends on. -/
structure Plan where
  top : FileTree
  selected : List String
  excluded : List String
  followLinks : Bool

/-- The paths found by a walk, as components below its root. -/
abbrev Walk := Except Glob.BadPattern (List (List String))

/-- What an entry of a directory is to a walk. -/
inductive Found where
  | file (viaLink : Bool)
  | directory (viaLink : Bool) (walk : Unit → Walk)
  | nothing

/-- Directories that are never searched. -/
def isVersionControl (name : String) : Bool :=
  name == ".git" || name == ".hg" || name == ".svn"

/-- Whether a name has the extension of source files. -/
def isSourceName (name : String) : Bool :=
  PosixPath.extension name == ".rs"

/-! ## One directory -/

/-- Whether a subdirectory is searched. -/
def keepsDirectory (plan : Plan) (here : List String) (name : String) (viaLink : Bool) :
    Except Glob.BadPattern Bool :=
  if isVersionControl name || (viaLink && !plan.followLinks) then .ok false
  else
    (Glob.testAny plan.excluded (PosixPath.joinParts (here ++ [name]) ++ "/")).map (!·)

/-- Whether a file is found. -/
def keepsFile (plan : Plan) (here : List String) (name : String) (viaLink : Bool) :
    Except Glob.BadPattern Bool :=
  if !isSourceName name || (viaLink && !plan.followLinks) then .ok false
  else Glob.selects plan.selected plan.excluded (PosixPath.joinParts (here ++ [name]))

/-- The walks of the subdirectories that are searched. -/
def keptWalks (plan : Plan) (here : List String) :
    List (String × Found) → Except Glob.BadPattern (List (Unit → Walk))
  | [] => .ok []
  | (name, .directory viaLink walk) :: rest => do
      let keep ← keepsDirectory plan here name viaLink
      let later ← keptWalks plan here rest
      return if keep then walk :: later else later
  | _ :: rest => keptWalks plan here rest

/-- The files of a directory that are found. -/
def keptFiles (plan : Plan) (here : List String) : List (String × Found) → Walk
  | [] => .ok []
  | (name, .file viaLink) :: rest => do
      let keep ← keepsFile plan here name viaLink
      let later ← keptFiles plan here rest
      return if keep then (here ++ [name]) :: later else later
  | _ :: rest => keptFiles plan here rest

/-- Run walks one after the other. -/
def runWalks : List (Unit → Walk) → Walk
  | [] => .ok []
  | walk :: rest => do
      let here ← walk ()
      let later ← runWalks rest
      return here ++ later

/-- The walk of a directory with given entries: it decides on the subdirectories, then on the
files, and then goes down. -/
def settle (plan : Plan) (here : List String) (entries : List (String × Found)) : Walk := do
  let sorted := entries.mergeSort fun a b => a.1 ≤ b.1
  let walks ← keptWalks plan here sorted
  let files ← keptFiles plan here sorted
  let below ← runWalks walks
  return files ++ below

/-! ## The walk -/

mutual

/-- What an entry is to a walk; {lit}`place` is where its directory stands, {lit}`here` the path
of the directory below the root of the walk, and {lit}`onLink` looks at a link. -/
def classify (plan : Plan) (onLink : List String → List String → String → Found)
    (place here : List String) (name : String) : FileTree → Found
  | .file _ => .file false
  | .link _ => onLink place here name
  | .directory entries =>
      .directory false fun _ =>
        settle plan (here ++ [name])
          (classifyAll plan onLink (place ++ [name]) (here ++ [name]) entries)

/-- What the entries of a directory are to a walk. -/
def classifyAll (plan : Plan) (onLink : List String → List String → String → Found)
    (place here : List String) : List (String × FileTree) → List (String × Found)
  | [] => []
  | (name, tree) :: rest =>
      (name, classify plan onLink place here name tree) ::
        classifyAll plan onLink place here rest

end

/-- The walk of a directory, which leads through at most {lit}`depth` links on any way down;
{lit}`linksLeft` more links may be followed. -/
def walkDirectory (plan : Plan) : (depth linksLeft : Nat) → (place here : List String) →
    List (String × FileTree) → Walk
  | 0, _, place, here, entries =>
      settle plan here (classifyAll plan (fun _ _ _ => .nothing) place here entries)
  | depth + 1, linksLeft, place, here, entries =>
      let onLink (place here : List String) (name : String) : Found :=
        match plan.top.follow linksLeft place.reverse [name] with
        | .ok ⟨_, .file _, _⟩ => .file true
        | .ok ⟨target, .directory inner, left⟩ =>
            .directory true fun _ => walkDirectory plan depth left target (here ++ [name]) inner
        | _ => .nothing
      settle plan here (classifyAll plan onLink place here entries)

/-- The outcome of a walk: the paths found, and the directories that could not be listed. -/
structure Outcome where
  paths : List String
  skipped : List String
deriving DecidableEq, Repr

/-- Why a walk fails. -/
inductive WalkError where
  | nullByte
  | badPattern (error : Glob.BadPattern)
deriving DecidableEq, Repr

/-- Walk below an absolute path in normal form; a path that leads to no directory is skipped. -/
def walk (plan : Plan) (root : String) : Except WalkError Outcome :=
  match plan.top.lookup root with
  | .ok ⟨place, .directory entries, left⟩ =>
      match walkDirectory plan (FileTree.maxLinks + 1) left place [] entries with
      | .ok found => .ok ⟨found.map fun parts => PosixPath.below root (PosixPath.joinParts parts), []⟩
      | .error error => .error (.badPattern error)
  | .error .nullByte => .error .nullByte
  | _ => .ok ⟨[], [root]⟩

/-- The plan of settings. -/
def Plan.of (top : FileTree) (settings : Settings) (followLinks : Bool) : Plan :=
  ⟨top, settings.selected, settings.excluded, followLinks⟩

/-- The source files below an absolute path in normal form, in increasing order; links are not
followed. -/
def sourceFiles (top : FileTree) (settings : Settings) (root : String) :
    Except WalkError (List String) :=
  (walk (Plan.of top settings false) root).map fun outcome =>
    outcome.paths.mergeSort fun a b => a ≤ b

/-- The source files below any path, for a process with a given working directory. -/
def discover (top : FileTree) (settings : Settings) (workingDirectory root : String) :
    Except WalkError (List String) :=
  sourceFiles top settings (PosixPath.absoluteFrom workingDirectory root)

end CrateAtlas.Discovery
