import CrateAtlas.ScopePath.Basic

/-!
# The absolute paths a written path may denote

A path written in a module is absolute when it starts with {lit}`crate`, relative to the
module when it starts with {lit}`self` or {lit}`super`, and otherwise may be meant from
the module or from the root of the crate.
-/

namespace CrateAtlas.ScopePath

/-- The segment that names the root of a crate. -/
def crateRoot : String := "crate"

/-- The heads that stand for the current module and the module around it. -/
def isRelativeHead (segment : String) : Bool :=
  segment == "self" || segment == "super"

/-- The module around a module; the root is its own. -/
def parentModule (home : String) : String :=
  let segments := split home
  if segments.length ≤ 1 then crateRoot else join segments.dropLast

/-- Walk the relative heads of a path, starting from a module: the module reached and the
segments left. -/
def followHeads : (base : String) → List String → String × List String
  | base, [] => (base, [])
  | base, segment :: rest =>
      if isRelativeHead segment then
        followHeads (if segment = "super" then parentModule base else base) rest
      else (base, segment :: rest)

/-- The absolute paths that a path written in a module may denote, best first. -/
def candidates (path home : String) : List String :=
  match split path with
  | [] => []
  | head :: rest =>
      if head = crateRoot then [join (head :: rest)]
      else if isRelativeHead head then
        let (base, left) := followHeads home (head :: rest)
        [join (base :: left)]
      else
        let here := join (home :: head :: rest)
        if home = crateRoot then [here] else [here, join (crateRoot :: head :: rest)]

end CrateAtlas.ScopePath
