import CrateAtlas.ElementId
import CrateAtlas.Kind

/-!
# Hierarchy of a file

While the declarations of a file are walked, a hierarchy keeps the stack of open scopes,
hands out identifiers with consecutive ordinals, and remembers which identifier was placed
in which scope.
-/

namespace CrateAtlas

/-- An open scope: the segment it adds to paths and the identifier of its owner. -/
structure Frame where
  segment : String
  owner : String
deriving DecidableEq, Repr

/-- The state of a walk: the open scopes, innermost first, the number of elements placed,
and a link from owner to element for each element placed in a scope, in order. -/
structure Hierarchy where
  filePath : String
  frames : List Frame
  placed : Nat
  links : List (String × String)
deriving DecidableEq, Repr

/-- Where an element sits. -/
structure Placement where
  id : String
  qualifiedName : String
  modulePath : String
  parentId : Option String
  nestingLevel : Nat
deriving DecidableEq, Repr

namespace Hierarchy

/-- The state at the start of a file. -/
def start (filePath : String) : Hierarchy :=
  ⟨filePath, [], 0, []⟩

/-- The path of the open scopes, outermost first. -/
def modulePath (h : Hierarchy) : String :=
  ScopePath.join (h.frames.reverse.map Frame.segment)

/-- The number of open scopes. -/
def depth (h : Hierarchy) : Nat :=
  h.frames.length

/-- The owner of the innermost scope. -/
def parent? (h : Hierarchy) : Option String :=
  h.frames.head?.map Frame.owner

/-- Where the next element will sit. -/
def next (h : Hierarchy) (kind : Kind) (name : String) : Placement :=
  let qualifiedName := ScopePath.join [h.modulePath, name]
  { id := ElementId.render ⟨h.filePath, kind.label, qualifiedName, h.placed + 1⟩
    qualifiedName := qualifiedName
    modulePath := h.modulePath
    parentId := h.parent?
    nestingLevel := h.depth }

/-- Place the next element in the innermost scope. -/
def place (h : Hierarchy) (kind : Kind) (name : String) : Hierarchy :=
  let link :=
    match h.parent? with
    | some owner => [(owner, (h.next kind name).id)]
    | none => []
  { h with placed := h.placed + 1, links := h.links ++ link }

/-- Open a scope. -/
def enter (h : Hierarchy) (segment owner : String) : Hierarchy :=
  { h with frames := ⟨segment, owner⟩ :: h.frames }

/-- Close the innermost scope; nothing happens when none is open. -/
def close (h : Hierarchy) : Hierarchy :=
  { h with frames := h.frames.tail }

/-- The elements placed while a scope of this owner was innermost, in order. -/
def childrenOf (h : Hierarchy) (owner : String) : List String :=
  (h.links.filter fun link => link.1 == owner).map Prod.snd

/-! ## Refusals -/

/-- Why a step is refused. -/
inductive Fault where
  /-- A scope is closed that was never opened. -/
  | noOpenScope
  /-- The file ends while scopes are open. -/
  | scopesOpen (count : Nat) (filePath : String)
deriving DecidableEq, Repr

/-- The wording of a refusal. -/
def Fault.message : Fault → String
  | noOpenScope => "exit_scope called without a matching enter_scope"
  | scopesOpen count filePath => s!"{count} scope(s) still open in {filePath}"

/-- Close the innermost scope, if there is one. -/
def exit (h : Hierarchy) : Except Fault Hierarchy :=
  if h.frames.isEmpty then .error .noOpenScope else .ok h.close

/-- The children of the given elements, once all scopes are closed. -/
def finish (h : Hierarchy) (ids : List String) : Except Fault (List (String × List String)) :=
  if h.frames.isEmpty then .ok (ids.map fun id => (id, h.childrenOf id))
  else .error (.scopesOpen h.frames.length h.filePath)

/-! ## Runs -/

/-- A step of a run. -/
inductive Step where
  | place (kind : Kind) (name : String)
  | enter (segment owner : String)
  | exit
  | scopedFailure (segment owner : String)
  | children (owner : String)
  | finish
deriving DecidableEq, Repr

/-- What a step answers. -/
inductive Answer where
  | done
  | placed (placement : Placement)
  | path (modulePath : String)
  | children (ids : List String)
  | finished (children : List (String × List String))
deriving DecidableEq, Repr

/-- A run: its hierarchy and the identifiers placed so far. -/
structure Run where
  hierarchy : Hierarchy
  ids : List String
deriving DecidableEq, Repr

/-- The run before the first step. -/
def Run.start (filePath : String) : Run :=
  ⟨.start filePath, []⟩

/-- Take one step; a step that is refused changes nothing.  A scope whose block fails is
opened, answers its path, and is closed again. -/
def Run.step (run : Run) : Step → Except Fault Answer × Run
  | .place kind name =>
      let placement := run.hierarchy.next kind name
      (.ok (.placed placement), ⟨run.hierarchy.place kind name, run.ids ++ [placement.id]⟩)
  | .enter segment owner => (.ok .done, { run with hierarchy := run.hierarchy.enter segment owner })
  | .exit =>
      match run.hierarchy.exit with
      | .ok hierarchy => (.ok .done, { run with hierarchy := hierarchy })
      | .error fault => (.error fault, run)
  | .scopedFailure segment owner =>
      let inside := run.hierarchy.enter segment owner
      (.ok (.path inside.modulePath), { run with hierarchy := inside.close })
  | .children owner => (.ok (.children (run.hierarchy.childrenOf owner)), run)
  | .finish => ((run.hierarchy.finish run.ids).map .finished, run)

end Hierarchy

end CrateAtlas
