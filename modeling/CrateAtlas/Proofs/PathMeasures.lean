import CrateAtlas.Measure.Complexity
import CrateAtlas.Proofs.BranchingPaths
import Mathlib.Algebra.GroupWithZero.Nat

/-!
# Measures by paths

The nodes that the paths below a node reach can be listed, each once.  The walk over a function body
adds up over this list, so that every measure of a function is a sum, a count or a maximum over the
nodes that paths from its body reach.

Main results:

- Theorem {lit}`mem_reached_iff`: the list has the nodes that paths reach.
- Theorem {lit}`reached_nodup`: no position is listed twice.
- Theorem {lit}`walk_eq_reached`: a walk adds up what it meets on all paths.
- Theorem {lit}`ofFunction_eq_reached`: the measures of a function in terms of paths.
-/

namespace CrateAtlas

namespace Branching

variable {node child : Node}

/-! ## Listing the nodes that paths reach -/

/-- An edge below a node leads to a smaller node. -/
theorem size_lt_of_mem_edges {edge : Edge} (h : edge ∈ edges node) :
    edge.target.size < node.size := by
  have hleads := mem_edges_iff.mp h
  exact Node.size_lt_of_at? hleads.at?_eq hleads.way_ne_nil

/-- To show something of all nodes, show it of a node if it holds behind all of its edges. -/
theorem inductionOn_edges {motive : Node → Prop}
    (step : ∀ node, (∀ edge ∈ edges node, motive edge.target) → motive node) (node : Node) :
    motive node := by
  induction hsize : node.size using Nat.strong_induction_on generalizing node with
  | _ size ih =>
      apply step
      intro edge hedge
      exact ih edge.target.size (hsize ▸ size_lt_of_mem_edges hedge) edge.target rfl

/-- Whether paths end at a node. -/
def stops (node : Node) : Bool :=
  node.isNestedItem || node.isComment

/-- A node that a path reaches: its position, the node, and how many edges of the path are
nested. -/
structure Reached where
  position : Position
  node : Node
  nested : Nat

/-- What a path reaches that starts with an edge. -/
def Reached.behind (edge : Edge) (reached : Reached) : Reached :=
  ⟨edge.way ++ reached.position, reached.node, edge.nested + reached.nested⟩

/-- The nodes that paths below a node reach. -/
def reached (node : Node) : List Reached :=
  ⟨[], node, 0⟩ ::
    if stops node then []
    else (edges node).attach.flatMap fun edge => (reached edge.1.target).map (.behind edge.1)
termination_by node.size
decreasing_by exact size_lt_of_mem_edges edge.2

/-- A path is empty, or it starts with an edge. -/
theorem reached_eq (node : Node) :
    reached node = ⟨[], node, 0⟩ ::
      if stops node then []
      else (edges node).flatMap fun edge => (reached edge.target).map (.behind edge) := by
  rw [reached]
  simp only [List.flatMap_subtype, List.unattach_attach]

theorem reached_of_stops (h : stops node = true) : reached node = [⟨[], node, 0⟩] := by
  rw [reached_eq, if_pos h]

theorem reached_of_not_stops (h : stops node = false) :
    reached node = ⟨[], node, 0⟩ ::
      (edges node).flatMap fun edge => (reached edge.target).map (.behind edge) := by
  rw [reached_eq, if_neg (by simp [h])]

theorem stops_eq_false_iff :
    stops node = false ↔ node.isNestedItem = false ∧ node.isComment = false :=
  Bool.or_eq_false_iff

/-- The list has what paths reach, and nothing else. -/
theorem mem_reached_iff {r : Reached} :
    r ∈ reached node ↔ Route node r.position r.node r.nested := by
  constructor
  · induction node using inductionOn_edges generalizing r with
    | step node ih =>
        intro h
        cases hstops : stops node with
        | true =>
            rw [reached_of_stops hstops, List.mem_singleton] at h
            exact h ▸ .here
        | false =>
            rw [reached_of_not_stops hstops, List.mem_cons] at h
            rcases h with rfl | h
            · exact .here
            · obtain ⟨edge, hedge, h⟩ := List.mem_flatMap.mp h
              obtain ⟨inner, hinner, rfl⟩ := List.mem_map.mp h
              obtain ⟨hitem, hcomment⟩ := stops_eq_false_iff.mp hstops
              exact .step hitem hcomment (mem_edges_iff.mp hedge) (ih edge hedge hinner)
  · obtain ⟨position, target, nested⟩ := r
    intro h
    simp only at h
    induction h with
    | here =>
        rw [reached_eq]
        exact List.mem_cons_self
    | @step node way child nested position target inner hitem hcomment hleads _ ih =>
        rw [reached_of_not_stops (stops_eq_false_iff.mpr ⟨hitem, hcomment⟩)]
        refine List.mem_cons_of_mem _ (List.mem_flatMap.mpr ?_)
        exact ⟨⟨way, child, nested⟩, mem_edges_iff.mpr hleads, List.mem_map.mpr ⟨_, ih, rfl⟩⟩

/-- Paths lead to the nodes at their positions. -/
theorem Route.at?_eq {position : Position} {nested : Nat}
    (h : Route node position child nested) : node.at? position = some child := by
  induction h with
  | here => rfl
  | step _ _ hleads _ ih => rw [Node.at?_append, hleads.at?_eq, Option.bind_some, ih]

/-- Behind an edge, all positions start with its way. -/
theorem map_position_behind (edge : Edge) (rs : List Reached) :
    (rs.map (.behind edge)).map Reached.position =
      (rs.map Reached.position).map (edge.way ++ ·) := by
  rw [List.map_map, List.map_map]
  rfl

/-- No position is listed twice: paths part where their edges lead apart. -/
theorem reached_nodup (node : Node) : ((reached node).map Reached.position).Nodup := by
  induction node using inductionOn_edges with
  | step node ih =>
      cases hstops : stops node with
      | true => simp [reached_of_stops hstops]
      | false =>
          rw [reached_of_not_stops hstops, List.map_cons, List.map_flatMap, List.nodup_cons]
          constructor
          · intro hmem
            obtain ⟨edge, hedge, hmem⟩ := List.mem_flatMap.mp hmem
            rw [map_position_behind] at hmem
            obtain ⟨inner, _, hempty⟩ := List.mem_map.mp hmem
            exact (mem_edges_iff.mp hedge).way_ne_nil (List.append_eq_nil_iff.mp hempty).1
          · rw [List.nodup_flatMap]
            constructor
            · intro edge hedge
              rw [map_position_behind]
              exact (ih edge hedge).map (List.append_right_injective edge.way)
            · refine (edges_apart node).imp ?_
              intro a b hapart position ha hb
              simp only [map_position_behind] at ha hb
              obtain ⟨inner, _, rfl⟩ := List.mem_map.mp ha
              obtain ⟨other, _, heq⟩ := List.mem_map.mp hb
              exact (hapart.append inner other).ne heq.symm

/-! ## A walk along all paths -/

/-- Entering a deeper stretch once is as good as entering it for every part. -/
theorem sumOf_atDepth {α : Type} (depth : Nat) (f : α → Branching) {xs : List α} (h : xs ≠ []) :
    sumOf (fun x => atDepth depth ++ f x) xs = atDepth depth ++ sumOf f xs := by
  induction xs with
  | nil => contradiction
  | cons x xs ih =>
      cases xs with
      | nil => simp
      | cons y ys =>
          rw [sumOf_cons, ih (List.cons_ne_nil y ys), sumOf_cons _ x]
          simp only [append_def, atDepth, Branching.mk.injEq]
          omega

/-- A node behind a nested edge is looked at from one level deeper. -/
theorem look_behind (nesting nested : Nat) (node : Node) :
    look nesting (1 + nested) node = atDepth (nesting + 1) ++ look (nesting + 1) nested node := by
  have hdepth : nesting + (1 + nested) =
      max (nesting + 1) (if nested = 0 then 0 else nesting + 1 + nested) := by
    split <;> omega
  have hlevel : 1 + nesting + (1 + nested) = 1 + (nesting + 1) + nested := by
    omega
  simp only [look, append_def, atDepth, Nat.zero_add, ← hdepth, hlevel, Branching.mk.injEq,
    true_and, and_true]
  exact if_neg (by omega)

/-- A node where paths end counts for nothing. -/
theorem look_of_stops (nesting : Nat) (h : stops node = true) : look nesting 0 node = zero := by
  have hrole := role_of_stop h
  simp [look, weight, isIf_eq, isLoop_eq, isMatch_eq, isBinary_eq, isLetChain_eq, isReturn_eq,
    hrole, zero]

theorem walk_of_stops (nesting : Nat) (h : stops node = true) : walk nesting node = zero := by
  cases node
  rw [walk]
  exact if_pos h

/-- A walk adds up what it meets on all paths. -/
theorem walk_eq_reached (nesting : Nat) (h : node.everywhere Node.siblingsApart = true) :
    walk nesting node = sumOf (fun r => look nesting r.nested r.node) (reached node) := by
  induction node using inductionOn_edges generalizing nesting with
  | step node ih =>
      cases hstops : stops node with
      | true =>
          rw [walk_of_stops nesting hstops, reached_of_stops hstops, sumOf_cons,
            look_of_stops nesting hstops, sumOf_nil, zero_append]
      | false =>
          obtain ⟨hitem, hcomment⟩ := stops_eq_false_iff.mp hstops
          rw [walk_eq_edges nesting (Node.everywhere_iff.mp h).1 hitem hcomment,
            reached_of_not_stops hstops, sumOf_cons, sumOf_flatMap]
          congr 1
          apply sumOf_congr
          intro edge hedge
          have hleads := mem_edges_iff.mp hedge
          have hbelow := Node.everywhere_at? h hleads.at?_eq
          rw [sumOf_map]
          unfold follow
          by_cases hnested : edge.nested = 0
          · rw [if_pos hnested, ih edge hedge nesting hbelow]
            simp only [Reached.behind, hnested, Nat.zero_add]
          · have hone : edge.nested = 1 := by
              have hle := hleads.nested_le
              omega
            rw [if_neg hnested, enter, ih edge hedge (nesting + 1) hbelow,
              ← sumOf_atDepth _ _ (by rw [reached_eq]; exact List.cons_ne_nil _ _)]
            simp only [Reached.behind, hone, look_behind]

/-! ## The measures of a function -/

theorem sumOf_look_zero (rs : List Reached) :
    sumOf (fun r => look 0 r.nested r.node) rs =
      ⟨(rs.map fun r => weight r.node).sum,
        (rs.map fun r => weight r.node * (1 + r.nested)).sum,
        (rs.map Reached.nested).foldr max 0,
        rs.countP fun r => r.node.isReturn⟩ := by
  induction rs with
  | nil => rfl
  | cons r rs ih =>
      have hdepth : (if r.nested = 0 then 0 else 0 + r.nested) = r.nested := by
        split <;> omega
      rw [sumOf_cons, ih, look, hdepth]
      simp [append_def, List.countP_cons, Nat.add_comm]

end Branching

open Branching

namespace Complexity

/-- The measures of a function in terms of paths, if siblings can be told apart everywhere in its
body.  The nodes that paths from the body reach are listed once each; a node counts for its weight,
once for each nested edge of its path and once more for the cognitive measure. -/
theorem ofFunction_eq_reached (source : Source) (function : Node)
    (hapart : ∀ body, function.child? "body" = some body →
      body.everywhere Node.siblingsApart = true) :
    ∃ rs : List Reached, (rs.map Reached.position).Nodup ∧
      (∀ position node nested, ⟨position, node, nested⟩ ∈ rs ↔
        ∃ body, function.child? "body" = some body ∧ Route body position node nested) ∧
      (ofFunction source function).cyclomatic = 1 + ((rs.map fun r => weight r.node).sum : Nat) ∧
      (ofFunction source function).cognitive =
        ((rs.map fun r => weight r.node * (1 + r.nested)).sum : Nat) ∧
      (ofFunction source function).nestingDepth = ((rs.map Reached.nested).foldr max 0 : Nat) ∧
      (ofFunction source function).returnCount = (rs.countP fun r => r.node.isReturn : Nat) := by
  cases hbody : function.child? "body" with
  | none =>
      refine ⟨[], List.nodup_nil, ?_, ?_⟩
      · simp
      · simp [ofFunction, Branching.ofFunction, hbody, zero]
  | some body =>
      have hbranching : Branching.ofFunction function =
          sumOf (fun r => look 0 r.nested r.node) (reached body) := by
        rw [Branching.ofFunction, hbody]
        exact walk_eq_reached 0 (hapart body hbody)
      rw [sumOf_look_zero] at hbranching
      refine ⟨reached body, reached_nodup body, ?_, ?_⟩
      · intro position node nested
        rw [mem_reached_iff]
        simp
      · simp [ofFunction, hbranching]

end Complexity

/-! ## A function with every kind of branch -/

namespace Sample

/-- A conditional that goes on, with a loop, a match and a closure. -/
def branchyText : String :=
  "fn f()\x7bif a\x7breturn\x7delse if b&&c\x7bloop\x7bmatch d\x7b_=>0,_=>|x|x\x7d\x7d\x7d\x7d"

/-- The loop of that text. -/
def branchyLoop : Node :=
  node "loop_expression" "" 32 59
    [node "block" "body" 36 59
      [node "match_expression" "" 37 58
        [node "identifier" "value" 43 44 [],
          node "match_block" "body" 44 58
            [node "match_arm" "" 45 50
              [node "match_pattern" "pattern" 45 46 [], node "integer_literal" "value" 48 49 []],
            node "match_arm" "" 50 57
              [node "match_pattern" "pattern" 50 51 [],
                node "closure_expression" "value" 53 57
                  [node "closure_parameters" "parameters" 53 56 [],
                    node "identifier" "body" 56 57 []]]]]]]

/-- The tree of that text. -/
def branchy : Node :=
  node "function_item" "" 0 61
    [node "identifier" "name" 3 4 [], node "parameters" "parameters" 4 6 [],
      node "block" "body" 6 61
        [node "if_expression" "" 7 60
          [node "identifier" "condition" 10 11 [],
            node "block" "consequence" 11 19 [node "return_expression" "" 12 18 []],
            node "else_clause" "alternative" 19 60
              [node "if_expression" "" 24 60
                [node "binary_expression" "condition" 27 31
                  [node "identifier" "left" 27 28 [],
                    .mk ⟨"&&", false, false, false, 28, 30, "operator", false⟩ [],
                    node "identifier" "right" 30 31 []],
                  node "block" "consequence" 31 60 [branchyLoop]]]]]]

end Sample

/-- In the sample, five branches are reached: the first three at the level of the body, the loop one
level and the match two levels deeper. -/
theorem Complexity.ofFunction_eq_reached_sample :
    (∀ body, Sample.branchy.child? "body" = some body →
      body.everywhere Node.siblingsApart = true) ∧
    ∃ rs : List Reached, (rs.map Reached.position).Nodup ∧
      (∀ position node nested, ⟨position, node, nested⟩ ∈ rs ↔
        ∃ body, Sample.branchy.child? "body" = some body ∧ Route body position node nested) ∧
      (rs.map fun r => weight r.node).sum = 5 ∧
      (rs.map fun r => weight r.node * (1 + r.nested)).sum = 8 ∧
      (rs.map Reached.nested).foldr max 0 = 4 ∧
      (rs.countP fun r => r.node.isReturn) = 1 := by
  have hapart : ∀ body, Sample.branchy.child? "body" = some body →
      body.everywhere Node.siblingsApart = true := by
    have hsome :
        (Sample.branchy.child? "body").all (Node.everywhere Node.siblingsApart) = true := by
      decide +kernel
    intro body hbody
    rwa [hbody] at hsome
  have hmeasures : Branching.ofFunction Sample.branchy = ⟨5, 8, 4, 1⟩ := by
    decide +kernel
  obtain ⟨rs, hnodup, hmem, hcyclomatic, hcognitive, hdepth, hreturns⟩ :=
    Complexity.ofFunction_eq_reached Sample.branchyText.toUTF8.toList Sample.branchy hapart
  refine ⟨hapart, rs, hnodup, hmem, ?_⟩
  simp only [Complexity.ofFunction, hmeasures] at hcyclomatic hcognitive hdepth hreturns
  omega

end CrateAtlas
