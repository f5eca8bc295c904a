import CrateAtlas.Proofs.Declared
import CrateAtlas.Proofs.PathMeasures

/-!
# Bounds of complexity

A walk over a function body weighs each branch by the nesting at which it stands.  It never leaves
the nesting where it started, and it records each deeper one before it counts anything there.  Hence
the weight of all branches lies between their number and their number times the deepest weight.

Main results:

- Theorem {lit}`Branching.walk_bounded`: the weight of what a walk counts.
- Theorem {lit}`Complexity.ofFunction_bounded`: cyclomatic against cognitive complexity.
- Theorem {lit}`complexity_bounded`: bounds for all functions and for the elements of all files.
-/

namespace CrateAtlas

namespace Branching

variable {nesting : Nat} {a b : Branching} {node : Node}

/-! ## Counting with weights -/

/-- Every branch was weighed at the nesting where a walk started, at the deepest one that it has
recorded, or in between. -/
structure Bounded (nesting : Nat) (b : Branching) : Prop where
  least : b.branches * (1 + nesting) ≤ b.weighted
  most : b.weighted ≤ b.branches * (1 + max nesting b.depth)

theorem Bounded.weighted_le (h : Bounded nesting b) (depth : Nat)
    (hdepth : max nesting b.depth ≤ depth) : b.weighted ≤ b.branches * (1 + depth) :=
  Nat.le_trans h.most (Nat.mul_le_mul_left _ (Nat.add_le_add_left hdepth 1))

theorem bounded_of_not_branching (hbranches : b.branches = 0) (hweighted : b.weighted = 0) :
    Bounded nesting b where
  least := by simp [hbranches]
  most := by simp [hweighted]

theorem bounded_zero (nesting : Nat) : Bounded nesting zero :=
  bounded_of_not_branching rfl rfl

theorem bounded_branch (nesting count : Nat) : Bounded nesting (branch nesting count) where
  least := Nat.le_refl _
  most := Nat.mul_le_mul_left count (Nat.add_le_add_left (Nat.le_max_left nesting 0) 1)

theorem Bounded.append (ha : Bounded nesting a) (hb : Bounded nesting b) :
    Bounded nesting (a ++ b) where
  least := by
    calc
      (a.branches + b.branches) * (1 + nesting) =
          a.branches * (1 + nesting) + b.branches * (1 + nesting) := Nat.add_mul ..
      _ ≤ a.weighted + b.weighted := Nat.add_le_add ha.least hb.least
  most := by
    -- The depth of both together is large enough for each.
    have hmost := ha.weighted_le (max nesting (max a.depth b.depth)) (by omega)
    have hmost' := hb.weighted_le (max nesting (max a.depth b.depth)) (by omega)
    calc
      a.weighted + b.weighted ≤
          a.branches * (1 + max nesting (max a.depth b.depth)) +
            b.branches * (1 + max nesting (max a.depth b.depth)) := Nat.add_le_add hmost hmost'
      _ = (a.branches + b.branches) * (1 + max nesting (max a.depth b.depth)) :=
        (Nat.add_mul ..).symm

theorem bounded_sumOf {α : Type} {f : α → Branching} {xs : List α}
    (h : ∀ x ∈ xs, Bounded nesting (f x)) : Bounded nesting (sumOf f xs) := by
  induction xs with
  | nil => exact bounded_zero nesting
  | cons x xs ih =>
      obtain ⟨hx, hxs⟩ := List.forall_mem_cons.mp h
      exact hx.append (ih hxs)

/-- What was counted one level deeper is bounded if this level is recorded. -/
theorem Bounded.deeper (h : Bounded (nesting + 1) b) :
    Bounded nesting (atDepth (nesting + 1) ++ b) := by
  have hleast : b.branches * (1 + nesting) ≤ b.weighted :=
    Nat.le_trans (Nat.mul_le_mul_left _ (Nat.le_succ (1 + nesting))) h.least
  have hmost := h.weighted_le (max nesting (max (nesting + 1) b.depth)) (by omega)
  constructor
  · simpa [append_def, atDepth] using hleast
  · simpa [append_def, atDepth] using hmost

theorem bounded_own (nesting : Nat) (node : Node) : Bounded nesting (own nesting node) := by
  unfold own
  by_cases hbinary : node.isBinary
  · rw [if_pos hbinary]
    cases node.child? "operator" with
    | none => exact bounded_zero nesting
    | some operator =>
        by_cases hshort : operator.isShortCircuit
        · simp only [hshort, if_true, bounded_branch]
        · simp only [hshort, if_false, Bool.false_eq_true, bounded_zero]
  · rw [if_neg hbinary]
    by_cases hchain : node.isLetChain
    · rw [if_pos hchain]
      exact bounded_branch nesting _
    · rw [if_neg hchain]
      by_cases hreturn : node.isReturn
      · rw [if_pos hreturn]
        exact bounded_of_not_branching rfl rfl
      · rw [if_neg hreturn]
        exact bounded_zero nesting

/-! ## Walks -/

/-- All walks that go on at a node are bounded: over the node itself, and past it if it is an
alternative or the body of a match. -/
structure WalksBounded (node : Node) : Prop where
  walk : ∀ nesting, Bounded nesting (walk nesting node)
  walkElse : ∀ nesting, Bounded nesting (walkElse nesting node)
  walkArms : ∀ nesting, Bounded nesting (walkArms nesting node)

theorem WalksBounded.enter (h : WalksBounded node) (nesting : Nat) :
    Bounded nesting (enter nesting node) :=
  (h.walk (nesting + 1)).deeper

section

variable (nesting : Nat) (h : ∀ child ∈ node.children, WalksBounded child)

include h

theorem walkNamed_bounded : Bounded nesting (walkNamed nesting node.children) := by
  rw [walkNamed_eq]
  apply bounded_sumOf
  intro child hchild
  split_ifs
  · exact (h child hchild).walk nesting
  · exact bounded_zero nesting

theorem walkBody_bounded (body : Option Node) :
    Bounded nesting (walkBody nesting body node.children) := by
  rw [walkBody_eq]
  apply bounded_sumOf
  intro child hchild
  split_ifs
  · exact (h child hchild).enter nesting
  · exact (h child hchild).walk nesting
  · exact bounded_zero nesting

theorem walkIf_bounded (consequence alternative : Option Node) :
    Bounded nesting (walkIf nesting consequence alternative node.children) := by
  rw [walkIf_eq]
  apply bounded_sumOf
  intro child hchild
  split_ifs
  · exact (h child hchild).enter nesting
  · exact (h child hchild).walkElse nesting
  · exact (h child hchild).walk nesting
  · exact bounded_zero nesting

theorem walkElse_bounded : Bounded nesting (walkElse nesting node) := by
  rw [walkElse_eq, walkElseChildren_eq]
  apply bounded_sumOf
  intro child hchild
  split_ifs
  · exact (h child hchild).walk nesting
  · exact bounded_zero nesting
  · exact (h child hchild).enter nesting
  · exact bounded_zero nesting

theorem walkArms_bounded : Bounded nesting (walkArms nesting node) := by
  rw [walkArms_eq, walkArmsAmong_eq]
  apply bounded_sumOf
  intro child hchild
  split_ifs
  · exact (h child hchild).enter nesting
  · exact bounded_zero nesting
  · exact bounded_zero nesting

/-- A walk that goes on at the first child under a field. -/
theorem bounded_child? (field : String) {f : Node → Branching}
    (hf : ∀ child, WalksBounded child → Bounded nesting (f child)) :
    Bounded nesting (((node.child? field).map f).getD zero) := by
  cases hchild : node.child? field with
  | none => exact bounded_zero nesting
  | some child => exact hf child (h child (List.mem_of_find?_eq_some hchild))

theorem walkValue_bounded : Bounded nesting (walkValue nesting node.children) := by
  rw [walkValue_eq]
  exact bounded_child? nesting h "value" fun _ hchild => hchild.walk nesting

theorem walkMatchBody_bounded : Bounded nesting (walkMatchBody nesting node.children) := by
  rw [walkMatchBody_eq]
  exact bounded_child? nesting h "body" fun _ hchild => hchild.walkArms nesting

end

theorem walksBounded (node : Node) : WalksBounded node := by
  induction node using Node.inductionOn_children with
  | step node h =>
      refine ⟨?_, fun nesting => walkElse_bounded nesting h,
        fun nesting => walkArms_bounded nesting h⟩
      intro nesting
      rw [walk_eq]
      split_ifs
      · exact bounded_zero nesting
      · exact (bounded_branch nesting 1).append (walkIf_bounded nesting h _ _)
      · exact (bounded_branch nesting 1).append (walkBody_bounded nesting h _)
      · exact ((bounded_branch nesting _).append (walkValue_bounded nesting h)).append
          (walkMatchBody_bounded nesting h)
      · exact walkBody_bounded nesting h _
      · exact (bounded_own nesting node).append (walkNamed_bounded nesting h)

/-- What a walk counts is bounded by the nesting where it starts and by the depth that it records. -/
theorem walk_bounded (nesting : Nat) (node : Node) : Bounded nesting (walk nesting node) :=
  (walksBounded node).walk nesting

theorem ofFunction_bounded (node : Node) : Bounded 0 (ofFunction node) := by
  unfold ofFunction
  cases node.child? "body" with
  | none => exact bounded_zero 0
  | some body => exact walk_bounded 0 body

end Branching

/-! ## Functions -/

/-- Cyclomatic and cognitive complexity: the first counts the branches, and the second weighs each of
them by its nesting. -/
structure Complexity.Bounded (c : Complexity) : Prop where
  one_le_cyclomatic : 1 ≤ c.cyclomatic
  branches_le_cognitive : c.cyclomatic - 1 ≤ c.cognitive
  cognitive_le : c.cognitive ≤ (c.cyclomatic - 1) * (1 + c.nestingDepth)

namespace Complexity

variable {kind : Kind}

theorem ofFunction_bounded (source : Source) (node : Node) : (ofFunction source node).Bounded := by
  obtain ⟨hleast, hmost⟩ := Branching.ofFunction_bounded node
  have hbranches : (ofFunction source node).cyclomatic - 1 =
      ((Branching.ofFunction node).branches : Int) := by
    show (1 + ((Branching.ofFunction node).branches : Int)) - 1 = _
    omega
  constructor
  · omega
  · rw [hbranches]
    show _ ≤ ((Branching.ofFunction node).weighted : Int)
    omega
  · rw [hbranches]
    show ((Branching.ofFunction node).weighted : Int) ≤
      _ * (1 + ((Branching.ofFunction node).depth : Int))
    rw [Nat.zero_max] at hmost
    exact_mod_cast hmost

/-! ## Elements -/

/-- The kinds of elements that have a complexity. -/
def ratedKinds : List Kind :=
  [.function, .struct, .union, .enum, .trait, .impl]

/-- The baseline of a type is at least one. -/
theorem structural_cases (hfunction : kind ≠ .function) (node : Node) :
    (kind ∈ ratedKinds ∧ ∃ n, structural kind node = some n ∧ 1 ≤ n) ∨
      (kind ∉ ratedKinds ∧ structural kind node = none) := by
  have hmax (n : Nat) : 1 ≤ max 1 n := Nat.le_max_left 1 n
  cases kind with
  | function => contradiction
  | struct => exact .inl ⟨by decide, 1, rfl, Nat.le_refl 1⟩
  | union => exact .inl ⟨by decide, 1, rfl, Nat.le_refl 1⟩
  | enum => exact .inl ⟨by decide, _, rfl, hmax _⟩
  | trait => exact .inl ⟨by decide, _, rfl, hmax _⟩
  | impl => exact .inl ⟨by decide, _, rfl, hmax _⟩
  | mod | constant | static | typeAlias | macroRules => exact .inr ⟨by decide, rfl⟩

/-- The complexity of an element, and the measures of a function that it is taken from. -/
structure Rated (kind : Kind) (complexity : Option Int) (measures : Option Complexity) : Prop where
  one_le : kind ∈ ratedKinds → ∃ c, complexity = some c ∧ 1 ≤ c
  eq_none : kind ∉ ratedKinds → complexity = none
  of_function : kind = .function →
    ∃ c : Complexity, measures = some c ∧ c.Bounded ∧ complexity = some c.cyclomatic
  measures_eq_none : kind ≠ .function → measures = none

/-- A complexity is at least one, if there is any. -/
theorem Rated.one_le_of_eq_some {complexity : Option Int} {measures : Option Complexity} {c : Int}
    (h : Rated kind complexity measures) (hc : complexity = some c) : 1 ≤ c := by
  by_cases hmem : kind ∈ ratedKinds
  · obtain ⟨n, hn, hone⟩ := h.one_le hmem
    rw [hc, Option.some.injEq] at hn
    rw [hn]
    exact hone
  · rw [h.eq_none hmem] at hc
    contradiction

theorem rated (source : Source) (kind : Kind) (node : Node) :
    Rated kind (value source kind node) (measured source kind node) := by
  by_cases hfunction : kind = .function
  · have hmeasured : measured source kind node = some (ofFunction source node) := if_pos hfunction
    have hvalue : value source kind node = some (ofFunction source node).cyclomatic := by
      rw [value, hmeasured]
    have hbounded := ofFunction_bounded source node
    have hmem : kind ∈ ratedKinds := by
      rw [hfunction]
      decide
    exact ⟨fun _ => ⟨_, hvalue, hbounded.one_le_cyclomatic⟩, fun hnot => absurd hmem hnot,
      fun _ => ⟨_, hmeasured, hbounded, hvalue⟩, fun hne => absurd hfunction hne⟩
  · have hmeasured : measured source kind node = none := if_neg hfunction
    have hvalue : value source kind node = (structural kind node).map Int.ofNat := by
      rw [value, hmeasured]
    refine ⟨?_, ?_, fun heq => absurd heq hfunction, fun _ => hmeasured⟩
    · intro hmem
      rcases structural_cases hfunction node with ⟨-, n, hn, hone⟩ | ⟨hnot, -⟩
      · refine ⟨n, ?_, by omega⟩
        rw [hvalue, hn]
        rfl
      · exact absurd hmem hnot
    · intro hnot
      rcases structural_cases hfunction node with ⟨hmem, -⟩ | ⟨-, hnone⟩
      · exact absurd hmem hnot
      · rw [hvalue, hnone]
        rfl

end Complexity

/-- An item has the complexity and the measures that its kind asks for. -/
def Item.Rated (item : Item) : Prop :=
  Complexity.Rated item.kind item.complexity item.measures

/-- An item that is read is rated by its kind. -/
theorem Declaration.Takes.rated {file : SourceFile} {around : List Node}
    {forced : Option Visibility} {before : List Node} {node : Node} {kind : Kind}
    {named : ItemName} {notes : List Docs.Note} {visibility : Visibility} {item : Item}
    (h : Takes file around forced before node kind named notes visibility item) : item.Rated := by
  have hread := h.read_eq
  simp only [Item.read, Outcome.bind_eq_ok_iff, Outcome.pure_eq_ok_iff] at hread
  obtain ⟨inner, -, generics, -, usages, -, rfl⟩ := hread
  exact Complexity.rated file.source kind node

/-- The elements of a file are rated by their kinds. -/
theorem elementsOf_rated {file : SourceFile} {root : Node} {elements : List Element}
    (h : elementsOf file root = .ok elements) :
    ∀ element ∈ elements, element.item.Rated := by
  obtain ⟨sites, -, -, hsites⟩ := elementsOf_related (R := fun _ _ _ item => item.Rated)
    (fun _ htakes => htakes.rated) (fun _ _ _ _ hrated => hrated) h
  intro element helement
  obtain ⟨site, -, hrated⟩ := Outcome.exists_partner hsites element helement
  exact hrated

/-- Functions are at least of complexity one, and their cognitive complexity lies between the number
of their branches and this number weighed at the deepest nesting.  Elements of a file have a
complexity, at least one, if they are functions, types, traits or impl blocks, and none otherwise. -/
theorem complexity_bounded :
    (∀ source node, (Complexity.ofFunction source node).Bounded) ∧
    ∀ file root elements, elementsOf file root = .ok elements →
      ∀ element ∈ elements, element.item.Rated :=
  ⟨Complexity.ofFunction_bounded, fun _ _ _ => elementsOf_rated⟩

namespace Sample

/-- A function with branches, an enum and a module. -/
def ratedText : String :=
  branchyText ++ "enum E\x7bA,B\x7dmod m;"

/-- The tree of that text. -/
def ratedRoot : Node :=
  node "source_file" "" 0 78
    [branchy,
      node "enum_item" "" 61 72
        [node "type_identifier" "name" 66 67 [],
          node "enum_variant_list" "body" 67 72
            [node "enum_variant" "" 68 69 [], node "enum_variant" "" 70 71 []]],
      node "mod_item" "" 72 78 [node "identifier" "name" 76 77 []]]

/-- The file with that text. -/
def ratedFile : SourceFile :=
  ⟨ratedText.toUTF8.toList, "a.rs", ⟨true, true⟩⟩

end Sample

/-- In the sample, the function has five branches of weight eight, four levels deep at most, and the
enum two variants. -/
theorem complexity_bounded_sample :
    ∃ elements, elementsOf Sample.ratedFile Sample.ratedRoot = .ok elements ∧
      elements.map (fun element => (element.kind, element.item.complexity)) =
        [(.function, some 6), (.enum, some 2), (.mod, none)] ∧
      (∀ element ∈ elements, element.item.Rated) ∧
      (Complexity.ofFunction Sample.ratedFile.source Sample.branchy).Bounded ∧
      (Complexity.ofFunction Sample.ratedFile.source Sample.branchy).cognitive = 8 ∧
      (Complexity.ofFunction Sample.ratedFile.source Sample.branchy).nestingDepth = 4 := by
  have hread : (elementsOf Sample.ratedFile Sample.ratedRoot).map
        (List.map fun element => (element.kind, element.item.complexity)) =
      .ok [(.function, some 6), (.enum, some 2), (.mod, none)] := by
    decide +kernel
  obtain ⟨elements, hok, hcomplexity⟩ := Outcome.map_eq_ok_iff.mp hread
  obtain ⟨hfunctions, helements⟩ := complexity_bounded
  exact ⟨elements, hok, hcomplexity, helements _ _ elements hok, hfunctions _ _,
    by decide +kernel, by decide +kernel⟩

end CrateAtlas
