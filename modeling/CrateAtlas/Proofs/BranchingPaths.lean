import CrateAtlas.Proofs.NodePath

/-!
# Branching by paths

The walk over a function body carries its nesting along and adds up as it goes.  The same numbers
can be read off the paths from the body.  Here are the edges of these paths, which say where a path
may go and which of its steps are nested, and a walk as one step along the edges of a node.

Main results:

- Theorem {lit}`mem_edges_iff`: the edges below a node as a list.
- Theorem {lit}`edges_apart`: different edges lead to different parts of the tree.
- Theorem {lit}`walk_eq_edges`: a walk looks at a node and goes on along its edges.
-/

namespace CrateAtlas.Branching

/-! ## Paths -/

/-- The edges of paths: the way from a node to the next one, and how much it adds to the nesting.
From a conditional they lead past its alternative, from a match past its body. -/
inductive Leads (node : Node) : Position → Node → Nat → Prop where
  | consequence {i child} : node.isIf = true → Node.NamedChild node i child →
      node.childIndex? "consequence" = some i → Leads node [i] child 1
  | condition {i child} : node.isIf = true → Node.NamedChild node i child →
      node.childIndex? "consequence" ≠ some i → node.childIndex? "alternative" ≠ some i →
      Leads node [i] child 0
  | elseIf {i clause j child} : node.isIf = true → Node.NamedChild node i clause →
      node.childIndex? "alternative" = some i → Node.NamedChild clause j child → child.isIf = true →
      Leads node [i, j] child 0
  | elseBlock {i clause j child} : node.isIf = true → Node.NamedChild node i clause →
      node.childIndex? "alternative" = some i → Node.NamedChild clause j child →
      child.isIf = false → child.isComment = false → Leads node [i, j] child 1
  | body {i child} : (node.isLoop = true ∨ node.isClosure = true) → Node.NamedChild node i child →
      node.childIndex? "body" = some i → Leads node [i] child 1
  | header {i child} : (node.isLoop = true ∨ node.isClosure = true) → Node.NamedChild node i child →
      node.childIndex? "body" ≠ some i → Leads node [i] child 0
  | value {i child} : node.isMatch = true → node.childIndex? "value" = some i →
      node.children[i]? = some child → Leads node [i] child 0
  | arm {i block j child} : node.isMatch = true → node.childIndex? "body" = some i →
      node.children[i]? = some block → Node.NamedChild block j child → child.isArm = true →
      Leads node [i, j] child 1
  | plain {i child} : node.isIf = false → node.isLoop = false → node.isMatch = false →
      node.isClosure = false → Node.NamedChild node i child → Leads node [i] child 0

/-- The paths below a node: where they lead and how many of their edges are nested.  They end at
nested items and at comments. -/
inductive Route : Node → Position → Node → Nat → Prop where
  | here {node} : Route node [] node 0
  | step {node way child nested position target inner} : node.isNestedItem = false →
      node.isComment = false → Leads node way child nested → Route child position target inner →
      Route node (way ++ position) target (nested + inner)

/-- How many branches a node stands for. -/
def weight (node : Node) : Nat :=
  if node.isIf || node.isLoop then 1
  else if node.isMatch then (arms node).length - 1
  else if node.isBinary then
    if (node.child? "operator").any Node.isShortCircuit then 1 else 0
  else if node.isLetChain then node.children.countP Node.isShortCircuit
  else 0

/-! ## Classes of nodes -/

/-- What a type of nodes means for branching. -/
inductive Role where
  | conditional
  | loop
  | choice
  | closure
  | binary
  | chain
  | leave
  | other
deriving DecidableEq

/-- The role of a type of nodes. -/
def Role.of : String → Role
  | "if_expression" | "if_let_expression" => conditional
  | "while_expression" | "while_let_expression" | "loop_expression" | "for_expression" => loop
  | "match_expression" => choice
  | "closure_expression" => closure
  | "binary_expression" => binary
  | "let_chain" => chain
  | "return_expression" => leave
  | _ => other

variable {node child : Node}

theorem isIf_eq (node : Node) : node.isIf = decide (Role.of node.kind = .conditional) := by
  unfold Node.isIf Role.of
  split <;> simp_all

theorem isLoop_eq (node : Node) : node.isLoop = decide (Role.of node.kind = .loop) := by
  unfold Node.isLoop Role.of
  split <;> simp_all

theorem isMatch_eq (node : Node) : node.isMatch = decide (Role.of node.kind = .choice) := by
  unfold Node.isMatch Role.of
  split <;> simp_all

theorem isClosure_eq (node : Node) : node.isClosure = decide (Role.of node.kind = .closure) := by
  unfold Node.isClosure Role.of
  split <;> simp_all

theorem isBinary_eq (node : Node) : node.isBinary = decide (Role.of node.kind = .binary) := by
  unfold Node.isBinary Role.of
  split <;> simp_all

theorem isLetChain_eq (node : Node) : node.isLetChain = decide (Role.of node.kind = .chain) := by
  unfold Node.isLetChain Role.of
  split <;> simp_all

theorem isReturn_eq (node : Node) : node.isReturn = decide (Role.of node.kind = .leave) := by
  unfold Node.isReturn Role.of
  split <;> simp_all

/-- Nested items and comments have no part in branching. -/
theorem role_of_stop (h : (node.isNestedItem || node.isComment) = true) :
    Role.of node.kind = .other := by
  unfold Node.isNestedItem Node.itemKind? Node.isComment Node.itemKindOf at h
  unfold Role.of
  split <;> simp_all

/-! ## Adding up -/

variable {α β : Type}

/-- Put the counts of several things together. -/
def sumOf (f : α → Branching) : List α → Branching
  | [] => zero
  | a :: rest => f a ++ sumOf f rest

theorem append_def (a b : Branching) :
    a ++ b = ⟨a.branches + b.branches, a.weighted + b.weighted, max a.depth b.depth,
      a.returns + b.returns⟩ :=
  rfl

@[simp]
theorem zero_append (a : Branching) : zero ++ a = a := by
  simp [append_def, zero]

@[simp]
theorem append_zero (a : Branching) : a ++ zero = a := by
  simp [append_def, zero]

theorem append_assoc (a b c : Branching) : a ++ b ++ c = a ++ (b ++ c) := by
  simp [append_def, Nat.add_assoc, Nat.max_assoc]

@[simp]
theorem sumOf_nil (f : α → Branching) : sumOf f [] = zero :=
  rfl

@[simp]
theorem sumOf_cons (f : α → Branching) (a : α) (rest : List α) :
    sumOf f (a :: rest) = f a ++ sumOf f rest :=
  rfl

theorem sumOf_append (f : α → Branching) (xs ys : List α) :
    sumOf f (xs ++ ys) = sumOf f xs ++ sumOf f ys := by
  induction xs with
  | nil => simp
  | cons x xs ih => simp [ih, append_assoc]

theorem sumOf_map (f : β → Branching) (g : α → β) (xs : List α) :
    sumOf f (xs.map g) = sumOf (fun x => f (g x)) xs := by
  induction xs with
  | nil => rfl
  | cons x xs ih => simp [ih]

theorem sumOf_flatMap (f : β → Branching) (g : α → List β) (xs : List α) :
    sumOf f (xs.flatMap g) = sumOf (fun x => sumOf f (g x)) xs := by
  induction xs with
  | nil => rfl
  | cons x xs ih => simp [ih, sumOf_append]

theorem sumOf_filter (f : α → Branching) (p : α → Bool) (xs : List α) :
    sumOf f (xs.filter p) = sumOf (fun x => if p x then f x else zero) xs := by
  induction xs with
  | nil => rfl
  | cons x xs ih =>
      cases hx : p x <;> simp [hx, ih]

theorem sumOf_congr {f g : α → Branching} {xs : List α} (h : ∀ x ∈ xs, f x = g x) :
    sumOf f xs = sumOf g xs := by
  induction xs with
  | nil => rfl
  | cons x xs ih =>
      rw [sumOf_cons, sumOf_cons, h x List.mem_cons_self,
        ih fun x hx => h x (List.mem_cons_of_mem _ hx)]

/-! ## Listing edges -/

/-- An edge below a node. -/
structure Edge where
  way : Position
  target : Node
  nested : Nat

/-- The edges that lead past the alternative of a conditional. -/
def edgesPast (i : Nat) (clause : Node) : List Edge :=
  (clause.namedAmong.filter fun child => child.1.isIf || !child.1.isComment).map
    fun child => ⟨[i, child.2], child.1, if child.1.isIf then 0 else 1⟩

/-- The edges that lead through a named child of a conditional. -/
def edgesThrough (node : Node) (child : Node × Nat) : List Edge :=
  if node.childIndex? "consequence" = some child.2 then [⟨[child.2], child.1, 1⟩]
  else if node.childIndex? "alternative" = some child.2 then edgesPast child.2 child.1
  else [⟨[child.2], child.1, 0⟩]

/-- The edge to the value of a match, if it has one. -/
def valueEdges (node : Node) : List Edge :=
  (node.fieldAmong "value").map fun child => ⟨[child.2], child.1, 0⟩

/-- The edges to the arms of a match. -/
def armEdges (node : Node) : List Edge :=
  (node.fieldAmong "body").flatMap fun block =>
    (block.1.namedAmong.filter fun child => child.1.isArm).map
      fun child => ⟨[block.2, child.2], child.1, 1⟩

/-- The edges below a node. -/
def edges (node : Node) : List Edge :=
  if node.isIf then node.namedAmong.flatMap (edgesThrough node)
  else if node.isMatch then valueEdges node ++ armEdges node
  else if node.isLoop || node.isClosure then
    node.namedAmong.map fun child =>
      ⟨[child.2], child.1, if node.childIndex? "body" = some child.2 then 1 else 0⟩
  else node.namedAmong.map fun child => ⟨[child.2], child.1, 0⟩

theorem mem_edgesPast_iff {edge : Edge} {i : Nat} {clause : Node} :
    edge ∈ edgesPast i clause ↔ ∃ j child, edge = ⟨[i, j], child, if child.isIf then 0 else 1⟩ ∧
      Node.NamedChild clause j child ∧ (child.isIf = true ∨ child.isComment = false) := by
  unfold edgesPast
  simp only [List.mem_map, List.mem_filter, Prod.exists, Node.mem_namedAmong_iff, Bool.or_eq_true,
    Bool.not_eq_true']
  constructor
  · rintro ⟨child, j, ⟨hchild, hpasses⟩, rfl⟩
    exact ⟨j, child, rfl, hchild, hpasses⟩
  · rintro ⟨j, child, rfl, hchild, hpasses⟩
    exact ⟨child, j, ⟨hchild, hpasses⟩, rfl⟩

theorem mem_valueEdges_iff {edge : Edge} :
    edge ∈ valueEdges node ↔ ∃ i child, edge = ⟨[i], child, 0⟩ ∧
      node.childIndex? "value" = some i ∧ node.children[i]? = some child := by
  simp only [valueEdges, List.mem_map, Prod.exists, Node.mem_fieldAmong_iff]
  constructor
  · rintro ⟨child, i, ⟨hindex, hget⟩, rfl⟩
    exact ⟨i, child, rfl, hindex, hget⟩
  · rintro ⟨i, child, rfl, hindex, hget⟩
    exact ⟨child, i, ⟨hindex, hget⟩, rfl⟩

theorem mem_armEdges_iff {edge : Edge} :
    edge ∈ armEdges node ↔ ∃ i block j child, edge = ⟨[i, j], child, 1⟩ ∧
      node.childIndex? "body" = some i ∧ node.children[i]? = some block ∧
      Node.NamedChild block j child ∧ child.isArm = true := by
  simp only [armEdges, List.mem_flatMap, List.mem_map, List.mem_filter, Prod.exists,
    Node.mem_namedAmong_iff, Node.mem_fieldAmong_iff]
  constructor
  · rintro ⟨block, i, ⟨hindex, hget⟩, child, j, ⟨hchild, harm⟩, rfl⟩
    exact ⟨i, block, j, child, rfl, hindex, hget, hchild, harm⟩
  · rintro ⟨i, block, j, child, rfl, hindex, hget, hchild, harm⟩
    exact ⟨block, i, ⟨hindex, hget⟩, child, j, ⟨hchild, harm⟩, rfl⟩

/-- The alternative of a conditional is not its consequence. -/
theorem not_consequence {i : Nat} (h : node.childIndex? "alternative" = some i) :
    ¬node.childIndex? "consequence" = some i := by
  intro hconsequence
  exact absurd (Node.field_eq_of_childIndex? h hconsequence) (by decide)

/-- Through a child of a conditional lead the edges that start with its index. -/
theorem leads_of_mem_edgesThrough {edge : Edge} {i : Nat} (hif : node.isIf = true)
    (hchild : Node.NamedChild node i child) (h : edge ∈ edgesThrough node (child, i)) :
    Leads node edge.way edge.target edge.nested := by
  unfold edgesThrough at h
  split at h <;> rename_i hconsequence
  · rw [List.mem_singleton.mp h]
    exact .consequence hif hchild hconsequence
  · split at h <;> rename_i halternative
    · obtain ⟨j, inner, rfl, hinner, hpasses⟩ := mem_edgesPast_iff.mp h
      by_cases hinnerIf : inner.isIf = true
      · simp only [hinnerIf, if_true]
        exact .elseIf hif hchild halternative hinner hinnerIf
      · simp only [hinnerIf]
        exact .elseBlock hif hchild halternative hinner (by simpa using hinnerIf)
          (hpasses.resolve_left hinnerIf)
    · rw [List.mem_singleton.mp h]
      exact .condition hif hchild hconsequence halternative

theorem edges_of_isIf (h : node.isIf = true) :
    edges node = node.namedAmong.flatMap (edgesThrough node) :=
  if_pos h

theorem edges_of_isMatch (h : node.isMatch = true) :
    edges node = valueEdges node ++ armEdges node := by
  have hrole : Role.of node.kind = .choice := by simpa [isMatch_eq] using h
  simp [edges, isIf_eq, isMatch_eq, hrole]

theorem edges_of_body (h : node.isLoop = true ∨ node.isClosure = true) :
    edges node = node.namedAmong.map fun child =>
      ⟨[child.2], child.1, if node.childIndex? "body" = some child.2 then 1 else 0⟩ := by
  have hrole : Role.of node.kind = .loop ∨ Role.of node.kind = .closure := by
    simpa [isLoop_eq, isClosure_eq] using h
  rcases hrole with hrole | hrole
  · simp [edges, isIf_eq, isMatch_eq, isLoop_eq, hrole]
  · simp [edges, isIf_eq, isMatch_eq, isClosure_eq, hrole]

theorem edges_of_plain (hif : node.isIf = false) (hloop : node.isLoop = false)
    (hmatch : node.isMatch = false) (hclosure : node.isClosure = false) :
    edges node = node.namedAmong.map fun child => ⟨[child.2], child.1, 0⟩ := by
  simp [edges, hif, hloop, hmatch, hclosure]

/-- What is listed is an edge. -/
theorem leads_of_mem_edges {edge : Edge} (h : edge ∈ edges node) :
    Leads node edge.way edge.target edge.nested := by
  unfold edges at h
  split at h <;> rename_i hif
  · obtain ⟨⟨child, i⟩, hchild, h⟩ := List.mem_flatMap.mp h
    exact leads_of_mem_edgesThrough hif (Node.mem_namedAmong_iff.mp hchild) h
  split at h <;> rename_i hmatch
  · rcases List.mem_append.mp h with h | h
    · obtain ⟨i, child, rfl, hindex, hget⟩ := mem_valueEdges_iff.mp h
      exact .value hmatch hindex hget
    · obtain ⟨i, block, j, child, rfl, hindex, hget, hchild, harm⟩ := mem_armEdges_iff.mp h
      exact .arm hmatch hindex hget hchild harm
  split at h <;> rename_i hbody <;> obtain ⟨⟨child, i⟩, hchild, rfl⟩ := List.mem_map.mp h <;>
    rw [Node.mem_namedAmong_iff] at hchild
  · rw [Bool.or_eq_true] at hbody
    by_cases hindex : node.childIndex? "body" = some i
    · simp only [hindex, if_true]
      exact .body hbody hchild hindex
    · simp only [hindex, if_false]
      exact .header hbody hchild hindex
  · simp only [Bool.or_eq_true, not_or, Bool.not_eq_true] at hif hmatch hbody
    exact .plain hif hbody.1 hmatch hbody.2 hchild

/-- Every edge is listed. -/
theorem Leads.mem_edges {way : Position} {nested : Nat} (h : Leads node way child nested) :
    ⟨way, child, nested⟩ ∈ edges node := by
  cases h with
  | @consequence i _ hif hchild hconsequence =>
      rw [edges_of_isIf hif]
      refine List.mem_flatMap.mpr ⟨(child, i), Node.mem_namedAmong_iff.mpr hchild, ?_⟩
      simp [edgesThrough, hconsequence]
  | @condition i _ hif hchild hconsequence halternative =>
      rw [edges_of_isIf hif]
      refine List.mem_flatMap.mpr ⟨(child, i), Node.mem_namedAmong_iff.mpr hchild, ?_⟩
      simp [edgesThrough, hconsequence, halternative]
  | @elseIf i clause j _ hif hclause halternative hchild hchildIf =>
      rw [edges_of_isIf hif]
      refine List.mem_flatMap.mpr ⟨(clause, i), Node.mem_namedAmong_iff.mpr hclause, ?_⟩
      rw [edgesThrough, if_neg (not_consequence halternative), if_pos halternative]
      exact mem_edgesPast_iff.mpr ⟨j, child, by rw [if_pos hchildIf], hchild, .inl hchildIf⟩
  | @elseBlock i clause j _ hif hclause halternative hchild hchildIf hcomment =>
      rw [edges_of_isIf hif]
      refine List.mem_flatMap.mpr ⟨(clause, i), Node.mem_namedAmong_iff.mpr hclause, ?_⟩
      rw [edgesThrough, if_neg (not_consequence halternative), if_pos halternative]
      exact mem_edgesPast_iff.mpr
        ⟨j, child, by rw [if_neg (by simp [hchildIf])], hchild, .inr hcomment⟩
  | @body i _ hbody hchild hindex =>
      rw [edges_of_body hbody]
      refine List.mem_map.mpr ⟨(child, i), Node.mem_namedAmong_iff.mpr hchild, ?_⟩
      rw [if_pos hindex]
  | @header i _ hbody hchild hindex =>
      rw [edges_of_body hbody]
      refine List.mem_map.mpr ⟨(child, i), Node.mem_namedAmong_iff.mpr hchild, ?_⟩
      rw [if_neg hindex]
  | @value i _ hmatch hindex hget =>
      rw [edges_of_isMatch hmatch]
      exact List.mem_append_left _ (mem_valueEdges_iff.mpr ⟨i, child, rfl, hindex, hget⟩)
  | @arm i block j _ hmatch hindex hget hchild harm =>
      rw [edges_of_isMatch hmatch]
      exact List.mem_append_right _
        (mem_armEdges_iff.mpr ⟨i, block, j, child, rfl, hindex, hget, hchild, harm⟩)
  | @plain i _ hif hloop hmatch hclosure hchild =>
      rw [edges_of_plain hif hloop hmatch hclosure]
      exact List.mem_map.mpr ⟨(child, i), Node.mem_namedAmong_iff.mpr hchild, rfl⟩

/-- The edges below a node are those that are listed. -/
theorem mem_edges_iff {edge : Edge} :
    edge ∈ edges node ↔ Leads node edge.way edge.target edge.nested :=
  ⟨leads_of_mem_edges, Leads.mem_edges⟩

/-! ## Edges and the tree -/

/-- An edge leads to the node at its way. -/
theorem Leads.at?_eq {way : Position} {nested : Nat} (h : Leads node way child nested) :
    node.at? way = some child := by
  cases h with
  | consequence _ hchild _ | condition _ hchild _ _ | body _ hchild _ | header _ hchild _
  | plain _ _ _ _ hchild => simp [hchild.getElem?_eq]
  | elseIf _ hclause _ hchild _ | elseBlock _ hclause _ hchild _ _ =>
      simp [hclause.getElem?_eq, hchild.getElem?_eq]
  | value _ _ hget => simp [hget]
  | arm _ _ hget hchild _ => simp [hget, hchild.getElem?_eq]

/-- An edge is not empty. -/
theorem Leads.way_ne_nil {way : Position} {nested : Nat} (h : Leads node way child nested) :
    way ≠ [] := by
  cases h <;> simp

/-- An edge is nested once or not at all. -/
theorem Leads.nested_le {way : Position} {nested : Nat} (h : Leads node way child nested) :
    nested ≤ 1 := by
  cases h <;> simp

/-- An edge through a child of a conditional starts at its index. -/
theorem way_of_mem_edgesThrough {edge : Edge} {i : Nat}
    (h : edge ∈ edgesThrough node (child, i)) : ∃ rest, edge.way = i :: rest := by
  unfold edgesThrough at h
  split_ifs at h
  · exact ⟨[], by rw [List.mem_singleton.mp h]⟩
  · obtain ⟨j, inner, rfl, -⟩ := mem_edgesPast_iff.mp h
    exact ⟨[j], rfl⟩
  · exact ⟨[], by rw [List.mem_singleton.mp h]⟩

/-- Edges that start at different named children branch off there, also if they are followed from
further up. -/
theorem pairwise_apart_map {children : List (Node × Nat)} (h : children.Sublist node.namedAmong)
    (above : Position) (edgeTo : Node × Nat → Edge)
    (hway : ∀ child, (edgeTo child).way = above ++ [child.2]) :
    (children.map edgeTo).Pairwise fun a b => Position.Apart a.way b.way := by
  refine List.pairwise_map.mpr ((node.namedAmong_pairwise.sublist h).imp ?_)
  intro a b hne
  rw [hway, hway]
  exact Position.apart_append_left_iff.mpr (Position.apart_cons_of_ne hne)

/-- The edges past an alternative branch off at its children. -/
theorem edgesPast_apart (i : Nat) (clause : Node) :
    (edgesPast i clause).Pairwise fun a b => Position.Apart a.way b.way :=
  pairwise_apart_map List.filter_sublist [i] _ fun _ => rfl

/-- The edges through different children of a conditional branch off there. -/
theorem edgesThrough_apart (node : Node) :
    (node.namedAmong.flatMap (edgesThrough node)).Pairwise fun a b =>
      Position.Apart a.way b.way := by
  refine List.pairwise_flatMap.mpr ⟨?_, node.namedAmong_pairwise.imp ?_⟩
  · intro child _
    unfold edgesThrough
    split_ifs
    · exact List.pairwise_singleton _ _
    · exact edgesPast_apart child.2 child.1
    · exact List.pairwise_singleton _ _
  · intro a b hne edge hedge other hother
    obtain ⟨rest, hrest⟩ := way_of_mem_edgesThrough hedge
    obtain ⟨rest', hrest'⟩ := way_of_mem_edgesThrough hother
    rw [hrest, hrest']
    exact Position.apart_cons_of_ne hne

/-- The edges to the arms of a match branch off at the children of its body. -/
theorem armEdges_apart (node : Node) :
    (armEdges node).Pairwise fun a b => Position.Apart a.way b.way := by
  unfold armEdges
  rcases Node.fieldAmong_cases node "body" with ⟨hnil, -⟩ | ⟨i, block, hblock, -⟩
  · simp [hnil]
  · rw [hblock, List.flatMap_singleton]
    exact pairwise_apart_map List.filter_sublist [i] _ fun _ => rfl

/-- The edges to the value and to the arms of a match branch off. -/
theorem matchEdges_apart (node : Node) :
    (valueEdges node ++ armEdges node).Pairwise fun a b => Position.Apart a.way b.way := by
  refine List.pairwise_append.mpr ⟨?_, armEdges_apart node, ?_⟩
  · unfold valueEdges
    rcases Node.fieldAmong_cases node "value" with ⟨hnil, -⟩ | ⟨i, child, hchild, -⟩
    · simp [hnil]
    · simp [hchild]
  · intro edge hedge other hother
    obtain ⟨i, child, rfl, hvalue, -⟩ := mem_valueEdges_iff.mp hedge
    obtain ⟨j, block, k, arm, rfl, hbody, -⟩ := mem_armEdges_iff.mp hother
    apply Position.apart_cons_of_ne
    rintro rfl
    exact absurd (Node.field_eq_of_childIndex? hvalue hbody) (by decide)

/-- Different edges below a node lead to different parts of the tree. -/
theorem edges_apart (node : Node) :
    (edges node).Pairwise fun a b => Position.Apart a.way b.way := by
  unfold edges
  split_ifs
  · exact edgesThrough_apart node
  · exact matchEdges_apart node
  · exact pairwise_apart_map (List.Sublist.refl _) [] _ fun _ => rfl
  · exact pairwise_apart_map (List.Sublist.refl _) [] _ fun _ => rfl

/-! ## One step of a walk -/

/-- Look at a node that is reached through a number of nested edges. -/
def look (nesting nested : Nat) (node : Node) : Branching :=
  ⟨weight node, weight node * (1 + nesting + nested), if nested = 0 then 0 else nesting + nested,
    if node.isReturn then 1 else 0⟩

/-- Go on into a node. -/
def enter (nesting : Nat) (node : Node) : Branching :=
  atDepth (nesting + 1) ++ walk (nesting + 1) node

/-- Go on along an edge. -/
def follow (nesting : Nat) (edge : Edge) : Branching :=
  if edge.nested = 0 then walk nesting edge.target else enter nesting edge.target

/-- The rules of a walk. -/
theorem walk_eq (nesting : Nat) (node : Node) :
    walk nesting node =
      if node.isNestedItem || node.isComment then zero
      else if node.isIf then
        branch nesting 1 ++
          walkIf nesting (node.child? "consequence") (node.child? "alternative") node.children
      else if node.isLoop then
        branch nesting 1 ++ walkBody nesting (node.child? "body") node.children
      else if node.isMatch then
        branch nesting ((arms node).length - 1) ++ walkValue nesting node.children ++
          walkMatchBody nesting node.children
      else if node.isClosure then walkBody nesting (node.child? "body") node.children
      else own nesting node ++ walkNamed nesting node.children := by
  cases node
  rw [walk]
  rfl

theorem walkNamed_eq (nesting : Nat) (nodes : List Node) :
    walkNamed nesting nodes =
      sumOf (fun node => if node.isNamed then walk nesting node else zero) nodes := by
  induction nodes with
  | nil => rw [walkNamed, sumOf_nil]
  | cons node rest ih => rw [walkNamed, sumOf_cons, ih]

theorem walkBody_eq (nesting : Nat) (body : Option Node) (nodes : List Node) :
    walkBody nesting body nodes =
      sumOf (fun node => if node.isNamed then
        if node.isAt body then enter nesting node else walk nesting node else zero) nodes := by
  induction nodes with
  | nil => rw [walkBody, sumOf_nil]
  | cons node rest ih => rw [walkBody, sumOf_cons, ih, enter]

theorem walkElseChildren_eq (nesting : Nat) (nodes : List Node) :
    walkElseChildren nesting nodes =
      sumOf (fun node => if node.isNamed then
        if node.isIf then walk nesting node
        else if node.isComment then zero else enter nesting node else zero) nodes := by
  induction nodes with
  | nil => rw [walkElseChildren, sumOf_nil]
  | cons node rest ih => rw [walkElseChildren, sumOf_cons, ih, enter]

theorem walkElse_eq (nesting : Nat) (node : Node) :
    walkElse nesting node = walkElseChildren nesting node.children := by
  cases node
  rw [walkElse, Node.children_mk]

theorem walkIf_eq (nesting : Nat) (consequence alternative : Option Node) (nodes : List Node) :
    walkIf nesting consequence alternative nodes =
      sumOf (fun node => if node.isNamed then
        if node.isAt consequence then enter nesting node
        else if node.isAt alternative then walkElse nesting node
        else walk nesting node else zero) nodes := by
  induction nodes with
  | nil => rw [walkIf, sumOf_nil]
  | cons node rest ih => rw [walkIf, sumOf_cons, ih, enter]

theorem walkArmsAmong_eq (nesting : Nat) (nodes : List Node) :
    walkArmsAmong nesting nodes =
      sumOf (fun node => if node.isNamed then if node.isArm then enter nesting node else zero
        else zero) nodes := by
  induction nodes with
  | nil => rw [walkArmsAmong, sumOf_nil]
  | cons node rest ih =>
      rw [walkArmsAmong, sumOf_cons, ih, enter]
      cases node.isNamed <;> simp

theorem walkArms_eq (nesting : Nat) (node : Node) :
    walkArms nesting node = walkArmsAmong nesting node.children := by
  cases node
  rw [walkArms, Node.children_mk]

theorem walkValue_eq (nesting : Nat) (node : Node) :
    walkValue nesting node.children =
      ((node.child? "value").map (walk nesting)).getD zero := by
  unfold Node.child?
  induction node.children with
  | nil => rw [walkValue, List.find?_nil, Option.map_none, Option.getD_none]
  | cons child rest ih =>
      rw [walkValue, List.find?_cons, ih]
      cases child.label.field == "value" <;> rfl

theorem walkMatchBody_eq (nesting : Nat) (node : Node) :
    walkMatchBody nesting node.children =
      ((node.child? "body").map (walkArms nesting)).getD zero := by
  unfold Node.child?
  induction node.children with
  | nil => rw [walkMatchBody, List.find?_nil, Option.map_none, Option.getD_none]
  | cons child rest ih =>
      rw [walkMatchBody, List.find?_cons, ih]
      cases child.label.field == "body" <;> rfl

/-- Adding up over the named children, with or without their indices. -/
theorem sumOf_namedAmong {f : Node × Nat → Branching} {g : Node → Branching}
    (h : ∀ i child, Node.NamedChild node i child → f (child, i) = g child) :
    sumOf f node.namedAmong =
      sumOf (fun child => if child.isNamed then g child else zero) node.children := by
  calc
    sumOf f node.namedAmong = sumOf (fun child => g child.1) node.namedAmong :=
      sumOf_congr fun child hchild => h child.2 child.1 (Node.mem_namedAmong_iff.mp hchild)
    _ = sumOf (fun child : Node × Nat => if child.1.isNamed then g child.1 else zero)
        node.children.zipIdx := sumOf_filter _ _ _
    _ = sumOf (fun child => if child.isNamed then g child else zero)
        (node.children.zipIdx.map Prod.fst) :=
      (sumOf_map (fun child => if child.isNamed then g child else zero) Prod.fst _).symm
    _ = sumOf (fun child => if child.isNamed then g child else zero) node.children := by
      rw [List.zipIdx_map_fst]

/-- A node that is no return expression counts for its weight. -/
theorem look_eq_branch (nesting : Nat) (h : node.isReturn = false) :
    look nesting 0 node = branch nesting (weight node) := by
  simp [look, branch, h]

/-- The edges past an alternative lead where the walk goes on there. -/
theorem sumOf_edgesPast (nesting i : Nat) (clause : Node) :
    sumOf (follow nesting) (edgesPast i clause) = walkElse nesting clause := by
  rw [walkElse_eq, walkElseChildren_eq]
  unfold edgesPast
  rw [sumOf_map, sumOf_filter]
  apply sumOf_namedAmong
  intro j child hchild
  cases hif : child.isIf
  · cases hcomment : child.isComment <;> simp [follow]
  · simp [follow]

theorem walk_of_isIf (nesting : Nat) (hapart : node.siblingsApart = true)
    (hitem : node.isNestedItem = false) (hcomment : node.isComment = false)
    (h : node.isIf = true) :
    walk nesting node = look nesting 0 node ++ sumOf (follow nesting) (edges node) := by
  have hrole : Role.of node.kind = .conditional := by simpa [isIf_eq] using h
  have hlook : look nesting 0 node = branch nesting 1 := by
    rw [look_eq_branch nesting (by simp [isReturn_eq, hrole])]
    simp [weight, h]
  have hwalk : walk nesting node = branch nesting 1 ++
      walkIf nesting (node.child? "consequence") (node.child? "alternative") node.children := by
    cases node
    rw [walk, if_neg (by simp [hitem, hcomment]), if_pos h]
    rfl
  rw [hwalk, hlook, walkIf_eq, edges_of_isIf h, sumOf_flatMap]
  congr 1
  symm
  apply sumOf_namedAmong
  intro i child hchild
  unfold edgesThrough
  simp only [← Node.isAt_child?_iff hapart hchild.getElem?_eq]
  split
  · simp [follow]
  · split
    · exact sumOf_edgesPast nesting i child
    · simp [follow]

theorem walk_of_body (nesting : Nat) (hapart : node.siblingsApart = true)
    (hitem : node.isNestedItem = false) (hcomment : node.isComment = false)
    (h : node.isLoop = true ∨ node.isClosure = true) :
    walk nesting node = look nesting 0 node ++ sumOf (follow nesting) (edges node) := by
  have hwalk : walk nesting node =
      look nesting 0 node ++ walkBody nesting (node.child? "body") node.children := by
    have hrole : Role.of node.kind = .loop ∨ Role.of node.kind = .closure := by
      simpa [isLoop_eq, isClosure_eq] using h
    rcases hrole with hrole | hrole
    · rw [look_eq_branch nesting (by simp [isReturn_eq, hrole])]
      cases node
      simp [walk, hitem, hcomment, weight, isIf_eq, isLoop_eq, hrole]
    · rw [look_eq_branch nesting (by simp [isReturn_eq, hrole])]
      cases node
      simp [walk, hitem, hcomment, weight, isIf_eq, isLoop_eq, isMatch_eq, isClosure_eq,
        isBinary_eq, isLetChain_eq, hrole, branch, append_def]
  rw [hwalk, walkBody_eq, edges_of_body h, sumOf_map]
  congr 1
  symm
  apply sumOf_namedAmong
  intro i child hchild
  simp only [← Node.isAt_child?_iff hapart hchild.getElem?_eq]
  split <;> simp [follow]

/-- The edges to the arms lead where the walk goes on below the body of a match. -/
theorem sumOf_armEdges (nesting : Nat) (node : Node) :
    sumOf (follow nesting) (armEdges node) = walkMatchBody nesting node.children := by
  rw [walkMatchBody_eq]
  unfold armEdges
  rcases Node.fieldAmong_cases node "body" with ⟨hnil, hnone⟩ | ⟨i, block, hblock, -, -, hsome⟩
  · simp [hnil, hnone]
  · simp only [hblock, hsome, List.flatMap_singleton, Option.map_some, Option.getD_some]
    rw [walkArms_eq, walkArmsAmong_eq, sumOf_map, sumOf_filter]
    apply sumOf_namedAmong
    intro j child hchild
    simp [follow]

/-- The edge to the value leads where the walk goes on. -/
theorem sumOf_valueEdges (nesting : Nat) (node : Node) :
    sumOf (follow nesting) (valueEdges node) = walkValue nesting node.children := by
  rw [walkValue_eq]
  unfold valueEdges
  rcases Node.fieldAmong_cases node "value" with ⟨hnil, hnone⟩ | ⟨i, child, hchild, -, -, hsome⟩
  · simp [hnil, hnone]
  · simp [hchild, hsome, follow]

theorem walk_of_isMatch (nesting : Nat) (hitem : node.isNestedItem = false)
    (hcomment : node.isComment = false) (h : node.isMatch = true) :
    walk nesting node = look nesting 0 node ++ sumOf (follow nesting) (edges node) := by
  have hrole : Role.of node.kind = .choice := by simpa [isMatch_eq] using h
  rw [edges_of_isMatch h, sumOf_append, sumOf_valueEdges, sumOf_armEdges,
    look_eq_branch nesting (by simp [isReturn_eq, hrole])]
  cases node
  simp [walk, hitem, hcomment, weight, isIf_eq, isLoop_eq, isMatch_eq, hrole, append_assoc]

/-- What a node without a rule for its children adds is what it counts for. -/
theorem own_eq_look (nesting : Nat) (hif : node.isIf = false) (hloop : node.isLoop = false)
    (hmatch : node.isMatch = false) : own nesting node = look nesting 0 node := by
  by_cases hbinary : node.isBinary = true
  · have hrole : Role.of node.kind = .binary := by simpa [isBinary_eq] using hbinary
    rw [look_eq_branch nesting (by simp [isReturn_eq, hrole])]
    cases hoperator : node.child? "operator" with
    | none => simp [own, weight, hif, hloop, hmatch, hbinary, hoperator, branch, zero]
    | some operator =>
        cases hshort : operator.isShortCircuit <;>
          simp [own, weight, hif, hloop, hmatch, hbinary, hoperator, hshort, branch, zero]
  · by_cases hchain : node.isLetChain = true
    · have hrole : Role.of node.kind = .chain := by simpa [isLetChain_eq] using hchain
      rw [look_eq_branch nesting (by simp [isReturn_eq, hrole])]
      simp [own, weight, hif, hloop, hmatch, hbinary, hchain]
    · cases hreturn : node.isReturn <;>
        simp [own, look, weight, hif, hloop, hmatch, hbinary, hchain, hreturn, zero]

theorem walk_of_plain (nesting : Nat) (hitem : node.isNestedItem = false)
    (hcomment : node.isComment = false) (hif : node.isIf = false) (hloop : node.isLoop = false)
    (hmatch : node.isMatch = false) (hclosure : node.isClosure = false) :
    walk nesting node = look nesting 0 node ++ sumOf (follow nesting) (edges node) := by
  have hwalk : walk nesting node = own nesting node ++ walkNamed nesting node.children := by
    cases node
    simp [walk, hitem, hcomment, hif, hloop, hmatch, hclosure]
  rw [hwalk, own_eq_look nesting hif hloop hmatch, walkNamed_eq,
    edges_of_plain hif hloop hmatch hclosure, sumOf_map]
  congr 1
  symm
  apply sumOf_namedAmong
  intro i child _
  rfl

/-- A walk looks at a node and goes on along its edges. -/
theorem walk_eq_edges (nesting : Nat) (hapart : node.siblingsApart = true)
    (hitem : node.isNestedItem = false) (hcomment : node.isComment = false) :
    walk nesting node = look nesting 0 node ++ sumOf (follow nesting) (edges node) := by
  by_cases hif : node.isIf = true
  · exact walk_of_isIf nesting hapart hitem hcomment hif
  by_cases hbody : node.isLoop = true ∨ node.isClosure = true
  · exact walk_of_body nesting hapart hitem hcomment hbody
  by_cases hmatch : node.isMatch = true
  · exact walk_of_isMatch nesting hitem hcomment hmatch
  simp only [not_or, Bool.not_eq_true] at hif hbody hmatch
  exact walk_of_plain nesting hitem hcomment hif hbody.1 hmatch hbody.2

end CrateAtlas.Branching
