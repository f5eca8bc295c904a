import CrateAtlas.Proofs.Declared

/-!
# Positions in syntax trees

A node is known by its position, the children to take from the root down.  Properties of all nodes
of a tree are checked node by node, and hold of every part of the tree.

Main results:

- Theorem {lit}`everywhere_iff`: a property holds everywhere if it holds of a node and everywhere
  below its children.
- Theorem {lit}`isAt_child?_iff`: among siblings that can be told apart by span and type, the node
  at the place of a field is the first one under that field.
-/

namespace CrateAtlas

/-! ## Positions -/

namespace Position

variable {p q : Position} {i j : Nat}

/-- Neither position is the other one or above it. -/
def Apart (p q : Position) : Prop :=
  ¬p <+: q ∧ ¬q <+: p

theorem Apart.symm (h : Apart p q) : Apart q p :=
  ⟨h.2, h.1⟩

theorem Apart.ne (h : Apart p q) : p ≠ q := by
  rintro rfl
  exact h.1 List.prefix_rfl

/-- Positions are apart if they branch off at different children. -/
theorem apart_cons_of_ne (h : i ≠ j) : Apart (i :: p) (j :: q) := by
  constructor
  · intro hprefix
    exact h (List.cons_prefix_cons.mp hprefix).1
  · intro hprefix
    exact h (List.cons_prefix_cons.mp hprefix).1.symm

theorem apart_append_left_iff {r : Position} : Apart (r ++ p) (r ++ q) ↔ Apart p q := by
  unfold Apart
  rw [List.prefix_append_right_inj, List.prefix_append_right_inj]

/-- Positions below positions that are apart are apart. -/
theorem Apart.append (h : Apart p q) (r s : Position) : Apart (p ++ r) (q ++ s) := by
  constructor
  · intro hprefix
    have hp : p <+: q ++ s := (List.prefix_append p r).trans hprefix
    exact (List.prefix_or_prefix_of_prefix hp (List.prefix_append q s)).elim h.1 h.2
  · intro hprefix
    have hq : q <+: p ++ r := (List.prefix_append q s).trans hprefix
    exact (List.prefix_or_prefix_of_prefix hq (List.prefix_append p r)).elim h.2 h.1

/-- Nothing below one of two positions that are apart is near the other one. -/
theorem Apart.append_right (h : Apart p q) (s : Position) : Apart p (q ++ s) := by
  simpa using h.append [] s

end Position

namespace Node

/-- The node at a position below a node. -/
def at? : Node → Position → Option Node
  | node, [] => some node
  | node, i :: rest => node.children[i]?.bind fun child => child.at? rest

/-! ## Properties of all nodes -/

mutual

/-- Whether a property holds of all nodes at and below a node. -/
def everywhere (p : Node → Bool) : Node → Bool
  | node@(.mk _ children) => p node && everywhereAmong p children

/-- Whether a property holds of all nodes at and below several nodes. -/
def everywhereAmong (p : Node → Bool) : List Node → Bool
  | [] => true
  | node :: rest => everywhere p node && everywhereAmong p rest

end

variable {p : Node → Bool} {node child : Node} {nodes : List Node} {field : String} {i : Nat}

theorem everywhereAmong_iff :
    everywhereAmong p nodes = true ↔ ∀ node ∈ nodes, node.everywhere p = true := by
  induction nodes with
  | nil => simp [everywhereAmong]
  | cons node rest ih => simp [everywhereAmong, ih]

theorem everywhere_iff :
    node.everywhere p = true ↔
      p node = true ∧ ∀ child ∈ node.children, child.everywhere p = true := by
  cases node with
  | mk label children => rw [everywhere, Bool.and_eq_true, everywhereAmong_iff, children_mk]

/-! ## Nodes below a node -/

@[simp]
theorem at?_nil (node : Node) : node.at? [] = some node :=
  rfl

@[simp]
theorem at?_cons (node : Node) (i : Nat) (rest : Position) :
    node.at? (i :: rest) = node.children[i]?.bind fun child => child.at? rest :=
  rfl

theorem at?_append (node : Node) (p q : Position) :
    node.at? (p ++ q) = (node.at? p).bind fun below => below.at? q := by
  induction p generalizing node with
  | nil => rfl
  | cons i rest ih =>
      rw [List.cons_append, at?_cons, at?_cons, Option.bind_assoc]
      simp only [ih]

/-- A child is smaller than its node. -/
theorem size_lt_of_mem_children (h : child ∈ node.children) : child.size < node.size := by
  have hle := size_le_sizeAll_of_mem h
  cases node with
  | mk label children =>
      rw [size_mk]
      rw [children_mk] at hle
      omega

/-- A node below another one is its child or below one. -/
theorem at?_cons_eq_some_iff {rest : Position} :
    node.at? (i :: rest) = some child ↔
      ∃ first, node.children[i]? = some first ∧ first.at? rest = some child := by
  rw [at?_cons, Option.bind_eq_some_iff]

theorem size_le_of_at? {position : Position} (h : node.at? position = some child) :
    child.size ≤ node.size := by
  induction position generalizing node with
  | nil =>
      rw [at?_nil, Option.some.injEq] at h
      exact h ▸ Nat.le_refl _
  | cons i rest ih =>
      obtain ⟨first, hfirst, hbelow⟩ := at?_cons_eq_some_iff.mp h
      exact Nat.le_trans (ih hbelow)
        (Nat.le_of_lt (size_lt_of_mem_children (List.mem_of_getElem? hfirst)))

/-- To show something of all nodes, show it of a node if it holds of its children. -/
theorem inductionOn_children {motive : Node → Prop}
    (step : ∀ node, (∀ child ∈ node.children, motive child) → motive node) (node : Node) :
    motive node := by
  induction hsize : node.size using Nat.strong_induction_on generalizing node with
  | _ size ih =>
      apply step
      intro child hchild
      exact ih child.size (hsize ▸ size_lt_of_mem_children hchild) child rfl

/-- A node strictly below another one is smaller. -/
theorem size_lt_of_at? {position : Position} (h : node.at? position = some child)
    (hne : position ≠ []) : child.size < node.size := by
  cases position with
  | nil => contradiction
  | cons i rest =>
      obtain ⟨first, hfirst, hbelow⟩ := at?_cons_eq_some_iff.mp h
      have hlt := size_lt_of_mem_children (List.mem_of_getElem? hfirst)
      have hle := size_le_of_at? hbelow
      omega

/-- What holds everywhere holds everywhere below each node. -/
theorem everywhere_at? {position : Position} (h : node.everywhere p = true)
    (hat : node.at? position = some child) : child.everywhere p = true := by
  induction position generalizing node with
  | nil =>
      rw [at?_nil, Option.some.injEq] at hat
      exact hat ▸ h
  | cons i rest ih =>
      obtain ⟨first, hfirst, hbelow⟩ := at?_cons_eq_some_iff.mp hat
      exact ih ((everywhere_iff.mp h).2 first (List.mem_of_getElem? hfirst)) hbelow

/-! ## Fields and places -/

/-- The first child under a field, by its index. -/
theorem child?_eq_some_iff :
    node.child? field = some child ↔
      ∃ i, node.childIndex? field = some i ∧ node.children[i]? = some child :=
  find?_eq_some_iff_findIdx?

/-- A field has a first child, with its index, or it has neither. -/
theorem childIndex?_cases (node : Node) (field : String) :
    (node.childIndex? field = none ∧ node.child? field = none) ∨
      ∃ i child, node.childIndex? field = some i ∧ node.children[i]? = some child ∧
        node.child? field = some child := by
  cases hchild : node.child? field with
  | some child =>
      obtain ⟨i, hindex, hget⟩ := child?_eq_some_iff.mp hchild
      exact .inr ⟨i, child, hindex, hget, rfl⟩
  | none =>
      refine .inl ⟨?_, rfl⟩
      rw [childIndex?, List.findIdx?_eq_none_iff]
      intro child hmem
      simpa using List.find?_eq_none.mp hchild child hmem

/-- A child is the first one under at most one field. -/
theorem field_eq_of_childIndex? {field' : String} (h : node.childIndex? field = some i)
    (h' : node.childIndex? field' = some i) : field = field' := by
  obtain ⟨_, hfield, -⟩ := List.findIdx?_eq_some_iff_getElem.mp h
  obtain ⟨_, hother, -⟩ := List.findIdx?_eq_some_iff_getElem.mp h'
  exact (eq_of_beq hfield).symm.trans (eq_of_beq hother)

/-! ## Children by their indices -/

/-- A named child of a node. -/
structure NamedChild (node : Node) (i : Nat) (child : Node) : Prop where
  getElem?_eq : node.children[i]? = some child
  isNamed : child.isNamed = true

/-- The named children of a node, with their indices. -/
def namedAmong (node : Node) : List (Node × Nat) :=
  node.children.zipIdx.filter fun child => child.1.isNamed

/-- The first child under a field, with its index. -/
def fieldAmong (node : Node) (field : String) : List (Node × Nat) :=
  (node.childIndex? field).toList.flatMap fun i =>
    node.children[i]?.toList.map fun child => (child, i)

theorem mem_namedAmong_iff : (child, i) ∈ node.namedAmong ↔ NamedChild node i child := by
  unfold namedAmong
  rw [List.mem_filter, List.mem_zipIdx_iff_getElem?]
  constructor
  · rintro ⟨hget, hnamed⟩
    exact ⟨hget, hnamed⟩
  · rintro ⟨hget, hnamed⟩
    exact ⟨hget, hnamed⟩

/-- Nodes are listed by their indices. -/
theorem zipIdx_ordered (nodes : List Node) : nodes.zipIdx.Pairwise fun a b => a.2 < b.2 := by
  have hindices : (nodes.zipIdx.map Prod.snd).Pairwise (· < ·) := by
    rw [List.zipIdx_map_snd]
    exact List.pairwise_lt_range'
  exact List.pairwise_map.mp hindices

/-- The children of a node are at different indices. -/
theorem zipIdx_children_pairwise (node : Node) :
    node.children.zipIdx.Pairwise fun a b => a.2 ≠ b.2 :=
  (zipIdx_ordered node.children).imp Nat.ne_of_lt

theorem namedAmong_ordered (node : Node) : node.namedAmong.Pairwise fun a b => a.2 < b.2 :=
  (zipIdx_ordered node.children).filter _

theorem namedAmong_pairwise (node : Node) : node.namedAmong.Pairwise fun a b => a.2 ≠ b.2 :=
  node.namedAmong_ordered.imp Nat.ne_of_lt

theorem namedAmong_map_fst (node : Node) : node.namedAmong.map Prod.fst = node.namedChildren := by
  have hfilter := List.filter_map (p := isNamed) (f := Prod.fst) (l := node.children.zipIdx)
  rw [List.zipIdx_map_fst] at hfilter
  exact hfilter.symm

/-- There is a first child under a field, or there is none. -/
theorem fieldAmong_cases (node : Node) (field : String) :
    (node.fieldAmong field = [] ∧ node.child? field = none) ∨
      ∃ i child, node.fieldAmong field = [(child, i)] ∧ node.childIndex? field = some i ∧
        node.children[i]? = some child ∧ node.child? field = some child := by
  rcases childIndex?_cases node field with ⟨hindex, hnone⟩ | ⟨i, child, hindex, hget, hsome⟩
  · exact .inl ⟨by simp [fieldAmong, hindex], hnone⟩
  · exact .inr ⟨i, child, by simp [fieldAmong, hindex, hget], hindex, hget, hsome⟩

/-- There is at most one first child under a field. -/
theorem fieldAmong_pairwise {R : Node × Nat → Node × Nat → Prop} (node : Node) (field : String) :
    (node.fieldAmong field).Pairwise R := by
  rcases fieldAmong_cases node field with ⟨hnil, -⟩ | ⟨i, child, hchild, -⟩
  · simp [hnil]
  · simp [hchild]

theorem mem_fieldAmong_iff : (child, i) ∈ node.fieldAmong field ↔
    node.childIndex? field = some i ∧ node.children[i]? = some child := by
  simp only [fieldAmong, List.mem_flatMap, List.mem_map, Option.mem_toList, Prod.mk.injEq]
  constructor
  · rintro ⟨i, hindex, child, hget, rfl, rfl⟩
    exact ⟨hindex, hget⟩
  · rintro ⟨hindex, hget⟩
    exact ⟨i, hindex, child, hget, rfl, rfl⟩

/-! ## Siblings that can be told apart -/

/-- No two children of a node have the same span and type. -/
def siblingsApart (node : Node) : Bool :=
  decide (node.children.Pairwise fun a b => a.label.samePlace b.label = false)

theorem samePlace_self (label : Label) : label.samePlace label = true := by
  simp [Label.samePlace]

theorem samePlace_comm (a b : Label) : a.samePlace b = b.samePlace a := by
  unfold Label.samePlace
  rw [Bool.beq_comm (a := a.start), Bool.beq_comm (a := a.stop), Bool.beq_comm (a := a.kind)]

/-- Siblings that can be told apart are known by their places. -/
theorem eq_of_samePlace (hapart : node.siblingsApart = true) {j : Nat} {other : Node}
    (hchild : node.children[i]? = some child) (hother : node.children[j]? = some other)
    (hplace : child.label.samePlace other.label = true) : i = j := by
  have hpairwise := List.pairwise_iff_getElem.mp (of_decide_eq_true hapart)
  obtain ⟨hi, rfl⟩ := List.getElem?_eq_some_iff.mp hchild
  obtain ⟨hj, rfl⟩ := List.getElem?_eq_some_iff.mp hother
  rcases Nat.lt_trichotomy i j with hlt | heq | hgt
  · rw [hpairwise i j hi hj hlt] at hplace
    contradiction
  · exact heq
  · rw [samePlace_comm, hpairwise j i hj hi hgt] at hplace
    contradiction

/-- Among siblings that can be told apart, the child at the place of a field is the first one
under that field. -/
theorem isAt_child?_iff (hapart : node.siblingsApart = true)
    (hchild : node.children[i]? = some child) :
    child.isAt (node.child? field) = true ↔ node.childIndex? field = some i := by
  constructor
  · intro hat
    cases hfield : node.child? field with
    | none => simp [isAt, hfield] at hat
    | some other =>
        obtain ⟨j, hindex, hother⟩ := child?_eq_some_iff.mp hfield
        have hplace : child.label.samePlace other.label = true := by
          simpa [isAt, hfield] using hat
        rw [eq_of_samePlace hapart hchild hother hplace]
        exact hindex
  · intro hindex
    rw [child?_eq_some_iff.mpr ⟨i, hindex, hchild⟩]
    exact samePlace_self child.label

end Node

end CrateAtlas
