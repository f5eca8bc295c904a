import CrateAtlas.Proofs.NodePath
import CrateAtlas.Reference.Usage

/-!
# Which nodes use names

The places where a declaration uses names are found by going down its tree by several rules at once.
Here every use is listed with the position of the node that makes it.  What a rule finds at a node
and where it goes on are apart from each other, so no node is found twice, and none below another
one.

Main results:

- Theorem {lit}`walk_eq_step`: the search as one step at a node.
- Theorem {lit}`uses_sites`: the uses, without their positions, are what the search finds.
- Theorem {lit}`uses_apart`: the positions of the uses below a node are apart.
- Theorems {lit}`usesOf_sites` and {lit}`usesOf_apart`: the same for a declaration.
-/

namespace CrateAtlas

/-- A place where a name is used, with the position of the node that uses it. -/
structure Use where
  position : Position
  site : UsageSite

namespace Use

/-- A use below a child, seen from the node. -/
def below (i : Nat) (use : Use) : Use :=
  ⟨i :: use.position, use.site⟩

/-- The positions of two uses are apart. -/
def Apart (a b : Use) : Prop :=
  Position.Apart a.position b.position

/-- A use is made by the node at its position. -/
def At (node : Node) (use : Use) : Prop :=
  ∃ user, node.at? use.position = some user ∧ user.label = use.site.label

theorem At.below {node child : Node} {i : Nat} {use : Use} (hget : node.children[i]? = some child)
    (h : use.At child) : (use.below i).At node := by
  obtain ⟨user, hat, hlabel⟩ := h
  exact ⟨user, Node.at?_cons_eq_some_iff.mpr ⟨child, hget, hat⟩, hlabel⟩

end Use

namespace UsageSite

variable {node child : Node} {role : Role} {kind : Kind} {i : Nat}

/-! ## One step of the search -/

/-- A child at which the search goes on, and how the child is looked at. -/
structure Turn where
  index : Nat
  target : Node
  role : Role

/-- Go on at the first child under a field. -/
def turnsAt (node : Node) (field : String) (role : Role) : List Turn :=
  (node.fieldAmong field).map fun child => ⟨child.2, child.1, role⟩

/-- Use the name under a field. -/
def usesAt (node : Node) (field : String) (form : UsageForm) : List Use :=
  (node.fieldAmong field).map fun child => ⟨[child.2], ⟨form, child.1.label⟩⟩

/-- What a node uses itself, and where the search goes on. -/
def step (role : Role) (node : Node) : List Use × List Turn :=
  if role = .called ∧ node.kind = "generic_function" then
    ([], turnsAt node "type_arguments" .ordinary ++ turnsAt node "function" .called)
  else if role = .called ∧ node.isPathCallee then ([⟨[], ⟨.callee, node.label⟩⟩], [])
  else if role = .called ∧ node.kind = "field_expression" then
    (usesAt node "field" .method, turnsAt node "value" .ordinary)
  else if node.isComment || node.isNestedItem || node.isAttribute then ([], [])
  else if node.kind = "call_expression" then
    ([], turnsAt node "function" .called ++ turnsAt node "arguments" .ordinary)
  else if node.kind = "macro_invocation" then (usesAt node "macro" .macroName, [])
  else if node.isTypeName then ([⟨[], ⟨.typeName, node.label⟩⟩], [])
  else ([], node.namedAmong.map fun child => ⟨child.2, child.1, .ordinary⟩)

theorem walkField_eq (node : Node) (field : String) (role : Role) :
    walkField field role node.children = ((node.child? field).map (walk role)).getD [] := by
  unfold Node.child?
  induction node.children with
  | nil => rw [walkField, List.find?_nil, Option.map_none, Option.getD_none]
  | cons child rest ih =>
      rw [walkField, List.find?_cons, ih]
      cases child.label.field == field <;> rfl

/-- The search at a field goes on at the child there. -/
theorem flatMap_turnsAt (node : Node) (field : String) (role : Role) :
    ((turnsAt node field role).flatMap fun turn => walk turn.role turn.target) =
      walkField field role node.children := by
  rw [walkField_eq]
  unfold turnsAt
  rcases Node.fieldAmong_cases node field with ⟨hnil, hnone⟩ | ⟨i, child, hchild, -, -, hsome⟩
  · simp [hnil, hnone]
  · simp [hchild, hsome]

/-- The name under a field is used once, if there is one. -/
theorem map_usesAt (node : Node) (field : String) (form : UsageForm) :
    (usesAt node field form).map Use.site =
      match node.child? field with
      | some name => [⟨form, name.label⟩]
      | none => [] := by
  unfold usesAt
  rcases Node.fieldAmong_cases node field with ⟨hnil, hnone⟩ | ⟨i, child, hchild, -, -, hsome⟩
  · simp [hnil, hnone]
  · simp [hchild, hsome]

theorem walkNamed_eq (node : Node) :
    walkNamed node.children = node.namedAmong.flatMap fun child => walk .ordinary child.1 := by
  have hlist : ∀ nodes : List Node, walkNamed nodes =
      (nodes.filter Node.isNamed).flatMap (walk .ordinary) := by
    intro nodes
    induction nodes with
    | nil => rw [walkNamed, List.filter_nil, List.flatMap_nil]
    | cons first rest ih =>
        rw [walkNamed, ih]
        cases hnamed : first.isNamed <;> simp [hnamed]
  rw [hlist, ← Node.namedChildren, ← Node.namedAmong_map_fst, List.flatMap_map]

/-- The search finds what a node uses itself and what it finds where it goes on. -/
theorem walk_eq_step (role : Role) (node : Node) :
    walk role node = (step role node).1.map Use.site ++
      (step role node).2.flatMap fun turn => walk turn.role turn.target := by
  have hwalk : walk role node =
      if role = .called ∧ node.kind = "generic_function" then
        walkField "type_arguments" .ordinary node.children ++
          walkField "function" .called node.children
      else if role = .called ∧ node.isPathCallee then [⟨.callee, node.label⟩]
      else if role = .called ∧ node.kind = "field_expression" then
        (usesAt node "field" .method).map Use.site ++ walkField "value" .ordinary node.children
      else if node.isComment || node.isNestedItem || node.isAttribute then []
      else if node.kind = "call_expression" then
        walkField "function" .called node.children ++
          walkField "arguments" .ordinary node.children
      else if node.kind = "macro_invocation" then (usesAt node "macro" .macroName).map Use.site
      else if node.isTypeName then [⟨.typeName, node.label⟩]
      else walkNamed node.children := by
    rw [map_usesAt, map_usesAt]
    cases node
    rw [walk]
    rfl
  rw [hwalk]
  unfold step
  split_ifs
  · rw [List.flatMap_append, flatMap_turnsAt, flatMap_turnsAt]
    rfl
  · rfl
  · rw [flatMap_turnsAt]
  · rfl
  · rw [List.flatMap_append, flatMap_turnsAt, flatMap_turnsAt]
    rfl
  · rw [List.flatMap_nil, List.append_nil]
  · rfl
  · rw [walkNamed_eq, List.flatMap_map]
    rfl

/-- Where a step goes on are children of the node. -/
theorem getElem?_of_turn {turn : Turn} (h : turn ∈ (step role node).2) :
    node.children[turn.index]? = some turn.target := by
  have hfield : ∀ {field role'}, turn ∈ turnsAt node field role' →
      node.children[turn.index]? = some turn.target := by
    intro field role' hmem
    obtain ⟨⟨child, i⟩, hchild, rfl⟩ := List.mem_map.mp hmem
    exact (Node.mem_fieldAmong_iff.mp hchild).2
  unfold step at h
  split_ifs at h
  · exact (List.mem_append.mp h).elim hfield hfield
  · simp at h
  · exact hfield h
  · simp at h
  · exact (List.mem_append.mp h).elim hfield hfield
  · simp at h
  · simp at h
  · obtain ⟨⟨child, i⟩, hchild, rfl⟩ := List.mem_map.mp h
    exact (Node.mem_namedAmong_iff.mp hchild).getElem?_eq

theorem at_of_mem_usesAt {use : Use} {field : String} {form : UsageForm}
    (h : use ∈ usesAt node field form) : use.At node := by
  obtain ⟨⟨child, i⟩, hchild, rfl⟩ := List.mem_map.mp h
  have hget := (Node.mem_fieldAmong_iff.mp hchild).2
  exact ⟨child, by simp [hget], rfl⟩

/-- A field gives at most one use. -/
theorem pairwise_usesAt {R : Use → Use → Prop} (node : Node) (field : String) (form : UsageForm) :
    (usesAt node field form).Pairwise R :=
  List.pairwise_map.mpr (node.fieldAmong_pairwise field)

/-- What a step uses is used by the node itself or by a child of it. -/
theorem at_of_step {use : Use} (h : use ∈ (step role node).1) : use.At node := by
  unfold step at h
  split_ifs at h
  · simp at h
  · rw [List.mem_singleton.mp h]
    exact ⟨node, rfl, rfl⟩
  · exact at_of_mem_usesAt h
  · simp at h
  · simp at h
  · exact at_of_mem_usesAt h
  · rw [List.mem_singleton.mp h]
    exact ⟨node, rfl, rfl⟩
  · simp at h

/-- The first children under two fields are at positions that are apart. -/
theorem fields_apart (node : Node) {field field' : String} (hne : field ≠ field') :
    (((node.fieldAmong field).map fun child => [child.2]) ++
      (node.fieldAmong field').map fun child => [child.2]).Pairwise Position.Apart := by
  rcases Node.fieldAmong_cases node field with ⟨hnil, -⟩ | ⟨i, child, hchild, hindex, -⟩ <;>
    rcases Node.fieldAmong_cases node field' with ⟨hnil', -⟩ | ⟨j, other, hother, hindex', -⟩
  · simp [hnil, hnil']
  · simp [hnil, hother]
  · simp [hchild, hnil']
  · rw [hchild, hother]
    refine List.pairwise_pair.mpr (Position.apart_cons_of_ne ?_)
    rintro rfl
    exact hne (Node.field_eq_of_childIndex? hindex hindex')

/-- What a step uses and where it goes on are at positions that are apart. -/
theorem step_apart (role : Role) (node : Node) :
    ((step role node).1.map Use.position ++
      (step role node).2.map fun turn => [turn.index]).Pairwise Position.Apart := by
  have hturns : ∀ field role', (turnsAt node field role').map (fun turn => [turn.index]) =
      (node.fieldAmong field).map fun child => [child.2] := by
    intro field role'
    rw [turnsAt, List.map_map]
    rfl
  have huses : ∀ field form, (usesAt node field form).map Use.position =
      (node.fieldAmong field).map fun child => [child.2] := by
    intro field form
    rw [usesAt, List.map_map]
    rfl
  unfold step
  split_ifs
  · rw [List.map_nil, List.nil_append, List.map_append, hturns, hturns]
    exact fields_apart node (by decide)
  · exact List.pairwise_singleton _ _
  · rw [huses, hturns]
    exact fields_apart node (by decide)
  · exact .nil
  · rw [List.map_nil, List.nil_append, List.map_append, hturns, hturns]
    exact fields_apart node (by decide)
  · rw [List.map_nil, List.append_nil, huses]
    exact (List.pairwise_append.mp (fields_apart node (show "macro" ≠ "" by decide))).1
  · exact List.pairwise_singleton _ _
  · rw [List.map_nil, List.nil_append, List.map_map, List.pairwise_map]
    exact node.namedAmong_pairwise.imp Position.apart_cons_of_ne

/-! ## The uses below a node -/

/-- The uses below a node. -/
def uses (role : Role) (node : Node) : List Use :=
  (step role node).1 ++ (step role node).2.attach.flatMap fun turn =>
    (uses turn.1.role turn.1.target).map (.below turn.1.index)
termination_by node.size
decreasing_by
  exact Node.size_lt_of_mem_children (List.mem_of_getElem? (getElem?_of_turn turn.2))

theorem uses_eq (role : Role) (node : Node) :
    uses role node = (step role node).1 ++ (step role node).2.flatMap fun turn =>
      (uses turn.role turn.target).map (.below turn.index) := by
  rw [uses]
  simp only [List.flatMap_subtype, List.unattach_attach]

/-- The uses, without their positions, are what the search finds. -/
theorem uses_sites (role : Role) (node : Node) :
    (uses role node).map Use.site = walk role node := by
  induction node using Node.inductionOn_children generalizing role with
  | step node ih =>
      rw [uses_eq, walk_eq_step, List.map_append, List.map_flatMap]
      congr 1
      apply List.flatMap_congr
      intro turn hturn
      rw [← ih turn.target (List.mem_of_getElem? (getElem?_of_turn hturn)) turn.role, List.map_map]
      rfl

/-- Uses are made by nodes at and below a node. -/
theorem at_of_mem_uses {use : Use} (h : use ∈ uses role node) : use.At node := by
  induction node using Node.inductionOn_children generalizing role use with
  | step node ih =>
      rw [uses_eq] at h
      rcases List.mem_append.mp h with h | h
      · exact at_of_step h
      · obtain ⟨turn, hturn, h⟩ := List.mem_flatMap.mp h
        obtain ⟨inner, hinner, rfl⟩ := List.mem_map.mp h
        have hget := getElem?_of_turn hturn
        exact .below hget (ih turn.target (List.mem_of_getElem? hget) hinner)

/-- Below children at different indices, uses are apart. -/
theorem below_apart {inside inside' : List Use} {i j : Nat} (hne : i ≠ j) :
    ∀ a ∈ inside.map (Use.below i), ∀ b ∈ inside'.map (Use.below j), a.Apart b := by
  intro a ha b hb
  obtain ⟨inner, _, rfl⟩ := List.mem_map.mp ha
  obtain ⟨other, _, rfl⟩ := List.mem_map.mp hb
  exact Position.apart_cons_of_ne hne

/-- Below one child, uses are apart if they are apart from the child on. -/
theorem pairwise_below {inside : List Use} (i : Nat) (h : inside.Pairwise Use.Apart) :
    (inside.map (Use.below i)).Pairwise Use.Apart := by
  refine List.pairwise_map.mpr (h.imp ?_)
  intro a b hapart
  exact (Position.apart_append_left_iff (r := [i])).mpr hapart

/-- The positions of the uses below a node are apart: no node is found twice, and none below
another one. -/
theorem uses_apart (role : Role) (node : Node) : (uses role node).Pairwise Use.Apart := by
  induction node using Node.inductionOn_children generalizing role with
  | step node ih =>
      obtain ⟨hown, hturns, hbetween⟩ := List.pairwise_append.mp (step_apart role node)
      rw [List.pairwise_map] at hown hturns
      rw [uses_eq, List.pairwise_append, List.pairwise_flatMap]
      refine ⟨hown, ⟨?_, ?_⟩, ?_⟩
      · intro turn hturn
        exact pairwise_below turn.index
          (ih turn.target (List.mem_of_getElem? (getElem?_of_turn hturn)) turn.role)
      · refine hturns.imp ?_
        intro a b hapart
        apply below_apart
        intro heq
        exact hapart.ne (by rw [heq])
      · intro a ha b hb
        obtain ⟨turn, hturn, hb⟩ := List.mem_flatMap.mp hb
        obtain ⟨inner, _, rfl⟩ := List.mem_map.mp hb
        have hapart := hbetween a.position (List.mem_map_of_mem ha) [turn.index]
          (List.mem_map_of_mem hturn)
        exact hapart.append_right inner.position

/-! ## The uses of a declaration -/

/-- The children of a declaration in which its own uses are looked for, with their indices. -/
def searchedAmong (kind : Kind) (node : Node) : List (Node × Nat) :=
  let skipped := (skippedFields kind).filterMap node.childIndex?
  node.children.zipIdx.filter fun (child, i) => child.isNamed && !skipped.contains i

/-- The uses of a declaration. -/
def usesOf (kind : Kind) (node : Node) : List Use :=
  (if kind = .impl then usesAt node "trait" .implemented else []) ++
    (searchedAmong kind node).flatMap fun child =>
      (uses .ordinary child.1).map (.below child.2)

/-- The uses, without their positions, are the places where the declaration uses names. -/
theorem usesOf_sites (kind : Kind) (node : Node) :
    (usesOf kind node).map Use.site = ofItem kind node := by
  have himplemented : (if kind = .impl then usesAt node "trait" .implemented else []).map Use.site =
      implemented kind node := by
    unfold implemented
    split
    · exact map_usesAt node "trait" .implemented
    · rfl
  have hsearched : ((searchedAmong kind node).flatMap fun child =>
      (uses .ordinary child.1).map (.below child.2)).map Use.site =
      (searched kind node).flatMap (walk .ordinary) := by
    rw [List.map_flatMap]
    show _ = ((searchedAmong kind node).map Prod.fst).flatMap (walk .ordinary)
    rw [List.flatMap_map]
    apply List.flatMap_congr
    intro child _
    rw [← uses_sites, List.map_map]
    rfl
  rw [usesOf, List.map_append, himplemented, hsearched, ofItem]

/-- A child that is searched is a named one, and not the first one under a field that is
skipped. -/
theorem mem_searchedAmong_iff : (child, i) ∈ searchedAmong kind node ↔
    Node.NamedChild node i child ∧
      ∀ field ∈ skippedFields kind, node.childIndex? field ≠ some i := by
  simp only [searchedAmong, List.mem_filter, List.mem_zipIdx_iff_getElem?, Bool.and_eq_true,
    Bool.not_eq_true', List.contains_eq_mem, decide_eq_false_iff_not, List.mem_filterMap,
    not_exists, not_and]
  constructor
  · rintro ⟨hget, hnamed, hskipped⟩
    exact ⟨⟨hget, hnamed⟩, hskipped⟩
  · rintro ⟨⟨hget, hnamed⟩, hskipped⟩
    exact ⟨hget, hnamed, hskipped⟩

/-- Uses of a declaration are made by nodes below it. -/
theorem at_of_mem_usesOf {use : Use} (h : use ∈ usesOf kind node) : use.At node := by
  rcases List.mem_append.mp h with h | h
  · split at h
    · exact at_of_mem_usesAt h
    · simp at h
  · obtain ⟨⟨child, i⟩, hchild, h⟩ := List.mem_flatMap.mp h
    obtain ⟨inner, hinner, rfl⟩ := List.mem_map.mp h
    exact .below (mem_searchedAmong_iff.mp hchild).1.getElem?_eq (at_of_mem_uses hinner)

/-- The trait of an impl block is not searched. -/
theorem trait_not_searched (hkind : kind = .impl) {j : Nat}
    (h : (child, i) ∈ searchedAmong kind node) (htrait : node.childIndex? "trait" = some j) :
    j ≠ i := by
  subst hkind
  rintro rfl
  exact (mem_searchedAmong_iff.mp h).2 "trait" (by decide) htrait

/-- The positions of the uses of a declaration are apart. -/
theorem usesOf_apart (kind : Kind) (node : Node) : (usesOf kind node).Pairwise Use.Apart := by
  have hsearched : (searchedAmong kind node).Pairwise fun a b => a.2 ≠ b.2 :=
    node.zipIdx_children_pairwise.filter _
  rw [usesOf, List.pairwise_append, List.pairwise_flatMap]
  refine ⟨?_, ⟨?_, hsearched.imp below_apart⟩, ?_⟩
  · split
    · exact pairwise_usesAt _ _ _
    · exact .nil
  · intro child _
    exact pairwise_below child.2 (uses_apart .ordinary child.1)
  · intro a ha b hb
    split at ha <;> rename_i hkind
    · obtain ⟨⟨trait, j⟩, htrait, rfl⟩ := List.mem_map.mp ha
      obtain ⟨⟨child, i⟩, hchild, hb⟩ := List.mem_flatMap.mp hb
      obtain ⟨inner, _, rfl⟩ := List.mem_map.mp hb
      exact Position.apart_cons_of_ne
        (trait_not_searched hkind hchild (Node.mem_fieldAmong_iff.mp htrait).1)
    · simp at ha

/-- A declaration whose body holds other declarations uses no names in it. -/
theorem position_of_mem_usesOf {use : Use} (hkind : kind = .impl ∨ kind = .trait)
    (h : use ∈ usesOf kind node) :
    ∃ i rest, use.position = i :: rest ∧ node.childIndex? "body" ≠ some i := by
  rcases List.mem_append.mp h with h | h
  · split at h
    · obtain ⟨⟨trait, i⟩, htrait, rfl⟩ := List.mem_map.mp h
      refine ⟨i, [], rfl, ?_⟩
      intro hbody
      have heq := Node.field_eq_of_childIndex? (Node.mem_fieldAmong_iff.mp htrait).1 hbody
      exact absurd heq (by decide)
    · simp at h
  · obtain ⟨⟨child, i⟩, hchild, h⟩ := List.mem_flatMap.mp h
    obtain ⟨inner, _, rfl⟩ := List.mem_map.mp h
    refine ⟨i, inner.position, rfl, (mem_searchedAmong_iff.mp hchild).2 "body" ?_⟩
    rcases hkind with rfl | rfl <;> decide

end UsageSite

end CrateAtlas
