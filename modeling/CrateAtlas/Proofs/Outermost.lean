import CrateAtlas.Proofs.Spans

/-!
# Outermost nodes

Of the nodes of a tree that have a property, the outermost ones stand below no other node that has
it.  They can be listed in pre-order by going down until the property holds.

Main results:

- Theorem {lit}`mem_outermost_iff`: the list has the outermost nodes, by their positions.
- Theorem {lit}`outermost_ordered`: it is in pre-order.
- Theorem {lit}`outermost_inTurn`: in a tree that is laid out over its source, each of them ends
  before the next one starts.
-/

namespace CrateAtlas

/-- What is found below a child, seen from its node. -/
def Position.below (i : Nat) (found : Position × Node) : Position × Node :=
  (i :: found.1, found.2)

namespace Node

/-- A node of a tree that has a property, where no node above it has the property. -/
structure OutermostAt (p : Node → Bool) (root : Node) (position : Position) (node : Node) :
    Prop where
  at?_eq : root.at? position = some node
  holds : p node = true
  clear : ∀ front above, front <+: position → front ≠ position → root.at? front = some above →
    p above = false

mutual

/-- The outermost nodes with a property at and below a node, with their positions. -/
def outermost (p : Node → Bool) : Node → List (Position × Node)
  | node@(.mk _ children) => if p node then [([], node)] else outermostAmong p 0 children

/-- The outermost nodes with a property at and below several children, the first of which has the
index {lit}`i`. -/
def outermostAmong (p : Node → Bool) : (i : Nat) → List Node → List (Position × Node)
  | _, [] => []
  | i, node :: rest => (outermost p node).map (Position.below i) ++ outermostAmong p (i + 1) rest

end

variable {p : Node → Bool} {root node child found : Node} {nodes : List Node}
  {position rest : Position} {i : Nat}

theorem outermost_eq (p : Node → Bool) (node : Node) :
    outermost p node = if p node then [([], node)] else outermostAmong p 0 node.children := by
  cases node
  rw [outermost]
  rfl

/-! ## One step down -/

theorem outermostAt_nil_iff : OutermostAt p root [] node ↔ node = root ∧ p root = true := by
  constructor
  · intro h
    obtain rfl := Option.some.inj h.at?_eq
    exact ⟨rfl, h.holds⟩
  · rintro ⟨rfl, hholds⟩
    refine ⟨rfl, hholds, ?_⟩
    intro front above hfront hne
    exact (hne (List.prefix_nil.mp hfront)).elim

/-- An outermost node below a child is one below its node, if the node does not have the property
itself. -/
theorem outermostAt_cons_iff : OutermostAt p root (i :: rest) node ↔
    p root = false ∧ ∃ child, root.children[i]? = some child ∧ OutermostAt p child rest node := by
  constructor
  · intro h
    obtain ⟨child, hchild, hbelow⟩ := at?_cons_eq_some_iff.mp h.at?_eq
    refine ⟨h.clear [] root List.nil_prefix (List.cons_ne_nil _ _).symm rfl, child, hchild, hbelow,
      h.holds, ?_⟩
    intro front above hfront hne hat
    refine h.clear (i :: front) above (List.cons_prefix_cons.mpr ⟨rfl, hfront⟩) ?_ ?_
    · exact fun heq => hne (List.cons.inj heq).2
    · exact at?_cons_eq_some_iff.mpr ⟨child, hchild, hat⟩
  · rintro ⟨hroot, child, hchild, h⟩
    refine ⟨at?_cons_eq_some_iff.mpr ⟨child, hchild, h.at?_eq⟩, h.holds, ?_⟩
    intro front above hfront hne hat
    cases front with
    | nil => exact Option.some.inj hat ▸ hroot
    | cons j front =>
        obtain ⟨rfl, hbelow⟩ := List.cons_prefix_cons.mp hfront
        obtain ⟨other, hother, hat⟩ := at?_cons_eq_some_iff.mp hat
        obtain rfl := Option.some.inj (hchild.symm.trans hother)
        exact h.clear front above hbelow (fun heq => hne (heq ▸ rfl)) hat

/-- Where a property holds, an outermost node stands there or further up. -/
theorem exists_outermostAt (hat : root.at? position = some node) (h : p node = true) :
    ∃ front back above, position = front ++ back ∧ OutermostAt p root front above ∧
      above.at? back = some node := by
  induction position generalizing root with
  | nil =>
      obtain rfl := Option.some.inj hat
      exact ⟨[], [], root, rfl, outermostAt_nil_iff.mpr ⟨rfl, h⟩, rfl⟩
  | cons i rest ih =>
      cases hroot : p root with
      | true => exact ⟨[], i :: rest, root, rfl, outermostAt_nil_iff.mpr ⟨rfl, hroot⟩, hat⟩
      | false =>
          obtain ⟨child, hchild, hbelow⟩ := at?_cons_eq_some_iff.mp hat
          obtain ⟨front, back, above, rfl, habove, hback⟩ := ih hbelow
          exact ⟨i :: front, back, above, rfl,
            outermostAt_cons_iff.mpr ⟨hroot, child, hchild, habove⟩, hback⟩

/-- What is found among several children is found below one of them. -/
theorem mem_outermostAmong_iff {first : Nat} : (position, found) ∈ outermostAmong p first nodes ↔
    ∃ i child rest, nodes[i]? = some child ∧ position = (first + i) :: rest ∧
      (rest, found) ∈ outermost p child := by
  induction nodes generalizing first with
  | nil => simp [outermostAmong]
  | cons node nodes ih =>
      rw [outermostAmong, List.mem_append, ih]
      constructor
      · rintro (hhere | ⟨i, child, rest, hchild, rfl, hmem⟩)
        · obtain ⟨⟨rest, node'⟩, hmem, heq⟩ := List.mem_map.mp hhere
          obtain ⟨rfl, rfl⟩ := Prod.mk.inj heq
          exact ⟨0, node, rest, rfl, rfl, hmem⟩
        · exact ⟨i + 1, child, rest, hchild, by simp; omega, hmem⟩
      · rintro ⟨i, child, rest, hchild, rfl, hmem⟩
        cases i with
        | zero =>
            obtain rfl := Option.some.inj hchild
            exact .inl (List.mem_map.mpr ⟨(rest, found), hmem, rfl⟩)
        | succ i => exact .inr ⟨i, child, rest, hchild, by simp; omega, hmem⟩

/-! ## The list -/

/-- The list has the outermost nodes and nothing else. -/
theorem mem_outermost_iff :
    (position, found) ∈ outermost p root ↔ OutermostAt p root position found := by
  induction root using inductionOn_children generalizing position with
  | step root ih =>
      rw [outermost_eq]
      cases hroot : p root with
      | true =>
          rw [if_pos rfl, List.mem_singleton]
          cases position with
          | nil => simp [outermostAt_nil_iff, hroot]
          | cons i rest => simp [outermostAt_cons_iff, hroot]
      | false =>
          rw [if_neg Bool.false_ne_true, mem_outermostAmong_iff]
          cases position with
          | nil => simp [outermostAt_nil_iff, hroot]
          | cons i rest =>
              rw [outermostAt_cons_iff]
              constructor
              · rintro ⟨j, child, tail, hchild, heq, hmem⟩
                obtain ⟨rfl, rfl⟩ := List.cons.inj heq
                rw [Nat.zero_add]
                exact ⟨hroot, child, hchild, (ih child (List.mem_of_getElem? hchild)).mp hmem⟩
              · rintro ⟨-, child, hchild, hat⟩
                exact ⟨i, child, rest, hchild, by rw [Nat.zero_add],
                  (ih child (List.mem_of_getElem? hchild)).mpr hat⟩

theorem outermostAmong_ordered (h : ∀ node ∈ nodes,
    ((outermost p node).map Prod.fst).Pairwise (· < ·)) (first : Nat) :
    ((outermostAmong p first nodes).map Prod.fst).Pairwise (· < ·) := by
  induction nodes generalizing first with
  | nil => simp [outermostAmong]
  | cons node nodes ih =>
      rw [outermostAmong, List.map_append, List.pairwise_append]
      refine ⟨?_, ih (fun other hother => h other (List.mem_cons_of_mem _ hother)) _, ?_⟩
      · have hnode := List.pairwise_map.mp (h node List.mem_cons_self)
        rw [List.map_map, List.pairwise_map]
        refine hnode.imp ?_
        intro a b hab
        simpa [Position.below, List.cons_lt_cons_iff] using hab
      · intro a ha b hb
        obtain ⟨⟨_, here⟩, hhere, rfl⟩ := List.mem_map.mp ha
        obtain ⟨⟨_, later⟩, hlater, rfl⟩ := List.mem_map.mp hb
        obtain ⟨f, -, heq⟩ := List.mem_map.mp hhere
        obtain ⟨rfl, rfl⟩ := Prod.mk.inj heq
        obtain ⟨i, _, _, _, rfl, _⟩ := mem_outermostAmong_iff.mp hlater
        rw [List.cons_lt_cons_iff]
        exact .inl (by omega)

/-- The outermost nodes are listed in pre-order. -/
theorem outermost_ordered (p : Node → Bool) (root : Node) :
    ((outermost p root).map Prod.fst).Pairwise (· < ·) := by
  induction root using inductionOn_children with
  | step root ih =>
      rw [outermost_eq]
      split
      · simp
      · exact outermostAmong_ordered ih 0

/-! ## The list without positions -/

/-- The outermost nodes with a property at and below several nodes. -/
def outermostIn (p : Node → Bool) (nodes : List Node) : List Node :=
  nodes.flatMap fun node => (outermost p node).map Prod.snd

@[simp]
theorem outermostIn_nil (p : Node → Bool) : outermostIn p [] = [] :=
  rfl

theorem map_snd_outermostAmong (p : Node → Bool) (first : Nat) (nodes : List Node) :
    (outermostAmong p first nodes).map Prod.snd = outermostIn p nodes := by
  induction nodes generalizing first with
  | nil => rw [outermostAmong, outermostIn_nil, List.map_nil]
  | cons node nodes ih =>
      rw [outermostAmong, List.map_append, ih, List.map_map, outermostIn, outermostIn,
        List.flatMap_cons]
      rfl

/-- A node with the property is outermost itself; otherwise its children are looked at. -/
theorem outermostIn_cons (p : Node → Bool) (node : Node) (nodes : List Node) :
    outermostIn p (node :: nodes) =
      (if p node then [node] else outermostIn p node.children) ++ outermostIn p nodes := by
  rw [outermostIn, List.flatMap_cons, outermost_eq]
  split
  · rfl
  · rw [map_snd_outermostAmong]
    rfl

theorem outermostIn_append (p : Node → Bool) (xs ys : List Node) :
    outermostIn p (xs ++ ys) = outermostIn p xs ++ outermostIn p ys :=
  List.flatMap_append

theorem outermostIn_singleton (p : Node → Bool) (root : Node) :
    outermostIn p [root] = (outermost p root).map Prod.snd := by
  rw [outermostIn, List.flatMap_cons, List.flatMap_nil, List.append_nil]

/-! ## Spans of outermost nodes -/

/-- What is found at and below a node has the property and lies in its span. -/
theorem of_mem_outermost (hlaid : root.everywhere laidOut = true)
    (h : found ∈ (outermost p root).map Prod.snd) :
    p found = true ∧ found.everywhere laidOut = true ∧
      root.label.start ≤ found.label.start ∧ found.label.stop ≤ root.label.stop := by
  obtain ⟨⟨position, found⟩, hmem, rfl⟩ := List.mem_map.mp h
  have hat := mem_outermost_iff.mp hmem
  exact ⟨hat.holds, everywhere_at? hlaid hat.at?_eq,
    span_at? (holdsChildren_of_laidOut hlaid) hat.at?_eq⟩

/-- Below nodes that stand one after the other, the outermost nodes do as well. -/
theorem outermostIn_inTurn (hlaid : ∀ node ∈ nodes, node.everywhere laidOut = true)
    (hturn : nodes.Pairwise fun a b => a.label.stop ≤ b.label.start)
    (hbelow : ∀ node ∈ nodes,
      ((outermost p node).map Prod.snd).Pairwise fun a b => a.label.stop ≤ b.label.start) :
    (outermostIn p nodes).Pairwise fun a b => a.label.stop ≤ b.label.start := by
  refine List.pairwise_flatMap.mpr ⟨hbelow, ?_⟩
  refine hturn.imp_of_mem ?_
  intro a b ha hb hab x hx y hy
  have hxa := (of_mem_outermost (hlaid a ha) hx).2.2.2
  have hyb := (of_mem_outermost (hlaid b hb) hy).2.2.1
  omega

/-- In a tree that is laid out, each outermost node ends before the next one starts. -/
theorem outermost_inTurn (hlaid : root.everywhere laidOut = true) :
    ((outermost p root).map Prod.snd).Pairwise fun a b => a.label.stop ≤ b.label.start := by
  induction root using inductionOn_children with
  | step root ih =>
      obtain ⟨hhere, hchildren⟩ := everywhere_iff.mp hlaid
      rw [outermost_eq]
      split
      · exact List.pairwise_singleton _ _
      · rw [map_snd_outermostAmong]
        exact outermostIn_inTurn hchildren (laidOut_iff.mp hhere).2.2
          fun child hchild => ih child hchild (hchildren child hchild)

end Node

end CrateAtlas
