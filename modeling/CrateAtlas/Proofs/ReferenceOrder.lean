import CrateAtlas.Proofs.ReferenceOrigins

/-!
# The order of references

The references of an element are listed as the search for names comes upon them.  At most nodes it
follows the text, but a few parts are taken ahead of others that may stand before them: the type
arguments of a function that is called ahead of the function, the name of a method ahead of its
receiver, and the trait of an impl block ahead of everything else there.  Where two references
stand on both sides of such a place they are swapped, and all others are in the order of the text.

Main results:

- Theorem {lit}`Listed.asymm`: the search comes upon two places in one order only.
- Theorem {lit}`Listed.swapped_iff`: of two places, the one listed later stands before the other one
  in the text exactly if they are swapped.
- Theorems {lit}`uses_listed` and {lit}`usesOf_listed`: the order in which uses are found.
- Theorem {lit}`build_referenceOrder`: the order of the references of an element.
-/

namespace CrateAtlas

/-! ## Where the search leaves the text -/

namespace Node

variable {root node child : Node} {position : Position} {i : Nat}

theorem at?_child (hat : root.at? position = some node) (hget : node.children[i]? = some child) :
    root.at? (position ++ [i]) = some child := by
  rw [at?_append, hat, Option.bind_some, at?_cons, hget, Option.bind_some, at?_nil]

/-- Impl blocks are declared by nodes of one type. -/
theorem kind_eq_of_impl (h : node.itemKind? = some .impl) : node.kind = "impl_item" := by
  unfold itemKind? itemKindOf at h
  split at h <;> simp_all

end Node

/-- Declarations are nodes with types of items. -/
theorem Declared.itemKind?_eq {file : SourceFile} {container : Node} {owner : Option Owner}
    {position : Position} {site : Site} (h : Declared file container owner position site) :
    site.node.itemKind? = some site.kind := by
  induction h with
  | item hat => exact hat.kind_eq
  | member _ _ _ _ ih => exact ih
  | foreign _ _ _ _ _ ih => exact ih

/-- The node at a position is what a call calls, without its type arguments or with them. -/
inductive Called (root : Node) : Position → Prop
  | ofCall {position node i} : root.at? position = some node → node.kind = "call_expression" →
      node.childIndex? "function" = some i → Called root (position ++ [i])
  | ofGeneric {position node i} : Called root position → root.at? position = some node →
      node.kind = "generic_function" → node.childIndex? "function" = some i →
      Called root (position ++ [i])

/-- Of two children of a node, names in the first one come first, wherever the two stand. -/
inductive Ahead (root : Node) (position : Position) (node : Node) (i j : Nat) : Prop
  /-- The type arguments of a function that is called come before the function. -/
  | typeArguments : Called root position → node.kind = "generic_function" →
      node.childIndex? "type_arguments" = some i → node.childIndex? "function" = some j →
      Ahead root position node i j
  /-- The name of a method that is called comes before the receiver. -/
  | method : Called root position → node.kind = "field_expression" →
      node.childIndex? "field" = some i → node.childIndex? "value" = some j →
      Ahead root position node i j
  /-- What is called comes before the arguments, which is also where it stands. -/
  | callee : node.kind = "call_expression" →
      node.childIndex? "function" = some i → node.childIndex? "arguments" = some j →
      Ahead root position node i j
  /-- The trait of an impl block comes before the bounds of its parameters and all else. -/
  | implemented : node.kind = "impl_item" → node.childIndex? "trait" = some i → j ≠ i →
      Ahead root position node i j

section

variable {file : SourceFile} {root node : Node} {p q position : Position} {i j : Nat}

/-- Whether the child of a node is called, in terms of the node. -/
theorem called_append_iff (hat : root.at? position = some node) :
    Called root (position ++ [i]) ↔ node.childIndex? "function" = some i ∧
      (node.kind = "call_expression" ∨ Called root position ∧ node.kind = "generic_function") := by
  constructor
  · intro h
    generalize hwhole : position ++ [i] = whole at h
    cases h with
    | ofCall hat' hkind hindex =>
        obtain ⟨rfl, hi⟩ := List.append_inj' hwhole rfl
        obtain rfl := Option.some.inj (hat.symm.trans hat')
        obtain rfl := List.singleton_inj.mp hi
        exact ⟨hindex, .inl hkind⟩
    | ofGeneric hcalled hat' hkind hindex =>
        obtain ⟨rfl, hi⟩ := List.append_inj' hwhole rfl
        obtain rfl := Option.some.inj (hat.symm.trans hat')
        obtain rfl := List.singleton_inj.mp hi
        exact ⟨hindex, .inr ⟨hcalled, hkind⟩⟩
  · rintro ⟨hindex, hkind | ⟨hcalled, hkind⟩⟩
    · exact .ofCall hat hkind hindex
    · exact .ofGeneric hcalled hat hkind hindex

theorem Ahead.ne (h : Ahead root position node i j) : i ≠ j := by
  have hfields : ∀ {field field'}, field ≠ field' → node.childIndex? field = some i →
      node.childIndex? field' = some j → i ≠ j := by
    rintro field field' hne hi hj rfl
    exact hne (Node.field_eq_of_childIndex? hi hj)
  cases h with
  | typeArguments _ _ hi hj => exact hfields (by decide) hi hj
  | method _ _ hi hj => exact hfields (by decide) hi hj
  | callee _ hi hj => exact hfields (by decide) hi hj
  | implemented _ _ hne => exact hne.symm

/-- No two children are ahead of each other. -/
theorem Ahead.asymm (h : Ahead root position node i j) : ¬Ahead root position node j i := by
  intro h'
  have hne := h.ne
  cases h <;> cases h' <;> simp_all

/-- At the node of a declaration, only the trait of an impl block is ahead of anything. -/
theorem Ahead.of_item {kind : Kind} (h : Ahead root position node i j)
    (hkind : node.itemKind? = some kind) : kind = .impl ∧ node.childIndex? "trait" = some i := by
  cases h with
  | typeArguments _ hother => exact (Node.kind_ne_of_itemKind? hkind rfl hother).elim
  | method _ hother => exact (Node.kind_ne_of_itemKind? hkind rfl hother).elim
  | callee hother => exact (Node.kind_ne_of_itemKind? hkind rfl hother).elim
  | implemented himpl htrait =>
      refine ⟨?_, htrait⟩
      rw [Node.itemKind?, himpl] at hkind
      exact (Option.some.inj hkind).symm

/-- Two positions part at a node: they go on below different children of it. -/
structure PartAt (root : Node) (p q position : Position) (node : Node) (i j : Nat) : Prop where
  at?_eq : root.at? position = some node
  left : position ++ [i] <+: p
  right : position ++ [j] <+: q
  ne : i ≠ j

/-- Two places are swapped where the first one is ahead of the second one and stands behind it. -/
def Swapped (root : Node) (p q : Position) : Prop :=
  ∃ position node i j, PartAt root p q position node i j ∧ Ahead root position node i j ∧ j < i

/-- Of two children of a node, names in the first one come first. -/
def Sooner (root : Node) (position : Position) (node : Node) (i j : Nat) : Prop :=
  Ahead root position node i j ∨ i < j ∧ ¬Ahead root position node j i

/-- The search comes upon the first place before the second one. -/
def Listed (root : Node) (p q : Position) : Prop :=
  ∃ position node i j, PartAt root p q position node i j ∧ Sooner root position node i j

theorem Sooner.ne (h : Sooner root position node i j) : i ≠ j :=
  h.elim Ahead.ne fun hlt => Nat.ne_of_lt hlt.1

/-- What is below a child comes before what is below one that comes later. -/
theorem Sooner.listed (h : Sooner root position node i j) (hat : root.at? position = some node) :
    Listed root (position ++ i :: p) (position ++ j :: q) :=
  ⟨position, node, i, j, ⟨hat, ⟨p, by simp⟩, ⟨q, by simp⟩, h.ne⟩, h⟩

/-- A position goes on below one child of a node only. -/
theorem index_eq_of_below (hi : position ++ [i] <+: p) (hj : position ++ [j] <+: p) : i = j := by
  have hsame : position ++ [i] <+: position ++ [j] :=
    List.prefix_of_prefix_length_le hi hj (by simp)
  simpa using hsame

namespace PartAt

variable {position' : Position} {node' : Node} {i' j' : Nat}

theorem symm (h : PartAt root p q position node i j) : PartAt root q p position node j i :=
  ⟨h.at?_eq, h.right, h.left, h.ne.symm⟩

/-- Positions that part at a node do not part above it. -/
theorem length_le (h : PartAt root p q position node i j)
    (h' : PartAt root p q position' node' i' j') : position.length ≤ position'.length := by
  by_contra hlt
  -- Otherwise both ways out of the upper node would lie on the way to the lower one.
  have hshorter : ∀ k, (position' ++ [k]).length ≤ position.length := by
    intro k
    rw [List.length_append, List.length_singleton]
    omega
  have hleft : position' ++ [i'] <+: position :=
    List.prefix_of_prefix_length_le h'.left ((List.prefix_append _ _).trans h.left) (hshorter i')
  have hright : position' ++ [j'] <+: position :=
    List.prefix_of_prefix_length_le h'.right ((List.prefix_append _ _).trans h.right) (hshorter j')
  exact h'.ne (index_eq_of_below hleft hright)

/-- Two positions part at one node only. -/
theorem unique (h : PartAt root p q position node i j)
    (h' : PartAt root p q position' node' i' j') :
    position = position' ∧ node = node' ∧ i = i' ∧ j = j' := by
  have hlength : position.length = position'.length :=
    Nat.le_antisymm (h.length_le h') (h'.length_le h)
  have hposition : position <+: position' :=
    List.prefix_of_prefix_length_le ((List.prefix_append _ _).trans h.left)
      ((List.prefix_append _ _).trans h'.left) (Nat.le_of_eq hlength)
  obtain rfl := hposition.eq_of_length hlength
  exact ⟨rfl, Option.some.inj (h.at?_eq.symm.trans h'.at?_eq),
    index_eq_of_below h.left h'.left, index_eq_of_below h.right h'.right⟩

/-- In a tree that is laid out over its source, what is below an earlier child ends before what is
below a later one starts. -/
theorem stop_le_start {a b : Node} (h : PartAt root p q position node i j) (hlt : i < j)
    (hlaid : root.everywhere Node.laidOut = true) (hp : root.at? p = some a)
    (hq : root.at? q = some b) : a.label.stop ≤ b.label.start := by
  have hbelow : ∀ {k : Nat} {r : Position} {c : Node}, position ++ [k] <+: r →
      root.at? r = some c → ∃ part, node.children[k]? = some part ∧
        part.label.start ≤ c.label.start ∧ c.label.stop ≤ part.label.stop := by
    intro k r c hprefix hat
    obtain ⟨rest, rfl⟩ := hprefix
    rw [List.append_assoc, Node.at?_append, h.at?_eq, Option.bind_some,
      List.singleton_append] at hat
    obtain ⟨part, hpart, hin⟩ := Node.at?_cons_eq_some_iff.mp hat
    have heverywhere := (Node.everywhere_iff.mp (Node.everywhere_at? hlaid h.at?_eq)).2 part
      (List.mem_of_getElem? hpart)
    exact ⟨part, hpart, Node.span_at? (Node.holdsChildren_of_laidOut heverywhere) hin⟩
  obtain ⟨left, hleft, -, hstop⟩ := hbelow h.left hp
  obtain ⟨right, hright, hstart, -⟩ := hbelow h.right hq
  have hordered := (Node.laidOut_iff.mp
    (Node.everywhere_iff.mp (Node.everywhere_at? hlaid h.at?_eq)).1).2.2
  obtain ⟨hi, rfl⟩ := List.getElem?_eq_some_iff.mp hleft
  obtain ⟨hj, rfl⟩ := List.getElem?_eq_some_iff.mp hright
  have := List.pairwise_iff_getElem.mp hordered i j hi hj hlt
  omega

end PartAt

/-- The search does not come upon two places both ways round. -/
theorem Listed.asymm (h : Listed root p q) : ¬Listed root q p := by
  obtain ⟨position, node, i, j, hpart, hsooner⟩ := h
  rintro ⟨position', node', j', i', hpart', hsooner'⟩
  obtain ⟨rfl, rfl, rfl, rfl⟩ := hpart.unique hpart'.symm
  rcases hsooner with hahead | ⟨hlt, hnot⟩
  · rcases hsooner' with hahead' | ⟨-, hnot'⟩
    · exact hahead.asymm hahead'
    · exact hnot' hahead
  · rcases hsooner' with hahead' | ⟨hlt', -⟩
    · exact hnot hahead'
    · omega

/-- Of two places, the one listed later stands before the other one in the text exactly if they are
swapped. -/
theorem Listed.swapped_iff {a b : Node} (h : Listed root p q)
    (hlaid : root.everywhere Node.laidOut = true) (hp : root.at? p = some a)
    (hq : root.at? q = some b) (ha : a.label.start < a.label.stop)
    (hb : b.label.start < b.label.stop) :
    Swapped root p q ↔ b.label.start < a.label.start := by
  constructor
  · rintro ⟨position, node, i, j, hpart, -, hlt⟩
    have hbefore := hpart.symm.stop_le_start hlt hlaid hq hp
    omega
  · intro hstart
    obtain ⟨position, node, i, j, hpart, hway⟩ := h
    have hge : ¬i < j := by
      intro hlt
      have hbefore := hpart.stop_le_start hlt hlaid hp hq
      omega
    have hne := hpart.ne
    rcases hway with hahead | ⟨hlt, -⟩
    · exact ⟨position, node, i, j, hpart, hahead, by omega⟩
    · exact (hge hlt).elim

/-! ## The order of the search -/

namespace UsageSite

/-- At a field the search goes on at most once. -/
theorem pairwise_turnsAt {R : Turn → Turn → Prop} (node : Node) (field : String) (role : Role) :
    (turnsAt node field role).Pairwise R :=
  List.pairwise_map.mpr (node.fieldAmong_pairwise field)

/-- What a step of the search can be: it takes two parts of a node in an order of its own, or it
uses at most one name and stops, or it goes on at all named children. -/
inductive StepForm (node : Node) : Role → List Use × List Turn → Prop
  | generic : node.kind = "generic_function" → StepForm node .called
      ([], turnsAt node "type_arguments" .ordinary ++ turnsAt node "function" .called)
  | method : node.kind = "field_expression" → StepForm node .called
      (usesAt node "field" .method, turnsAt node "value" .ordinary)
  | call {role} : node.kind = "call_expression" → StepForm node role
      ([], turnsAt node "function" .called ++ turnsAt node "arguments" .ordinary)
  | stop {role uses} : (∀ {R : Use → Use → Prop}, uses.Pairwise R) → StepForm node role (uses, [])
  | children {role} : node.kind ≠ "call_expression" → node.kind ≠ "impl_item" →
      (role = .called → node.kind ≠ "generic_function" ∧ node.kind ≠ "field_expression") →
      StepForm node role ([], node.namedAmong.map fun child => ⟨child.2, child.1, .ordinary⟩)

variable {kind : Kind} {role : Role}

/-- A step is one of these. -/
theorem step_form (role : Role) (node : Node) : StepForm node role (step role node) := by
  unfold step
  split_ifs with hgeneric hpath hfield hskipped hcall hmacro htype
  · obtain ⟨rfl, hkind⟩ := hgeneric
    exact .generic hkind
  · exact .stop (List.pairwise_singleton _ _)
  · obtain ⟨rfl, hkind⟩ := hfield
    exact .method hkind
  · exact .stop .nil
  · exact .call hcall
  · exact .stop (pairwise_usesAt _ _ _)
  · exact .stop (List.pairwise_singleton _ _)
  · refine .children hcall ?_ ?_
    · intro himpl
      simp [Node.isNestedItem, Node.itemKind?, himpl, Node.itemKindOf] at hskipped
    · rintro rfl
      exact ⟨fun hkind => hgeneric ⟨rfl, hkind⟩, fun hkind => hfield ⟨rfl, hkind⟩⟩

/-- The search goes on at the first child under a field, in the role that is asked for. -/
theorem of_mem_turnsAt {turn : Turn} {field : String} (h : turn ∈ turnsAt node field role) :
    node.childIndex? field = some turn.index ∧ turn.role = role := by
  obtain ⟨⟨child, i⟩, hchild, rfl⟩ := List.mem_map.mp h
  exact ⟨(Node.mem_fieldAmong_iff.mp hchild).1, rfl⟩

/-- The name under a field is used at the first child there. -/
theorem of_mem_usesAt {use : Use} {field : String} {form : UsageForm}
    (h : use ∈ usesAt node field form) :
    ∃ i, use.position = [i] ∧ node.childIndex? field = some i := by
  obtain ⟨⟨child, i⟩, hchild, rfl⟩ := List.mem_map.mp h
  exact ⟨i, rfl, (Node.mem_fieldAmong_iff.mp hchild).1⟩

/-- Where the search goes on at a child in the role of one that is called, the child is called. -/
theorem called_of_turn {turn : Turn} (hat : root.at? position = some node)
    (hrole : role = .called ↔ Called root position) (h : turn ∈ (step role node).2) :
    turn.role = .called ↔ Called root (position ++ [turn.index]) := by
  have hother : ∀ field, field ≠ "function" → turn ∈ turnsAt node field .ordinary →
      (turn.role = .called ↔ Called root (position ++ [turn.index])) := by
    intro field hne hmem
    obtain ⟨hindex, hturn⟩ := of_mem_turnsAt hmem
    rw [hturn, called_append_iff hat]
    constructor
    · intro hcalled
      contradiction
    · rintro ⟨hfunction, -⟩
      exact (hne (Node.field_eq_of_childIndex? hindex hfunction)).elim
  have hfunction : turn ∈ turnsAt node "function" .called →
      (node.kind = "call_expression" ∨ Called root position ∧ node.kind = "generic_function") →
      (turn.role = .called ↔ Called root (position ++ [turn.index])) := by
    intro hmem hkind
    obtain ⟨hindex, hturn⟩ := of_mem_turnsAt hmem
    rw [hturn, called_append_iff hat]
    exact ⟨fun _ => ⟨hindex, hkind⟩, fun _ => rfl⟩
  have hform := step_form role node
  generalize step role node = found at h hform
  cases hform with
  | generic hkind =>
      rcases List.mem_append.mp h with h | h
      · exact hother _ (by decide) h
      · exact hfunction h (.inr ⟨hrole.mp rfl, hkind⟩)
  | method _ => exact hother _ (by decide) h
  | call hkind =>
      rcases List.mem_append.mp h with h | h
      · exact hfunction h (.inl hkind)
      · exact hother _ (by decide) h
  | stop _ => simp at h
  | children hcall _ hcalled =>
      obtain ⟨child, -, rfl⟩ := List.mem_map.mp h
      rw [called_append_iff hat, ← hrole]
      constructor
      · intro hturn
        contradiction
      · rintro ⟨-, hkind | ⟨hrole, hkind⟩⟩
        · exact (hcall hkind).elim
        · exact ((hcalled hrole).1 hkind).elim

/-- A step goes on at the children in their order, apart from those that are ahead. -/
theorem turns_sooner (hrole : role = .called ↔ Called root position) :
    (step role node).2.Pairwise fun a b => Sooner root position node a.index b.index := by
  have hform := step_form role node
  generalize step role node = found at hform
  cases hform with
  | generic hkind =>
      refine List.pairwise_append.mpr ⟨pairwise_turnsAt _ _ _, pairwise_turnsAt _ _ _, ?_⟩
      intro a ha b hb
      exact .inl (.typeArguments (hrole.mp rfl) hkind (of_mem_turnsAt ha).1 (of_mem_turnsAt hb).1)
  | method _ => exact pairwise_turnsAt _ _ _
  | call hkind =>
      refine List.pairwise_append.mpr ⟨pairwise_turnsAt _ _ _, pairwise_turnsAt _ _ _, ?_⟩
      intro a ha b hb
      exact .inl (.callee hkind (of_mem_turnsAt ha).1 (of_mem_turnsAt hb).1)
  | stop _ => exact .nil
  | children hcall himpl hcalled =>
      refine List.pairwise_map.mpr (node.namedAmong_ordered.imp ?_)
      intro a b hlt
      refine .inr ⟨hlt, ?_⟩
      intro hahead
      cases hahead with
      | typeArguments hposition hkind => exact (hcalled (hrole.mpr hposition)).1 hkind
      | method hposition hkind => exact (hcalled (hrole.mpr hposition)).2 hkind
      | callee hkind => exact hcall hkind
      | implemented hkind => exact himpl hkind

/-- What a step uses itself comes first: it is the name of a method, whose receiver comes later. -/
theorem uses_sooner {use : Use} {turn : Turn} (hrole : role = .called ↔ Called root position)
    (huse : use ∈ (step role node).1) (hturn : turn ∈ (step role node).2) :
    ∃ i, use.position = [i] ∧ Sooner root position node i turn.index := by
  have hform := step_form role node
  generalize step role node = found at huse hturn hform
  cases hform with
  | generic _ => simp at huse
  | method hkind =>
      obtain ⟨i, hposition, hfield⟩ := of_mem_usesAt huse
      exact ⟨i, hposition, .inl (.method (hrole.mp rfl) hkind hfield (of_mem_turnsAt hturn).1)⟩
  | call _ => simp at huse
  | stop _ => simp at hturn
  | children _ _ _ => simp at huse

/-- A step uses at most one name itself. -/
theorem pairwise_step {R : Use → Use → Prop} (role : Role) (node : Node) :
    (step role node).1.Pairwise R := by
  have hform := step_form role node
  generalize step role node = found at hform
  cases hform with
  | generic _ => exact .nil
  | method _ => exact pairwise_usesAt _ _ _
  | call _ => exact .nil
  | stop hpairwise => exact hpairwise
  | children _ _ _ => exact .nil

/-- What is in order below a child is in order below its node. -/
theorem pairwise_below_listed {inside : List Use}
    (h : inside.Pairwise fun a b =>
      Listed root (position ++ [i] ++ a.position) (position ++ [i] ++ b.position)) :
    (inside.map (Use.below i)).Pairwise fun a b =>
      Listed root (position ++ a.position) (position ++ b.position) := by
  refine List.pairwise_map.mpr (h.imp ?_)
  intro a b hab
  rwa [List.append_assoc, List.append_assoc] at hab

/-- The uses below a node, each seen from the root, are found in the order of the search. -/
theorem uses_listed (hat : root.at? position = some node)
    (hrole : role = .called ↔ Called root position) :
    (uses role node).Pairwise fun a b =>
      Listed root (position ++ a.position) (position ++ b.position) := by
  induction node using Node.inductionOn_children generalizing role position with
  | step node ih =>
      rw [uses_eq, List.pairwise_append, List.pairwise_flatMap]
      refine ⟨pairwise_step role node, ⟨?_, ?_⟩, ?_⟩
      · intro turn hturn
        have hget := getElem?_of_turn hturn
        exact pairwise_below_listed (ih turn.target (List.mem_of_getElem? hget)
          (Node.at?_child hat hget) (called_of_turn hat hrole hturn))
      · -- Two turns: the first child is searched sooner, and so is all that is below it.
        refine (turns_sooner hrole).imp ?_
        intro first second hsooner a ha b hb
        obtain ⟨inner, -, rfl⟩ := List.mem_map.mp ha
        obtain ⟨other, -, rfl⟩ := List.mem_map.mp hb
        exact hsooner.listed hat
      · -- The name of a method comes before what is found in the receiver.
        intro a ha b hb
        obtain ⟨turn, hturn, hb⟩ := List.mem_flatMap.mp hb
        obtain ⟨inner, -, rfl⟩ := List.mem_map.mp hb
        obtain ⟨i, hposition, hsooner⟩ := uses_sooner hrole ha hturn
        rw [hposition]
        exact hsooner.listed hat

/-- The uses of a declaration, each seen from the root, are found in the order of the search. -/
theorem usesOf_listed (hat : root.at? position = some node)
    (hkind : node.itemKind? = some kind) :
    (usesOf kind node).Pairwise fun a b =>
      Listed root (position ++ a.position) (position ++ b.position) := by
  have hordinary : ∀ i, ¬Called root (position ++ [i]) := by
    intro i hcalled
    rcases ((called_append_iff hat).mp hcalled).2 with hcall | ⟨-, hgeneric⟩
    · exact Node.kind_ne_of_itemKind? hkind rfl hcall
    · exact Node.kind_ne_of_itemKind? hkind rfl hgeneric
  rw [usesOf, List.pairwise_append, List.pairwise_flatMap]
  refine ⟨?_, ⟨?_, ?_⟩, ?_⟩
  · split
    · exact pairwise_usesAt _ _ _
    · exact .nil
  · rintro ⟨child, i⟩ hchild
    have hget := (mem_searchedAmong_iff.mp hchild).1.getElem?_eq
    exact pairwise_below_listed
      (uses_listed (Node.at?_child hat hget) (iff_of_false (by decide) (hordinary i)))
  · -- Two children: only a trait could change their order, and it is not searched.
    have hordered : (searchedAmong kind node).Pairwise fun a b => a.2 < b.2 :=
      (Node.zipIdx_ordered node.children).filter _
    refine hordered.imp_of_mem ?_
    intro first second hfirst hsecond hlt a ha b hb
    obtain ⟨inner, -, rfl⟩ := List.mem_map.mp ha
    obtain ⟨other, -, rfl⟩ := List.mem_map.mp hb
    refine Sooner.listed (.inr ⟨hlt, ?_⟩) hat
    intro hahead
    obtain ⟨himpl, htrait⟩ := hahead.of_item hkind
    exact trait_not_searched himpl hsecond htrait rfl
  · -- The trait of an impl block comes before all that is searched.
    intro a ha b hb
    split at ha <;> rename_i himpl
    · obtain ⟨j, hposition, htrait⟩ := of_mem_usesAt ha
      obtain ⟨⟨child, i⟩, hchild, hb⟩ := List.mem_flatMap.mp hb
      obtain ⟨inner, -, rfl⟩ := List.mem_map.mp hb
      rw [hposition]
      have hne := trait_not_searched himpl hchild htrait
      have hahead : Ahead root position node j i :=
        .implemented (Node.kind_eq_of_impl (himpl ▸ hkind)) htrait hne.symm
      exact Sooner.listed (.inl hahead) hat
    · simp at ha

end UsageSite

/-! ## The references of an element -/

/-- A name that is read is not empty, and neither is the node that gives it. -/
theorem Usage.start_lt_stop {generics : List String} {site : UsageSite} {usage : Usage}
    (h : Usage.ofSite file.source generics site = .ok (some usage)) :
    usage.label.start < usage.label.stop := by
  obtain ⟨hlabel, -⟩ := Usage.of_ofSite h
  by_contra hle
  have hslice : file.source.slice site.label.start site.label.stop = [] := by
    rw [Source.slice, List.drop_eq_nil_iff, List.length_take, ← hlabel]
    omega
  have hnone : Usage.ofSite file.source generics site = .ok none := by
    obtain ⟨form, label⟩ := site
    rw [Usage.ofSite, Source.text, hslice]
    cases form <;> rfl
  rw [hnone] at h
  cases h

/-- Of two references with their positions, how the second one follows the first. -/
structure Follows (root : Node) (a b : Position × Reference) : Prop where
  listed : Listed root a.1 b.1
  start_le_iff : a.2.location.byteStart ≤ b.2.location.byteStart ↔ ¬Swapped root a.1 b.1

/-- The reference that comes from an origin, with its position and with a target. -/
def Origin.settled (file : SourceFile) (target : Reference → Option String) (origin : Origin) :
    Position × Reference :=
  (origin.place, { origin.reference file with target := target (origin.reference file) })

/-- A reference stands where the node that gives it does. -/
theorem Origin.In.exists_label {o : Origin} (h : o.In file root) :
    ∃ node, root.at? o.place = some node ∧ node.label = o.usage.label ∧
      node.label.start < node.label.stop := by
  obtain ⟨node, hat, hlabel⟩ := h.given
  obtain ⟨generics, hread⟩ := h.read
  exact ⟨node, hat, hlabel, hlabel ▸ Usage.start_lt_stop hread⟩

/-- Of two origins, the reference of the one listed later follows that of the other one. -/
theorem Origin.In.follows {a b : Origin} (ha : a.In file root) (hb : b.In file root)
    (hlisted : Listed root a.place b.place) (hlaid : root.everywhere Node.laidOut = true)
    (target : Reference → Option String) :
    Follows root (a.settled file target) (b.settled file target) := by
  obtain ⟨first, hfirst, hfirstLabel, hfirstSpan⟩ := ha.exists_label
  obtain ⟨second, hsecond, hsecondLabel, hsecondSpan⟩ := hb.exists_label
  have hswapped := hlisted.swapped_iff hlaid hfirst hsecond hfirstSpan hsecondSpan
  rw [hfirstLabel, hsecondLabel] at hswapped
  exact ⟨hlisted, Nat.not_lt.symm.trans (not_congr hswapped.symm)⟩

/-- In the model of a file whose tree is laid out over its source, the references of an element are
listed in the order of the search.  One of them starts no later than another one that is listed
after it exactly if the two are not swapped, so that without swaps they are listed by where they
start. -/
theorem FileModel.build_referenceOrder {path : String} {text : String} {model : FileModel}
    (h : FileModel.build path file text root = .ok model)
    (hlaid : root.everywhere Node.laidOut = true) :
    ∀ e ∈ model.elements, ∃ given : List (Position × Reference),
      given.map Prod.snd = model.referencesOf e ∧
      (∀ g ∈ given, ∃ node, root.at? g.1 = some node ∧
        g.2.location = Location.of file.source file.path node.label) ∧
      given.Pairwise (Follows root) ∧
      ((∀ a ∈ given, ∀ b ∈ given, ¬Swapped root a.1 b.1) → (model.referencesOf e).Pairwise
        fun a b => a.location.byteStart ≤ b.location.byteStart) := by
  obtain ⟨helements, target, hreferences⟩ := FileModel.referencesOf_of_build h
  obtain ⟨sites, -, hdeclared, hread⟩ := elementsOf_readAt helements
  intro e he
  obtain ⟨⟨position, site⟩, hsite, hreadAt⟩ := Outcome.exists_partner hread e he
  have hhere := hdeclared _ hsite
  obtain ⟨origins, horigins, hin, hsub⟩ := exists_origins_of_uses hhere hreadAt
  have hlisted := pairwise_places (fun o ho => (hin o ho).2.1) hsub
    (UsageSite.usesOf_listed hhere.at?_eq hhere.itemKind?_eq)
  have hfollows : (origins.map (Origin.settled file target)).Pairwise (Follows root) := by
    refine List.pairwise_map.mpr (hlisted.imp_of_mem ?_)
    intro a b ha hb hab
    exact (hin a ha).2.2.follows (hin b hb).2.2 hab hlaid target
  have hsame : (origins.map (Origin.settled file target)).map Prod.snd = model.referencesOf e := by
    rw [hreferences e he, ← horigins, List.map_map, List.map_map]
    rfl
  refine ⟨_, hsame, ?_, hfollows, ?_⟩
  · intro g hg
    obtain ⟨o, ho, rfl⟩ := List.mem_map.mp hg
    obtain ⟨node, hat, hlabel, -⟩ := (hin o ho).2.2.exists_label
    exact ⟨node, hat, by rw [hlabel]; rfl⟩
  · intro hstraight
    rw [← hsame]
    refine List.pairwise_map.mpr (hfollows.imp_of_mem ?_)
    intro a b ha hb hab
    exact hab.start_le_iff.mpr (hstraight a ha b hb)

end

/-! ## An impl block with swaps of all forms -/

namespace Sample

/-- An impl block with a bound before its trait, and a method that calls a method of a call with a
type argument. -/
def swapText : String :=
  "impl<T:B>R for S\x7bfn d()\x7bf().m::<C>();\x7d\x7d"

/-- The call of the method. -/
def swapCall : Node :=
  node "call_expression" "" 24 36
    [node "generic_function" "function" 24 34
      [node "field_expression" "function" 24 29
        [node "call_expression" "value" 24 27
          [node "identifier" "function" 24 25 [], node "arguments" "arguments" 25 27 []],
        node "field_identifier" "field" 28 29 []],
      node "type_arguments" "type_arguments" 31 34 [node "type_identifier" "" 32 33 []]],
    node "arguments" "arguments" 34 36 []]

/-- The tree of that text. -/
def swapRoot : Node :=
  node "source_file" "" 0 39
    [node "impl_item" "" 0 39
      [node "type_parameters" "type_parameters" 4 9
        [node "type_parameter" "" 5 8
          [node "type_identifier" "name" 5 6 [],
            node "trait_bounds" "bounds" 6 8 [node "type_identifier" "" 7 8 []]]],
        node "type_identifier" "trait" 9 10 [], node "type_identifier" "type" 15 16 [],
        node "declaration_list" "body" 16 39
          [node "function_item" "" 17 38
            [node "identifier" "name" 20 21 [], node "parameters" "parameters" 21 23 [],
              node "block" "body" 23 38
                [node "expression_statement" "" 24 37 [swapCall]]]]]]

/-- The text as a file. -/
def swapFile : SourceFile :=
  ⟨swapText.toUTF8.toList, "src/a.rs", ⟨true, true⟩⟩

end Sample

/-- The impl block names its trait before the bound in front of it, and the method names the type
argument, then the method that is called, then the function that gives the receiver. -/
theorem FileModel.build_referenceOrder_sample :
    ∃ model, FileModel.build "/p/src/a.rs" Sample.swapFile Sample.swapText Sample.swapRoot =
        .ok model ∧
      Sample.swapRoot.everywhere Node.laidOut = true ∧
      model.elements.map (fun e => (model.referencesOf e).map Reference.text) =
        [["R", "B", "S"], ["C", "m", "f"]] ∧
      ∀ e ∈ model.elements, ∃ given : List (Position × Reference),
        given.map Prod.snd = model.referencesOf e ∧
        (∀ g ∈ given, ∃ node, Sample.swapRoot.at? g.1 = some node ∧
          g.2.location = Location.of Sample.swapFile.source Sample.swapFile.path node.label) ∧
        given.Pairwise (Follows Sample.swapRoot) ∧
        ((∀ a ∈ given, ∀ b ∈ given, ¬Swapped Sample.swapRoot a.1 b.1) →
          (model.referencesOf e).Pairwise
            fun a b => a.location.byteStart ≤ b.location.byteStart) := by
  have htexts : (FileModel.build "/p/src/a.rs" Sample.swapFile Sample.swapText
      Sample.swapRoot).map (fun model =>
        model.elements.map fun e => (model.referencesOf e).map Reference.text) =
      .ok [["R", "B", "S"], ["C", "m", "f"]] := by
    decide +kernel
  have hlaid : Sample.swapRoot.everywhere Node.laidOut = true := by
    decide +kernel
  obtain ⟨model, h, htexts⟩ := Outcome.map_eq_ok_iff.mp htexts
  exact ⟨model, h, hlaid, htexts, FileModel.build_referenceOrder h hlaid⟩

/-- The references of that method are not listed by where they start. -/
theorem FileModel.build_referenceOrder_swaps :
    ∃ model, FileModel.build "/p/src/a.rs" Sample.swapFile Sample.swapText Sample.swapRoot =
        .ok model ∧
      Sample.swapRoot.everywhere Node.laidOut = true ∧
      ∃ e ∈ model.elements, (model.referencesOf e).map (fun r => r.location.byteStart) =
          [32, 28, 24] ∧
        ¬(model.referencesOf e).Pairwise
          fun a b => a.location.byteStart ≤ b.location.byteStart := by
  have hstarts : (FileModel.build "/p/src/a.rs" Sample.swapFile Sample.swapText
      Sample.swapRoot).map (fun model => decide (∃ e ∈ model.elements,
        (model.referencesOf e).map (fun r => r.location.byteStart) = [32, 28, 24])) =
      .ok true := by
    decide +kernel
  obtain ⟨model, h, hstarts⟩ := Outcome.map_eq_ok_iff.mp hstarts
  obtain ⟨e, he, hstarts⟩ := of_decide_eq_true hstarts
  refine ⟨model, h, by decide +kernel, e, he, hstarts, ?_⟩
  intro hordered
  have hsorted : ((model.referencesOf e).map fun r => r.location.byteStart).Pairwise (· ≤ ·) :=
    List.pairwise_map.mpr hordered
  rw [hstarts] at hsorted
  exact absurd hsorted (by decide)

end CrateAtlas
