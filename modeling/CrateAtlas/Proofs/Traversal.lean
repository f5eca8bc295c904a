import CrateAtlas.Item.Declaration
import CrateAtlas.Proofs.Outcome
import Mathlib.Data.Nat.Init

/-!
# How declarations are read

The reader of declarations recurses through containers, bodies and foreign blocks.  This
file says once what it can do at a node, as a relation between the nodes of a container and
the declarations found there; every fact about the declarations of a file is then an
induction on that relation.

Main results:

- Theorem {lit}`among_eq_ok_iff`: the reader succeeds with some declarations exactly when
  the relation {lit}`Traversal` holds.
- Theorem {lit}`ofRoot_eq_ok_iff`: the same for a whole file.
-/

namespace CrateAtlas

namespace Node

/-- A child is smaller than the list of children in which it stands. -/
theorem size_le_sizeAll_of_mem {node : Node} {nodes : List Node} (h : node ∈ nodes) :
    node.size ≤ sizeAll nodes := by
  induction nodes with
  | nil => simp at h
  | cons first rest ih =>
      rw [sizeAll_cons]
      rcases List.mem_cons.mp h with rfl | hrest
      · omega
      · have := ih hrest
        omega

/-- What stands below a child that is found under a field is smaller than the node. -/
theorem sizeAll_children_lt_of_child? {node child : Node} {field : String}
    (h : node.child? field = some child) : sizeAll child.children < node.size := by
  have hmem : child ∈ node.children := List.mem_of_find?_eq_some h
  have hle : child.size ≤ sizeAll node.children := size_le_sizeAll_of_mem hmem
  cases node with
  | mk label children =>
      cases child with
      | mk childLabel below =>
          simp only [size_mk, children_mk] at hle ⊢
          omega

/-- Nodes are handled one by one: what stands in the body of the first, then the rest. -/
@[elab_as_elim]
theorem bodyInduction {P : List Node → Prop} (nil : P [])
    (cons : ∀ node rest, (∀ body, node.child? "body" = some body → P body.children) → P rest →
      P (node :: rest)) :
    ∀ nodes, P nodes := by
  intro nodes
  induction hsize : sizeAll nodes using Nat.strong_induction_on generalizing nodes with
  | _ size ih =>
      cases nodes with
      | nil => exact nil
      | cons node rest =>
          have hpos := node.size_pos
          rw [sizeAll_cons] at hsize
          apply cons
          · intro body hbody
            have hlt := sizeAll_children_lt_of_child? hbody
            exact ih _ (by omega) body.children rfl
          · exact ih _ (by omega) rest rfl

/-- A foreign block declares no element of its own. -/
theorem itemKind?_of_isForeignBlock {node : Node} (h : node.isForeignBlock = true) :
    node.itemKind? = none := by
  have hkind : node.kind = "foreign_mod_item" := by
    simpa [isForeignBlock] using h
  simp [itemKind?, hkind, itemKindOf]

/-- A node that declares an element is not of a type that declares none. -/
theorem kind_ne_of_itemKind? {node : Node} {kind : Kind} {other : String}
    (h : node.itemKind? = some kind) (hother : itemKindOf other = none) : node.kind ≠ other := by
  rintro rfl
  cases hother.symm.trans h

/-- A node that declares an element is no foreign block. -/
theorem not_isForeignBlock_of_itemKind? {node : Node} {kind : Kind}
    (h : node.itemKind? = some kind) : ¬node.isForeignBlock = true := by
  intro hforeign
  rw [itemKind?_of_isForeignBlock hforeign] at h
  contradiction

end Node

namespace Declaration

/-! ## What happens at one node -/

/-- The named siblings passed after one more node, nearest first. -/
def passed (before : List Node) (node : Node) : List Node :=
  if node.isNamed then node :: before else before

/-- A node at which nothing is declared: a bare token, a node of another type, a foreign block
without a body, an item without a name, or a private item that is left out. -/
inductive Passes (file : SourceFile) (forced : Option Visibility) (before : List Node)
    (node : Node) : Prop where
  | token (h : node.isNamed = false)
  | other (foreign : node.isForeignBlock = false) (kind : node.itemKind? = none)
  | bare (foreign : node.isForeignBlock = true) (body : node.child? "body" = none)
  | unnamed (kind : Kind) (kind_eq : node.itemKind? = some kind)
      (name_eq : ItemName.ofNode file.source kind node = .ok none)
  | hidden (kind : Kind) (named : ItemName) (notes : List Docs.Note)
      (kind_eq : node.itemKind? = some kind)
      (name_eq : ItemName.ofNode file.source kind node = .ok (some named))
      (notes_eq : Docs.notesBefore file.source before node = .ok notes)
      (visibility_eq : Item.visibilityOf file.source forced (notes.filterMap Docs.Note.attr?)
        kind node = .ok .priv)
      (left_out : file.options.includePrivate = false)

/-- A node that declares an item: it is named, has a type of items and a name, may be shown,
and everything about it can be read. -/
structure Takes (file : SourceFile) (around : List Node) (forced : Option Visibility)
    (before : List Node) (node : Node) (kind : Kind) (named : ItemName)
    (notes : List Docs.Note) (visibility : Visibility) (item : Item) : Prop where
  isNamed : node.isNamed = true
  kind_eq : node.itemKind? = some kind
  name_eq : ItemName.ofNode file.source kind node = .ok (some named)
  notes_eq : Docs.notesBefore file.source before node = .ok notes
  visibility_eq : Item.visibilityOf file.source forced (notes.filterMap Docs.Note.attr?)
    kind node = .ok visibility
  shown : ¬(visibility = .priv ∧ file.options.includePrivate = false)
  read_eq : Item.read file around kind named.name notes visibility node = .ok item

/-- The declarations read from the nodes of a container, one node after the other. -/
inductive Traversal (file : SourceFile) : (around : List Node) → (forced : Option Visibility) →
    (before nodes : List Node) → List Declaration → Prop where
  | nil {around forced before} : Traversal file around forced before [] []
  | pass {around forced before node rest later} :
      Passes file forced before node →
      Traversal file around forced (passed before node) rest later →
      Traversal file around forced before (node :: rest) later
  | block {around forced before node rest body inner later} :
      node.isNamed = true → node.isForeignBlock = true → node.child? "body" = some body →
      Traversal file (body :: node :: around) forced [] body.children inner →
      Traversal file around forced (passed before node) rest later →
      Traversal file around forced before (node :: rest) (inner ++ later)
  | leaf {around forced before node rest kind named notes visibility item later} :
      Takes file around forced before node kind named notes visibility item →
      (kind.opensScope = true → node.child? "body" = none) →
      Traversal file around forced (passed before node) rest later →
      Traversal file around forced before (node :: rest) (mk item named.segment [] :: later)
  | scope {around forced before node rest kind named notes visibility item body members later} :
      Takes file around forced before node kind named notes visibility item →
      kind.opensScope = true → node.child? "body" = some body →
      Traversal file (body :: node :: around) (Item.memberVisibility visibility kind node) []
        body.children members →
      Traversal file around forced (passed before node) rest later →
      Traversal file around forced before (node :: rest)
        (mk item named.segment members :: later)

/-! ## The reader without its recursion scheme -/

variable {file : SourceFile} {around : List Node} {forced : Option Visibility}
  {before nodes : List Node} {node body root : Node} {kind : Kind} {named : ItemName}
  {notes : List Docs.Note} {visibility : Visibility} {item : Item}
  {found members declarations : List Declaration}

/-- A container is read from its first child on. -/
theorem inContainer_eq (file : SourceFile) (around : List Node) (forced : Option Visibility)
    (node : Node) :
    inContainer file around forced node = among file (node :: around) forced [] node.children := by
  cases node
  rw [inContainer]
  rfl

/-- Looking for a body among children is looking for the first child under that field. -/
theorem inBody_eq (file : SourceFile) (around : List Node) (forced : Option Visibility)
    (nodes : List Node) :
    inBody file around forced nodes =
      match nodes.find? fun child => child.label.field == "body" with
      | some body => among file (body :: around) forced [] body.children
      | none => .ok [] := by
  induction nodes with
  | nil => rw [inBody]; rfl
  | cons node rest ih =>
      rw [inBody]
      by_cases h : node.label.field == "body"
      · rw [if_pos h, List.find?_cons, h, inContainer_eq]
      · rw [if_neg h, List.find?_cons, Bool.of_not_eq_true h, ih]

/-- The declarations in the body of a node, if it has one. -/
theorem inBody_children (file : SourceFile) (around : List Node) (forced : Option Visibility)
    (node : Node) :
    inBody file around forced node.children =
      match node.child? "body" with
      | some body => among file (body :: around) forced [] body.children
      | none => .ok [] :=
  inBody_eq file around forced node.children

/-- The members of an item: the declarations in its body, if its kind has any. -/
def membersOf (file : SourceFile) (around : List Node) (visibility : Visibility) (kind : Kind)
    (node : Node) : Except Text.Utf8.Refusal (List Declaration) :=
  if kind.opensScope then
    inBody file (node :: around) (Item.memberVisibility visibility kind node) node.children
  else .ok []

/-- The three ways in which an item is read: it has no name, it is left out, or it is taken
with its members. -/
theorem ofItem_eq_ok_iff :
    ofItem file around forced before kind node = .ok found ↔
      (ItemName.ofNode file.source kind node = .ok none ∧ found = []) ∨
      ∃ named notes visibility,
        ItemName.ofNode file.source kind node = .ok (some named) ∧
        Docs.notesBefore file.source before node = .ok notes ∧
        Item.visibilityOf file.source forced (notes.filterMap Docs.Note.attr?) kind node =
          .ok visibility ∧
        ((visibility = .priv ∧ file.options.includePrivate = false) ∧ found = [] ∨
          ¬(visibility = .priv ∧ file.options.includePrivate = false) ∧
          ∃ item members,
            Item.read file around kind named.name notes visibility node = .ok item ∧
            membersOf file around visibility kind node = .ok members ∧
            found = [mk item named.segment members]) := by
  cases node with
  | mk label children =>
      rw [ofItem, Outcome.bind_eq_ok_iff]
      constructor
      · rintro ⟨name, hname, h⟩
        cases name with
        | none => exact .inl ⟨hname, (Outcome.pure_eq_ok_iff.mp h).symm⟩
        | some named =>
            right
            simp only [Outcome.bind_eq_ok_iff] at h
            obtain ⟨notes, hnotes, visibility, hvisibility, h⟩ := h
            refine ⟨named, notes, visibility, hname, hnotes, hvisibility, ?_⟩
            split at h <;> rename_i hhidden
            · exact .inl ⟨hhidden, (Outcome.pure_eq_ok_iff.mp h).symm⟩
            · rw [Outcome.bind_eq_ok_iff] at h
              obtain ⟨item, hitem, h⟩ := h
              refine .inr ⟨hhidden, item, ?_⟩
              unfold membersOf
              split at h <;> rename_i hscope <;> rw [Outcome.bind_eq_ok_iff] at h <;>
                obtain ⟨members, hmembers, h⟩ := h <;> refine ⟨members, hitem, ?_, ?_⟩
              · rw [if_pos hscope]
                exact hmembers
              · exact (Outcome.pure_eq_ok_iff.mp h).symm
              · rw [if_neg hscope]
                exact hmembers
              · exact (Outcome.pure_eq_ok_iff.mp h).symm
      · rintro (⟨hname, rfl⟩ | ⟨named, notes, visibility, hname, hnotes, hvisibility, h⟩)
        · exact ⟨none, hname, rfl⟩
        · refine ⟨some named, hname, ?_⟩
          simp only [Outcome.bind_eq_ok_iff]
          refine ⟨notes, hnotes, visibility, hvisibility, ?_⟩
          rcases h with ⟨hhidden, rfl⟩ | ⟨hshown, item, members, hitem, hmembers, rfl⟩
          · rw [if_pos hhidden]
            rfl
          · rw [if_neg hshown, Outcome.bind_eq_ok_iff]
            refine ⟨item, hitem, ?_⟩
            unfold membersOf at hmembers
            split <;> rename_i hscope <;> rw [Outcome.bind_eq_ok_iff]
            · rw [if_pos hscope] at hmembers
              exact ⟨members, hmembers, rfl⟩
            · rw [if_neg hscope] at hmembers
              exact ⟨members, hmembers, rfl⟩

/-- The declarations at one node of a container. -/
def declaredAt (file : SourceFile) (around : List Node) (forced : Option Visibility)
    (before : List Node) (node : Node) : Except Text.Utf8.Refusal (List Declaration) :=
  if !node.isNamed then .ok []
  else if node.isForeignBlock then inBody file (node :: around) forced node.children
  else
    match node.itemKind? with
    | some kind => ofItem file around forced before kind node
    | none => .ok []

/-- A container is read node by node. -/
theorem among_cons (file : SourceFile) (around : List Node) (forced : Option Visibility)
    (before : List Node) (node : Node) (rest : List Node) :
    among file around forced before (node :: rest) = do
      let here ← declaredAt file around forced before node
      let later ← among file around forced (passed before node) rest
      return here ++ later := by
  rw [among]
  unfold declaredAt passed
  split
  · rfl
  · split
    · cases node
      rw [inForeignBlock]
      rfl
    · cases node.itemKind? <;> rfl

/-- What can happen at a node: it is passed over, or it is a foreign block with a body, or an item
that is taken. -/
theorem declaredAt_cases (h : declaredAt file around forced before node = .ok found) :
    (Passes file forced before node ∧ found = []) ∨
    (node.isNamed = true ∧ node.isForeignBlock = true ∧ ∃ body, node.child? "body" = some body ∧
      among file (body :: node :: around) forced [] body.children = .ok found) ∨
    ∃ kind named notes visibility item members,
      Takes file around forced before node kind named notes visibility item ∧
      membersOf file around visibility kind node = .ok members ∧
      found = [mk item named.segment members] := by
  unfold declaredAt at h
  split at h <;> rename_i hnamed
  · cases h
    exact .inl ⟨.token (by simpa using hnamed), rfl⟩
  · replace hnamed : node.isNamed = true := by simpa using hnamed
    split at h <;> rename_i hforeign
    · rw [inBody_children] at h
      cases hbody : node.child? "body" with
      | none =>
          simp only [hbody, Except.ok.injEq] at h
          exact .inl ⟨.bare hforeign hbody, h.symm⟩
      | some body =>
          simp only [hbody] at h
          exact .inr (.inl ⟨hnamed, hforeign, body, rfl, h⟩)
    · split at h <;> rename_i hkind
      · rename_i kind
        rcases ofItem_eq_ok_iff.mp h with ⟨hname, rfl⟩ |
          ⟨named, notes, visibility, hname, hnotes, hvisibility, h⟩
        · exact .inl ⟨.unnamed kind hkind hname, rfl⟩
        · rcases h with ⟨⟨rfl, hout⟩, rfl⟩ | ⟨hshown, item, members, hitem, hmembers, rfl⟩
          · exact .inl ⟨.hidden kind named notes hkind hname hnotes hvisibility hout, rfl⟩
          · exact .inr (.inr ⟨kind, named, notes, visibility, item, members,
              ⟨hnamed, hkind, hname, hnotes, hvisibility, hshown, hitem⟩, hmembers, rfl⟩)
      · cases h
        exact .inl ⟨.other (by simpa using hforeign) hkind, rfl⟩

/-- A node that is passed over yields nothing. -/
theorem declaredAt_of_passes (h : Passes file forced before node) :
    declaredAt file around forced before node = .ok [] := by
  unfold declaredAt
  by_cases hnamed : node.isNamed = true
  · rw [if_neg (by simp [hnamed])]
    cases h with
    | token h => simp [hnamed] at h
    | other hforeign hkind => simp [hforeign, hkind]
    | bare hforeign hbody => rw [if_pos hforeign, inBody_children, hbody]
    | unnamed kind hkind hname =>
        rw [if_neg (Node.not_isForeignBlock_of_itemKind? hkind), hkind]
        exact ofItem_eq_ok_iff.mpr (.inl ⟨hname, rfl⟩)
    | hidden kind named notes hkind hname hnotes hvisibility hout =>
        rw [if_neg (Node.not_isForeignBlock_of_itemKind? hkind), hkind]
        exact ofItem_eq_ok_iff.mpr (.inr ⟨named, notes, .priv, hname, hnotes, hvisibility,
          .inl ⟨⟨rfl, hout⟩, rfl⟩⟩)
  · rw [if_pos (by simpa using hnamed)]

/-- A foreign block yields what its body holds. -/
theorem declaredAt_of_block (hnamed : node.isNamed = true) (hforeign : node.isForeignBlock = true)
    (hbody : node.child? "body" = some body) :
    declaredAt file around forced before node =
      among file (body :: node :: around) forced [] body.children := by
  unfold declaredAt
  rw [if_neg (by simp [hnamed]), if_pos hforeign, inBody_children, hbody]

/-- An item that is taken yields one declaration with its members. -/
theorem declaredAt_of_takes
    (h : Takes file around forced before node kind named notes visibility item)
    (hmembers : membersOf file around visibility kind node = .ok members) :
    declaredAt file around forced before node = .ok [mk item named.segment members] := by
  unfold declaredAt
  rw [if_neg (by simp [h.isNamed]), if_neg (Node.not_isForeignBlock_of_itemKind? h.kind_eq),
    h.kind_eq]
  exact ofItem_eq_ok_iff.mpr (.inr ⟨named, notes, visibility, h.name_eq, h.notes_eq,
    h.visibility_eq, .inr ⟨h.shown, item, members, h.read_eq, hmembers, rfl⟩⟩)

/-- The members of an item without a scope or without a body are none. -/
theorem membersOf_leaf (h : kind.opensScope = true → node.child? "body" = none) :
    membersOf file around visibility kind node = .ok [] := by
  unfold membersOf
  split
  · rename_i hscope
    rw [inBody_children, h hscope]
  · rfl

/-- The members of an item that opens a scope are the declarations in its body. -/
theorem membersOf_scope (hscope : kind.opensScope = true)
    (hbody : node.child? "body" = some body) :
    membersOf file around visibility kind node =
      among file (body :: node :: around) (Item.memberVisibility visibility kind node) []
        body.children := by
  unfold membersOf
  rw [if_pos hscope, inBody_children, hbody]

/-! ## The reader and the relation agree -/

/-- Everything that the relation describes is read. -/
theorem among_of_traversal (h : Traversal file around forced before nodes declarations) :
    among file around forced before nodes = .ok declarations := by
  induction h with
  | nil => rw [among]
  | pass hpasses _ ih =>
      rw [among_cons, declaredAt_of_passes hpasses, ih]
      rfl
  | block hnamed hforeign hbody _ _ ihInner ihLater =>
      rw [among_cons, declaredAt_of_block hnamed hforeign hbody, ihInner, ihLater]
      rfl
  | leaf htakes hleaf _ ih =>
      rw [among_cons, declaredAt_of_takes htakes (membersOf_leaf hleaf), ih]
      rfl
  | scope htakes hscope hbody _ _ ihMembers ihLater =>
      have hmembers := (membersOf_scope hscope hbody).trans ihMembers
      rw [among_cons, declaredAt_of_takes htakes hmembers, ihLater]
      rfl

/-- Everything that is read is described by the relation. -/
theorem traversal_of_among {file : SourceFile} {nodes : List Node} :
    ∀ {around : List Node} {forced : Option Visibility} {before : List Node}
      {declarations : List Declaration},
      among file around forced before nodes = .ok declarations →
      Traversal file around forced before nodes declarations := by
  induction nodes using Node.bodyInduction with
  | nil =>
      intro around forced before declarations h
      rw [among, Except.ok.injEq] at h
      subst h
      exact .nil
  | cons node rest ihBody ihRest =>
      intro around forced before declarations h
      rw [among_cons] at h
      simp only [Outcome.bind_eq_ok_iff, Outcome.pure_eq_ok_iff] at h
      obtain ⟨here, hhere, later, hlater, rfl⟩ := h
      have htail := ihRest hlater
      rcases declaredAt_cases hhere with ⟨hpasses, rfl⟩ |
        ⟨hnamed, hforeign, body, hbody, hinner⟩ |
        ⟨kind, named, notes, visibility, item, members, htakes, hmembers, rfl⟩
      · exact .pass hpasses htail
      · exact .block hnamed hforeign hbody (ihBody body hbody hinner) htail
      · by_cases hleaf : kind.opensScope = true → node.child? "body" = none
        · rw [membersOf_leaf hleaf, Except.ok.injEq] at hmembers
          subst hmembers
          exact .leaf htakes hleaf htail
        · obtain ⟨hscope, hsome⟩ := Classical.not_imp.mp hleaf
          obtain ⟨body, hbody⟩ := Option.ne_none_iff_exists'.mp hsome
          rw [membersOf_scope hscope hbody] at hmembers
          exact .scope htakes hscope hbody (ihBody body hbody hmembers) htail

/-- The nodes of a container are read as some declarations exactly when the relation holds. -/
theorem among_eq_ok_iff :
    among file around forced before nodes = .ok declarations ↔
      Traversal file around forced before nodes declarations :=
  ⟨traversal_of_among, among_of_traversal⟩

/-- A file is read as some declarations exactly when the relation holds of its top level. -/
theorem ofRoot_eq_ok_iff :
    ofRoot file root = .ok declarations ↔
      Traversal file [root] none [] root.children declarations := by
  rw [ofRoot, inContainer_eq, among_eq_ok_iff]

end Declaration

end CrateAtlas
