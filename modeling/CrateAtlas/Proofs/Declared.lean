import CrateAtlas.Proofs.Forest

/-!
# Which nodes become elements

A node is known by its position in the tree, the children to take from the root down.  The
relation {lit}`Declared` says at which positions an element is declared: at a child of a container
that is an item with a name and may be shown, or inside the body of such an item that opens a
scope, or inside the body of a foreign block.  The reader finds exactly these, in pre-order.

Main results:

- Theorem {lit}`shows_iff`: the visibility of a declaration in terms of the item around it.
- Theorem {lit}`Traversal.listing`: the reader lists the declarations of a container.
- Theorem {lit}`elementsOf_declared`: the elements of a file are its declarations, in pre-order,
  each once.
-/

namespace CrateAtlas

/-- Where a node stands in a tree: which child to take at each step from the root.  The order of
positions is the pre-order of nodes. -/
abbrev Position := List Nat

/-- The item around a declaration: its kind, its node and its visibility. -/
structure Owner where
  kind : Kind
  node : Node
  visibility : Visibility

namespace Owner

/-- An impl block of a trait. -/
def IsTraitImpl (owner : Owner) : Prop :=
  owner.kind = .impl ∧ (owner.node.child? "trait").isSome = true

/-- The visibility that an owner forces on its members. -/
def forced (owner : Option Owner) : Option Visibility :=
  owner.bind fun o => Item.memberVisibility o.visibility o.kind o.node

/-- An owner that leaves its members their own visibility. -/
def Frees (owner : Option Owner) : Prop :=
  ∀ o ∈ owner, o.kind ≠ .trait ∧ ¬o.IsTraitImpl

theorem forced_of_trait {o : Owner} (h : o.kind = .trait) :
    forced (some o) = some o.visibility := by
  simp [forced, Item.memberVisibility, h]

theorem forced_of_traitImpl {o : Owner} (h : o.IsTraitImpl) :
    forced (some o) = some .inherited := by
  obtain ⟨hkind, htrait⟩ := h
  simp [forced, Item.memberVisibility, hkind, htrait]

theorem forced_of_frees {owner : Option Owner} (h : Frees owner) : forced owner = none := by
  cases owner with
  | none => rfl
  | some o =>
      obtain ⟨htrait, himpl⟩ := h o rfl
      unfold IsTraitImpl at himpl
      simp only [forced, Option.bind_some, Item.memberVisibility, if_neg htrait, if_neg himpl]

end Owner

/-- The visibility of a declaration.  Impl blocks and the members of an impl block of a trait
inherit theirs, members of a trait have that of the trait, macros are public when an attribute
exports them and private otherwise, and all else has its own modifier. -/
inductive Shows (source : Source) (owner : Option Owner) (attrs : List String) (node : Node) :
    Kind → Visibility → Prop where
  | impl : Shows source owner attrs node .impl .inherited
  | traitMember {kind o} : kind ≠ .impl → owner = some o → o.kind = .trait →
      Shows source owner attrs node kind o.visibility
  | traitImplMember {kind o} : kind ≠ .impl → owner = some o → o.IsTraitImpl →
      Shows source owner attrs node kind .inherited
  | exportedMacro : Owner.Frees owner →
      attrs.any Visibility.exportsMacro = true → Shows source owner attrs node .macroRules .pub
  | plainMacro : Owner.Frees owner →
      attrs.any Visibility.exportsMacro = false → Shows source owner attrs node .macroRules .priv
  | modifier {kind visibility} : kind ≠ .impl → kind ≠ .macroRules →
      Owner.Frees owner →
      Visibility.ofNode source node = .ok visibility →
      Shows source owner attrs node kind visibility

/-- The reader gives a declaration the visibility that it has under its owner. -/
theorem shows_iff {source : Source} {owner : Option Owner} {attrs : List String} {node : Node}
    {kind : Kind} {visibility : Visibility} :
    Shows source owner attrs node kind visibility ↔
      Item.visibilityOf source (Owner.forced owner) attrs kind node = .ok visibility := by
  unfold Item.visibilityOf
  constructor
  · intro h
    cases h with
    | impl => rfl
    | traitMember hkind howner htrait =>
        rw [if_neg hkind, howner, Owner.forced_of_trait htrait]
    | traitImplMember hkind howner himpl =>
        rw [if_neg hkind, howner, Owner.forced_of_traitImpl himpl]
    | exportedMacro hfrees hattrs =>
        rw [Owner.forced_of_frees hfrees]
        simp [hattrs]
    | plainMacro hfrees hattrs =>
        rw [Owner.forced_of_frees hfrees]
        simp [hattrs]
    | modifier hkind hrules hfrees hmodifier =>
        rw [if_neg hkind, Owner.forced_of_frees hfrees]
        simp [hrules, hmodifier]
  · intro h
    by_cases hkind : kind = .impl
    · subst hkind
      rw [if_pos rfl, Except.ok.injEq] at h
      exact h ▸ .impl
    · rw [if_neg hkind] at h
      by_cases hfrees : Owner.Frees owner
      · rw [Owner.forced_of_frees hfrees] at h
        by_cases hrules : kind = .macroRules
        · subst hrules
          simp only [if_true, Except.ok.injEq] at h
          split at h <;> rename_i hattrs
          · exact h ▸ .exportedMacro hfrees hattrs
          · exact h ▸ .plainMacro hfrees (by simpa using hattrs)
        · simp only [if_neg hrules] at h
          exact .modifier hkind hrules hfrees h
      · simp only [Owner.Frees, not_forall] at hfrees
        obtain ⟨o, ho, hforces⟩ := hfrees
        have howner : owner = some o := ho
        subst howner
        by_cases htrait : o.kind = .trait
        · rw [Owner.forced_of_trait htrait, Except.ok.injEq] at h
          exact h ▸ .traitMember hkind rfl htrait
        · have himpl : o.IsTraitImpl := by
            by_contra himpl
            exact hforces ⟨htrait, himpl⟩
          rw [Owner.forced_of_traitImpl himpl, Except.ok.injEq] at h
          exact h ▸ .traitImplMember hkind rfl himpl

/-! ## Declarations by position -/

/-- A declaration: its node, its kind, its name and its visibility. -/
structure Site where
  node : Node
  kind : Kind
  name : String
  visibility : Visibility

/-- The body of a node is its first child under that field. -/
structure IsBody (node : Node) (j : Nat) (body : Node) : Prop where
  index_eq : node.childIndex? "body" = some j
  getElem?_eq : node.children[j]? = some body

/-- A child of a container that declares an element: a named node with a type of items and a name
that is not empty, whose visibility is not private unless private items are read. -/
structure DeclaredAt (file : SourceFile) (container : Node) (owner : Option Owner) (i : Nat)
    (site : Site) : Prop where
  getElem?_eq : container.children[i]? = some site.node
  isNamed : site.node.isNamed = true
  kind_eq : site.node.itemKind? = some site.kind
  name_eq : ∃ named, ItemName.ofNode file.source site.kind site.node = .ok (some named) ∧
    named.name = site.name
  name_ne : site.name ≠ ""
  visibility_eq : ∃ notes,
    Docs.notesBefore file.source ((container.children.take i).filter Node.isNamed).reverse
      site.node = .ok notes ∧
    Shows file.source owner (notes.filterMap Docs.Note.attr?) site.node site.kind site.visibility
  shown : site.visibility ≠ .priv ∨ file.options.includePrivate = true

/-- The declarations of a container by their positions below it.  {lit}`owner` is the item whose
body the container is, through any foreign blocks between them. -/
inductive Declared (file : SourceFile) : (container : Node) → (owner : Option Owner) →
    Position → Site → Prop where
  | item {container owner i site} : DeclaredAt file container owner i site →
      Declared file container owner [i] site
  | member {container owner i site j body position inner} :
      DeclaredAt file container owner i site →
      (site.kind = .mod ∨ site.kind = .impl ∨ site.kind = .trait) → IsBody site.node j body →
      Declared file body (some ⟨site.kind, site.node, site.visibility⟩) position inner →
      Declared file container owner (i :: j :: position) inner
  | foreign {container owner i block j body position inner} :
      container.children[i]? = some block → block.isNamed = true →
      block.isForeignBlock = true → IsBody block j body →
      Declared file body owner position inner →
      Declared file container owner (i :: j :: position) inner

/-! ## What is declared at one child -/

variable {file : SourceFile} {around : List Node} {forced : Option Visibility} {before : List Node}
  {container node body : Node} {owner : Option Owner} {pre rest : List Node} {i j : Nat}
  {kind : Kind} {named : ItemName} {notes : List Docs.Note} {visibility : Visibility} {item : Item}
  {site site' : Site}

/-- The first entry with a property is the entry at the first index with it. -/
theorem find?_eq_some_iff_findIdx? {α : Type} {p : α → Bool} {xs : List α} {a : α} :
    xs.find? p = some a ↔ ∃ i, xs.findIdx? p = some i ∧ xs[i]? = some a := by
  induction xs with
  | nil => simp
  | cons x xs ih =>
      rw [List.find?_cons, List.findIdx?_cons]
      cases hx : p x with
      | true => simp
      | false => simp [ih]

/-- A node has a body exactly when a child stands under that field. -/
theorem exists_isBody_iff {node body : Node} :
    (∃ j, IsBody node j body) ↔ node.child? "body" = some body := by
  unfold Node.child?
  rw [find?_eq_some_iff_findIdx?]
  constructor
  · rintro ⟨j, hindex, hget⟩
    exact ⟨j, hindex, hget⟩
  · rintro ⟨j, hindex, hget⟩
    exact ⟨j, hindex, hget⟩

theorem IsBody.unique {node body body' : Node} {j j' : Nat} (h : IsBody node j body)
    (h' : IsBody node j' body') : j = j' ∧ body = body' := by
  have hj : j = j' := Option.some.inj (h.index_eq.symm.trans h'.index_eq)
  subst hj
  exact ⟨rfl, Option.some.inj (h.getElem?_eq.symm.trans h'.getElem?_eq)⟩

/-- Names that are read are not empty. -/
theorem ItemName.name_ne_of_ofNode {source : Source} {kind : Kind} {node : Node}
    {named : ItemName} (h : ofNode source kind node = .ok (some named)) : named.name ≠ "" := by
  have hfiltered : ∀ x : Except Text.Utf8.Refusal (Option ItemName),
      (x >>= fun found => pure (found.filter fun found => found.name != "")) = .ok (some named) →
      named.name ≠ "" := by
    intro x hx
    obtain ⟨found, -, hfound⟩ := Outcome.bind_eq_ok_iff.mp hx
    have hne := (Option.filter_eq_some_iff.mp (Outcome.pure_eq_ok_iff.mp hfound)).2
    simpa using hne
  unfold ofNode at h
  split at h
  · exact hfiltered _ h
  · split at h <;> exact hfiltered _ h

/-- A child declares at most one element. -/
theorem DeclaredAt.unique (h : DeclaredAt file container owner i site)
    (h' : DeclaredAt file container owner i site') : site = site' := by
  obtain ⟨node, kind, name, visibility⟩ := site
  obtain ⟨node', kind', name', visibility'⟩ := site'
  have hnode : node = node' := Option.some.inj (h.getElem?_eq.symm.trans h'.getElem?_eq)
  subst hnode
  have hkind : kind = kind' := Option.some.inj (h.kind_eq.symm.trans h'.kind_eq)
  subst hkind
  obtain ⟨named, hnamed, hname⟩ := h.name_eq
  obtain ⟨named', hnamed', hname'⟩ := h'.name_eq
  have hsame : named = named' := Option.some.inj (Except.ok.inj (hnamed.symm.trans hnamed'))
  subst hsame
  obtain ⟨notes, hnotes, hshows⟩ := h.visibility_eq
  obtain ⟨notes', hnotes', hshows'⟩ := h'.visibility_eq
  have hsame : notes = notes' := Except.ok.inj (hnotes.symm.trans hnotes')
  subst hsame
  have hvisibility : visibility = visibility' :=
    Except.ok.inj ((shows_iff.mp hshows).symm.trans (shows_iff.mp hshows'))
  subst hvisibility
  have hnames : name = name' := hname.symm.trans hname'
  subst hnames
  rfl

/-- Where a child stands: after some children of its container, which are the siblings before
it. -/
structure Stands (container : Node) (pre : List Node) (node : Node) (rest : List Node)
    (before : List Node) : Prop where
  children_eq : container.children = pre ++ node :: rest
  before_eq : before = (pre.filter Node.isNamed).reverse

theorem Stands.getElem?_eq (h : Stands container pre node rest before) :
    container.children[pre.length]? = some node := by
  rw [h.children_eq]
  simp

theorem Stands.take_eq (h : Stands container pre node rest before) :
    ((container.children.take pre.length).filter Node.isNamed).reverse = before := by
  rw [h.children_eq, h.before_eq]
  simp

namespace Declaration

/-- An item that the reader takes is declared where it stands. -/
theorem Takes.declaredAt
    (h : Takes file around (Owner.forced owner) before node kind named notes visibility item)
    (hstands : Stands container pre node rest before) :
    DeclaredAt file container owner pre.length ⟨node, kind, named.name, visibility⟩ where
  getElem?_eq := hstands.getElem?_eq
  isNamed := h.isNamed
  kind_eq := h.kind_eq
  name_eq := ⟨named, h.name_eq, rfl⟩
  name_ne := ItemName.name_ne_of_ofNode h.name_eq
  visibility_eq := ⟨notes, by rw [hstands.take_eq]; exact h.notes_eq, shows_iff.mpr h.visibility_eq⟩
  shown := by
    have hshown := h.shown
    by_cases hpriv : visibility = .priv
    · right
      by_contra hout
      exact hshown ⟨hpriv, by simpa using hout⟩
    · exact .inl hpriv

/-- Nothing is declared at a node that the reader passes over. -/
theorem Passes.not_declaredAt (h : Passes file (Owner.forced owner) before node)
    (hstands : Stands container pre node rest before) :
    ¬DeclaredAt file container owner pre.length site := by
  intro hdeclared
  have hnode : node = site.node :=
    Option.some.inj (hstands.getElem?_eq.symm.trans hdeclared.getElem?_eq)
  subst hnode
  cases h with
  | token htoken => simp [hdeclared.isNamed] at htoken
  | other _ hkind => simp [hdeclared.kind_eq] at hkind
  | bare hforeign _ => exact Node.not_isForeignBlock_of_itemKind? hdeclared.kind_eq hforeign
  | unnamed kind hkind hname =>
      have : kind = site.kind := Option.some.inj (hkind.symm.trans hdeclared.kind_eq)
      subst this
      obtain ⟨named, hnamed, -⟩ := hdeclared.name_eq
      simp [hnamed] at hname
  | hidden kind named notes hkind _ hnotes hvisibility hout =>
      have : kind = site.kind := Option.some.inj (hkind.symm.trans hdeclared.kind_eq)
      subst this
      obtain ⟨notes', hnotes', hshows⟩ := hdeclared.visibility_eq
      rw [hstands.take_eq] at hnotes'
      have : notes = notes' := Except.ok.inj (hnotes.symm.trans hnotes')
      subst this
      have hpriv : .priv = site.visibility :=
        Except.ok.inj (hvisibility.symm.trans (shows_iff.mp hshows))
      rcases hdeclared.shown with hne | hin
      · exact hne hpriv.symm
      · simp [hout] at hin

end Declaration

/-! ## Listing declarations -/

/-- What an item tells about the node that declares it. -/
def Item.summary (item : Item) : Kind × String × Visibility × Location :=
  (item.kind, item.name, item.visibility, item.location)

/-- What an item declared at a site tells about it. -/
def Site.summary (file : SourceFile) (site : Site) : Kind × String × Visibility × Location :=
  (site.kind, site.name, site.visibility, Location.of file.source file.path site.node.label)

theorem Declaration.Takes.summary_eq
    (h : Declaration.Takes file around forced before node kind named notes visibility item) :
    item.summary = Site.summary file ⟨node, kind, named.name, visibility⟩ := by
  obtain ⟨hkind, hname, hvisibility, hlocation⟩ := h.kind_item
  simp [Item.summary, Site.summary, hkind, hname, hvisibility, hlocation]

/-- The sites list the declarations at those children of a container that satisfy {lit}`P`, in
pre-order, and the items are what is declared there. -/
structure Listing (file : SourceFile) (container : Node) (owner : Option Owner) (P : Nat → Prop)
    (sites : List (Position × Site)) (items : List Item) : Prop where
  ordered : (sites.map Prod.fst).Pairwise (· < ·)
  mem_iff : ∀ position site, (position, site) ∈ sites ↔
    Declared file container owner position site ∧ ∃ i rest, position = i :: rest ∧ P i
  summary_eq : items.map Item.summary = sites.map fun s => s.2.summary file

/-- A position below a body, seen from the container of the owner of the body. -/
def Position.under (i j : Nat) (s : Position × Site) : Position × Site :=
  (i :: j :: s.1, s.2)

theorem Position.pairwise_under {sites : List (Position × Site)} (i j : Nat)
    (h : (sites.map Prod.fst).Pairwise (· < ·)) :
    ((sites.map (under i j)).map Prod.fst).Pairwise (· < ·) := by
  rw [List.pairwise_map] at h
  rw [List.map_map, List.pairwise_map]
  apply h.imp
  intro a b hab
  simpa [under, List.cons_lt_cons_iff] using hab

/-- What sites and items have to do with each other in a body, they have to do with each other below
it. -/
theorem Position.forall₂_under {R S : Position × Site → Item → Prop}
    {sites : List (Position × Site)} {items : List Item} {i j : Nat}
    (hbelow : ∀ s item, R s item → S (under i j s) item) (h : List.Forall₂ R sites items) :
    List.Forall₂ S (sites.map (under i j)) items :=
  List.forall₂_map_left_iff.mpr (h.imp fun s item => hbelow s item)

namespace Listing

variable {sites later : List (Position × Site)} {items itemsLater : List Item}

/-- A listing of all children lists everything that is declared. -/
theorem mem_of_declared (h : Listing file container owner (0 ≤ ·) sites items)
    {position : Position} {site : Site} (hdeclared : Declared file container owner position site) :
    (position, site) ∈ sites := by
  rw [h.mem_iff]
  refine ⟨hdeclared, ?_⟩
  cases hdeclared with
  | item _ => exact ⟨_, _, rfl, Nat.zero_le _⟩
  | member _ _ _ _ => exact ⟨_, _, rfl, Nat.zero_le _⟩
  | foreign _ _ _ _ _ => exact ⟨_, _, rfl, Nat.zero_le _⟩

/-- Declarations at one child come before those at later children. -/
theorem append {n : Nat} (hhere : Listing file container owner (· = n) sites items)
    (hlater : Listing file container owner (n + 1 ≤ ·) later itemsLater) :
    Listing file container owner (n ≤ ·) (sites ++ later) (items ++ itemsLater) := by
  refine ⟨?_, ?_, ?_⟩
  · rw [List.map_append, List.pairwise_append]
    refine ⟨hhere.ordered, hlater.ordered, ?_⟩
    intro p hp q hq
    obtain ⟨⟨p, s⟩, hs, rfl⟩ := List.mem_map.mp hp
    obtain ⟨⟨q, t⟩, ht, rfl⟩ := List.mem_map.mp hq
    obtain ⟨-, i, pRest, rfl, rfl⟩ := (hhere.mem_iff p s).mp hs
    obtain ⟨-, k, qRest, rfl, hk⟩ := (hlater.mem_iff q t).mp ht
    rw [List.cons_lt_cons_iff]
    exact .inl hk
  · intro position site
    rw [List.mem_append, hhere.mem_iff, hlater.mem_iff]
    constructor
    · rintro (⟨h, i, tail, rfl, rfl⟩ | ⟨h, i, tail, rfl, hi⟩)
      · exact ⟨h, _, tail, rfl, Nat.le_refl _⟩
      · exact ⟨h, i, tail, rfl, by omega⟩
    · rintro ⟨h, i, tail, rfl, hi⟩
      rcases Nat.eq_or_lt_of_le hi with rfl | hi
      · exact .inl ⟨h, _, tail, rfl, rfl⟩
      · exact .inr ⟨h, i, tail, rfl, hi⟩
  · rw [List.map_append, List.map_append, hhere.summary_eq, hlater.summary_eq]

/-- Nothing is declared after the last child. -/
theorem nil (h : container.children = pre) :
    Listing file container owner (pre.length ≤ ·) [] [] := by
  refine ⟨.nil, ?_, rfl⟩
  intro position site
  have hout : ∀ {i : Nat} {child : Node}, container.children[i]? = some child →
      ¬pre.length ≤ i := by
    intro i child hget hle
    rw [h, List.getElem?_eq_none hle] at hget
    contradiction
  constructor
  · intro hmem
    simp at hmem
  · rintro ⟨hdeclared, i, tail, rfl, hi⟩
    cases hdeclared with
    | item hat => exact (hout hat.getElem?_eq hi).elim
    | member hat _ _ _ => exact (hout hat.getElem?_eq hi).elim
    | foreign hget _ _ _ _ => exact (hout hget hi).elim

/-- Nothing is declared at a node that is passed over. -/
theorem pass (h : Declaration.Passes file (Owner.forced owner) before node)
    (hstands : Stands container pre node rest before) :
    Listing file container owner (· = pre.length) [] [] := by
  refine ⟨.nil, ?_, rfl⟩
  intro position site
  constructor
  · intro hmem
    simp at hmem
  · rintro ⟨hdeclared, i, tail, rfl, rfl⟩
    cases hdeclared with
    | item hat => exact (h.not_declaredAt hstands hat).elim
    | member hat _ _ _ => exact (h.not_declaredAt hstands hat).elim
    | @foreign _ _ _ block j body _ _ hget hnamed hforeign hbody _ =>
        have hnode : node = block := Option.some.inj (hstands.getElem?_eq.symm.trans hget)
        subst hnode
        cases h with
        | token htoken => simp [hnamed] at htoken
        | other hother _ => simp [hforeign] at hother
        | bare _ hbare =>
            rw [exists_isBody_iff.mp ⟨j, hbody⟩] at hbare
            contradiction
        | unnamed kind hkind _ => exact (Node.not_isForeignBlock_of_itemKind? hkind hforeign).elim
        | hidden kind _ _ hkind _ _ _ _ =>
            exact (Node.not_isForeignBlock_of_itemKind? hkind hforeign).elim

/-- What is declared at a foreign block is what is declared in its body. -/
theorem block {j : Nat} (hstands : Stands container pre node rest before)
    (hnamed : node.isNamed = true) (hforeign : node.isForeignBlock = true)
    (hbody : IsBody node j body) (h : Listing file body owner (0 ≤ ·) sites items) :
    Listing file container owner (· = pre.length)
      (sites.map (Position.under pre.length j)) items := by
  refine ⟨Position.pairwise_under _ _ h.ordered, ?_, ?_⟩
  · intro position site
    constructor
    · intro hmem
      obtain ⟨⟨inner, s⟩, hs, heq⟩ := List.mem_map.mp hmem
      obtain ⟨rfl, rfl⟩ := Prod.mk.inj heq
      have hinner := ((h.mem_iff inner s).mp hs).1
      exact ⟨.foreign hstands.getElem?_eq hnamed hforeign hbody hinner, _, _, rfl, rfl⟩
    · rintro ⟨hdeclared, i, tail, rfl, rfl⟩
      cases hdeclared with
      | item hat =>
          have hnode := Option.some.inj (hstands.getElem?_eq.symm.trans hat.getElem?_eq)
          exact (Node.not_isForeignBlock_of_itemKind? hat.kind_eq (hnode ▸ hforeign)).elim
      | member hat _ _ _ =>
          have hnode := Option.some.inj (hstands.getElem?_eq.symm.trans hat.getElem?_eq)
          exact (Node.not_isForeignBlock_of_itemKind? hat.kind_eq (hnode ▸ hforeign)).elim
      | foreign hget _ _ hbody' hinner =>
          obtain rfl := Option.some.inj (hstands.getElem?_eq.symm.trans hget)
          obtain ⟨rfl, rfl⟩ := hbody.unique hbody'
          exact List.mem_map.mpr ⟨_, h.mem_of_declared hinner, rfl⟩
  · rw [h.summary_eq, List.map_map]
    rfl

/-- An item without members is declared alone. -/
theorem leaf
    (htakes : Declaration.Takes file around (Owner.forced owner) before node kind named notes
      visibility item)
    (hleaf : kind.opensScope = true → node.child? "body" = none)
    (hstands : Stands container pre node rest before) :
    Listing file container owner (· = pre.length)
      [([pre.length], ⟨node, kind, named.name, visibility⟩)] [item] := by
  have hat := htakes.declaredAt hstands
  refine ⟨by simp, ?_, by simp [htakes.summary_eq]⟩
  intro position site
  rw [List.mem_singleton]
  constructor
  · intro heq
    obtain ⟨rfl, rfl⟩ := Prod.mk.inj heq
    exact ⟨.item hat, _, _, rfl, rfl⟩
  · rintro ⟨hdeclared, i, tail, rfl, rfl⟩
    cases hdeclared with
    | item hat' => rw [hat'.unique hat]
    | member hat' hscope hbody _ =>
        obtain rfl := hat'.unique hat
        have hnone := hleaf (kind.opensScope_iff.mpr hscope)
        rw [exists_isBody_iff.mp ⟨_, hbody⟩] at hnone
        contradiction
    | foreign hget _ hforeign _ _ =>
        obtain rfl := Option.some.inj (hstands.getElem?_eq.symm.trans hget)
        exact (Node.not_isForeignBlock_of_itemKind? htakes.kind_eq hforeign).elim

/-- An item with a body is declared before everything in its body. -/
theorem scope
    (htakes : Declaration.Takes file around (Owner.forced owner) before node kind named notes
      visibility item)
    (hscope : kind.opensScope = true) (hbody : IsBody node j body)
    (hstands : Stands container pre node rest before)
    (h : Listing file body (some ⟨kind, node, visibility⟩) (0 ≤ ·) sites items) :
    Listing file container owner (· = pre.length)
      (([pre.length], ⟨node, kind, named.name, visibility⟩) ::
        sites.map (Position.under pre.length j)) (item :: items) := by
  have hat := htakes.declaredAt hstands
  refine ⟨?_, ?_, ?_⟩
  · rw [List.map_cons, List.pairwise_cons]
    refine ⟨?_, Position.pairwise_under _ _ h.ordered⟩
    intro position hposition
    rw [List.map_map] at hposition
    obtain ⟨s, -, rfl⟩ := List.mem_map.mp hposition
    simp [Position.under]
  · intro position site
    rw [List.mem_cons]
    constructor
    · rintro (heq | hmem)
      · obtain ⟨rfl, rfl⟩ := Prod.mk.inj heq
        exact ⟨.item hat, _, _, rfl, rfl⟩
      · obtain ⟨⟨inner, s⟩, hs, heq⟩ := List.mem_map.mp hmem
        obtain ⟨rfl, rfl⟩ := Prod.mk.inj heq
        have hinner := ((h.mem_iff inner s).mp hs).1
        exact ⟨.member hat (kind.opensScope_iff.mp hscope) hbody hinner, _, _, rfl, rfl⟩
    · rintro ⟨hdeclared, i, tail, rfl, rfl⟩
      cases hdeclared with
      | item hat' =>
          rw [hat'.unique hat]
          exact .inl rfl
      | member hat' _ hbody' hinner =>
          obtain rfl := hat'.unique hat
          obtain ⟨rfl, rfl⟩ := hbody.unique hbody'
          exact .inr (List.mem_map.mpr ⟨_, h.mem_of_declared hinner, rfl⟩)
      | foreign hget _ hforeign _ _ =>
          obtain rfl := Option.some.inj (hstands.getElem?_eq.symm.trans hget)
          exact (Node.not_isForeignBlock_of_itemKind? htakes.kind_eq hforeign).elim
  · rw [List.map_cons, List.map_cons, htakes.summary_eq, h.summary_eq, List.map_map]
    rfl

end Listing

/-- The children of a container after a child is passed. -/
theorem Stands.children_eq_append (h : Stands container pre node rest before) :
    container.children = (pre ++ [node]) ++ rest := by
  rw [h.children_eq]
  simp

/-- The siblings before the next child, once a child is passed. -/
theorem Stands.passed_eq (h : Stands container pre node rest before) :
    Declaration.passed before node = ((pre ++ [node]).filter Node.isNamed).reverse := by
  unfold Declaration.passed
  rw [h.before_eq, List.filter_append, List.reverse_append]
  cases hnamed : node.isNamed <;> simp [hnamed]

/-- The reader lists the declarations of a container.  A relation between the nodes around, the
sites of a container and their items holds of all of them if it holds of what is taken where it
stands, and if it goes over from a body to the container of the owner of the body. -/
theorem Declaration.Traversal.listing_around {file : SourceFile}
    {R : List Node → Node → Position × Site → Item → Prop}
    (hhere : ∀ {container pre node rest around forced before kind named notes visibility item},
      Stands container pre node rest before →
      Takes file around forced before node kind named notes visibility item →
      R around container ([pre.length], ⟨node, kind, named.name, visibility⟩) item)
    (hbelow : ∀ {around : List Node} {container : Node} {i node j body},
      container.children[i]? = some node → node.children[j]? = some body → ∀ s item,
      R (body :: node :: around) body s item → R around container (Position.under i j s) item)
    {around : List Node} {forced : Option Visibility} {before nodes : List Node}
    {declarations : List Declaration}
    (h : Traversal file around forced before nodes declarations) :
    ∀ {container : Node} {owner : Option Owner} {pre : List Node},
      container.children = pre ++ nodes → before = (pre.filter Node.isNamed).reverse →
      forced = Owner.forced owner →
      ∃ sites, Listing file container owner (pre.length ≤ ·) sites (itemsAll declarations) ∧
        List.Forall₂ (R around container) sites (itemsAll declarations) := by
  induction h with
  | nil =>
      intro container owner pre hchildren _ _
      rw [List.append_nil] at hchildren
      exact ⟨[], .nil hchildren, .nil⟩
  | @pass _ _ _ node rest _ hpasses _ ih =>
      intro container owner pre hchildren hbefore hforced
      subst hforced
      have hstands : Stands container pre node rest _ := ⟨hchildren, hbefore⟩
      obtain ⟨later, hlater, hholds⟩ := ih hstands.children_eq_append hstands.passed_eq rfl
      rw [List.length_append, List.length_singleton] at hlater
      exact ⟨_, (Listing.pass hpasses hstands).append hlater, hholds⟩
  | @block _ _ _ node rest body _ _ hnamed hforeign hbody _ _ ihInner ihLater =>
      intro container owner pre hchildren hbefore hforced
      subst hforced
      have hstands : Stands container pre node rest _ := ⟨hchildren, hbefore⟩
      obtain ⟨j, hbody⟩ := exists_isBody_iff.mpr hbody
      obtain ⟨inner, hinner, hinside⟩ := ihInner (List.nil_append _).symm rfl rfl
      obtain ⟨later, hlater, hholds⟩ := ihLater hstands.children_eq_append hstands.passed_eq rfl
      rw [List.length_append, List.length_singleton] at hlater
      rw [itemsAll_append]
      have hmoved := Position.forall₂_under (hbelow hstands.getElem?_eq hbody.getElem?_eq) hinside
      exact ⟨_, (Listing.block hstands hnamed hforeign hbody hinner).append hlater,
        List.rel_append hmoved hholds⟩
  | @leaf _ _ _ node rest _ _ _ _ _ _ htakes hleaf _ ih =>
      intro container owner pre hchildren hbefore hforced
      subst hforced
      have hstands : Stands container pre node rest _ := ⟨hchildren, hbefore⟩
      obtain ⟨later, hlater, hholds⟩ := ih hstands.children_eq_append hstands.passed_eq rfl
      rw [List.length_append, List.length_singleton] at hlater
      rw [itemsAll_cons, itemsAll_nil, List.nil_append]
      exact ⟨_, (Listing.leaf htakes hleaf hstands).append hlater,
        .cons (hhere hstands htakes) hholds⟩
  | @scope _ _ _ node rest kind _ _ visibility _ body _ _ htakes hscope hbody _ _ ihMembers
      ihLater =>
      intro container owner pre hchildren hbefore hforced
      subst hforced
      have hstands : Stands container pre node rest _ := ⟨hchildren, hbefore⟩
      obtain ⟨j, hbody⟩ := exists_isBody_iff.mpr hbody
      obtain ⟨inner, hinner, hinside⟩ := ihMembers (List.nil_append _).symm rfl
        (show _ = Owner.forced (some ⟨kind, node, visibility⟩) from rfl)
      obtain ⟨later, hlater, hholds⟩ := ihLater hstands.children_eq_append hstands.passed_eq rfl
      rw [List.length_append, List.length_singleton] at hlater
      rw [itemsAll_cons]
      have hmoved := Position.forall₂_under (hbelow hstands.getElem?_eq hbody.getElem?_eq) hinside
      exact ⟨_, (Listing.scope htakes hscope hbody hstands hinner).append hlater,
        .cons (hhere hstands htakes) (List.rel_append hmoved hholds)⟩

/-- The same for a relation in which the nodes around do not occur. -/
theorem Declaration.Traversal.listing_related {file : SourceFile}
    {R : Node → Position × Site → Item → Prop}
    (hhere : ∀ {container pre node rest around forced before kind named notes visibility item},
      Stands container pre node rest before →
      Takes file around forced before node kind named notes visibility item →
      R container ([pre.length], ⟨node, kind, named.name, visibility⟩) item)
    (hbelow : ∀ {container : Node} {i node j body}, container.children[i]? = some node →
      node.children[j]? = some body →
      ∀ s item, R body s item → R container (Position.under i j s) item)
    {around : List Node} {forced : Option Visibility} {before nodes : List Node}
    {declarations : List Declaration}
    (h : Traversal file around forced before nodes declarations) :
    ∀ {container : Node} {owner : Option Owner} {pre : List Node},
      container.children = pre ++ nodes → before = (pre.filter Node.isNamed).reverse →
      forced = Owner.forced owner →
      ∃ sites, Listing file container owner (pre.length ≤ ·) sites (itemsAll declarations) ∧
        List.Forall₂ (R container) sites (itemsAll declarations) :=
  h.listing_around (R := fun _ => R) hhere hbelow

/-- The reader lists the declarations of a container. -/
theorem Declaration.Traversal.listing {file : SourceFile} {around : List Node}
    {forced : Option Visibility} {before nodes : List Node} {declarations : List Declaration}
    (h : Traversal file around forced before nodes declarations) {container : Node}
    {owner : Option Owner} {pre : List Node} (hchildren : container.children = pre ++ nodes)
    (hbefore : before = (pre.filter Node.isNamed).reverse) (hforced : forced = Owner.forced owner) :
    ∃ sites, Listing file container owner (pre.length ≤ ·) sites (itemsAll declarations) := by
  obtain ⟨sites, hsites, -⟩ := h.listing_related (R := fun _ _ _ => True)
    (fun _ _ => trivial) (fun _ _ _ _ _ => trivial) hchildren hbefore hforced
  exact ⟨sites, hsites⟩

/-- The elements of a file one by one with the sites where they are declared.  What holds of all that
is taken where it stands, and goes over from bodies to what is around them, holds of both. -/
theorem elementsOf_related {file : SourceFile} {root : Node} {elements : List Element}
    {R : List Node → Node → Position × Site → Item → Prop}
    (hhere : ∀ {container pre node rest around forced before kind named notes visibility item},
      Stands container pre node rest before →
      Declaration.Takes file around forced before node kind named notes visibility item →
      R around container ([pre.length], ⟨node, kind, named.name, visibility⟩) item)
    (hbelow : ∀ {around : List Node} {container : Node} {i node j body},
      container.children[i]? = some node → node.children[j]? = some body → ∀ s item,
      R (body :: node :: around) body s item → R around container (Position.under i j s) item)
    (h : elementsOf file root = .ok elements) :
    ∃ sites : List (Position × Site),
      (sites.map Prod.fst).Pairwise (· < ·) ∧
      (∀ s ∈ sites, Declared file root none s.1 s.2) ∧
      List.Forall₂ (fun s element => R [root] root s element.item) sites elements := by
  obtain ⟨declarations, hroot, rfl⟩ := Outcome.map_eq_ok_iff.mp h
  obtain ⟨sites, hsites, hread⟩ := (Declaration.ofRoot_eq_ok_iff.mp hroot).listing_around
    hhere hbelow (List.nil_append _).symm rfl (show none = Owner.forced none from rfl)
  refine ⟨sites, hsites.ordered, ?_, ?_⟩
  · intro s hs
    exact ((hsites.mem_iff s.1 s.2).mp hs).1
  · rw [← Declaration.placeAll_items declarations (.start file.path),
      List.forall₂_map_right_iff] at hread
    rw [Declaration.elements_eq, List.forall₂_map_right_iff]
    exact hread

/-- The elements of a file are exactly what is declared in its tree, in pre-order and each once. -/
theorem elementsOf_declared {file : SourceFile} {root : Node} {elements : List Element}
    (h : elementsOf file root = .ok elements) :
    ∃ sites : List (Position × Site),
      (sites.map Prod.fst).Pairwise (· < ·) ∧
      (∀ position site, (position, site) ∈ sites ↔ Declared file root none position site) ∧
      elements.map (fun element => element.item.summary) =
        sites.map fun s => s.2.summary file := by
  obtain ⟨declarations, hroot, rfl⟩ := Outcome.map_eq_ok_iff.mp h
  obtain ⟨sites, hsites⟩ := (Declaration.ofRoot_eq_ok_iff.mp hroot).listing
    (List.nil_append _).symm rfl (show none = Owner.forced none from rfl)
  refine ⟨sites, hsites.ordered, ?_, ?_⟩
  · intro position site
    exact ⟨fun hmem => ((hsites.mem_iff position site).mp hmem).1, hsites.mem_of_declared⟩
  · rw [← hsites.summary_eq, ← Declaration.placeAll_items declarations (.start file.path),
      Declaration.elements_eq, List.map_map, List.map_map]
    rfl

/-- The six elements of the sample stand at these positions: the members of the module are below
its body, its third child. -/
theorem elementsOf_declared_sample :
    ∃ (elements : List Element) (sites : List (Position × Site)),
      elementsOf (Sample.file true) Sample.root = .ok elements ∧
      elements.map Element.name = ["a", "b", "c", "T for S", "d", "e"] ∧
      (sites.map Prod.fst).Pairwise (· < ·) ∧
      (∀ position site, (position, site) ∈ sites ↔
        Declared (Sample.file true) Sample.root none position site) ∧
      elements.map (fun element => element.item.summary) =
        sites.map fun s => s.2.summary (Sample.file true) := by
  have hnames : (elementsOf (Sample.file true) Sample.root).map (List.map Element.name) =
      .ok ["a", "b", "c", "T for S", "d", "e"] := by
    decide +kernel
  obtain ⟨elements, h, hnames⟩ := Outcome.map_eq_ok_iff.mp hnames
  obtain ⟨sites, hordered, hmem, hsummary⟩ := elementsOf_declared h
  exact ⟨elements, sites, h, hnames, hordered, hmem, hsummary⟩

end CrateAtlas
