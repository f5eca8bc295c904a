import CrateAtlas.Proofs.Declared
import CrateAtlas.Proofs.Resolution
import CrateAtlas.Proofs.Spans
import CrateAtlas.Proofs.UsagePlaces

/-!
# Which nodes give references

References are collected element by element, from trees that contain each other: an impl block holds
the functions in its body, and a module everything below it.  Every reference is traced back to the
position of the node that gives it.  A declaration that holds another one uses no names in its body,
so all these positions are apart, within one element and from one element to another.

Main results:

- Theorem {lit}`Declared.apart_or_inside`: how the positions of two declarations lie to each other.
- Theorem {lit}`Origin.apart`: different elements take their references from different nodes.
- Theorem {lit}`elementsOf_referenceLaws`: the laws of the references of a file.
-/

namespace CrateAtlas

/-! ## Declarations inside each other -/

/-- A position in the body of a declaration with members. -/
def Inside (outer : Position) (site : Site) (inner : Position) : Prop :=
  (site.kind = .mod ∨ site.kind = .impl ∨ site.kind = .trait) ∧
    ∃ j rest, site.node.childIndex? "body" = some j ∧ inner = outer ++ j :: rest

variable {file : SourceFile} {container root : Node} {owner : Option Owner} {p q : Position}
  {s t : Site} {elements : List Element}

theorem Inside.under (i j : Nat) (h : Inside p s q) : Inside (i :: j :: p) s (i :: j :: q) := by
  obtain ⟨hkind, k, rest, hindex, rfl⟩ := h
  exact ⟨hkind, k, rest, hindex, rfl⟩

/-- Declarations are made by the nodes at their positions. -/
theorem Declared.at?_eq (h : Declared file container owner p s) :
    container.at? p = some s.node := by
  induction h with
  | item hat => simp [hat.getElem?_eq]
  | member hat _ hbody _ ih => simp [hat.getElem?_eq, hbody.getElem?_eq, ih]
  | foreign hget _ _ hbody _ ih => simp [hget, hbody.getElem?_eq, ih]

/-- A foreign block declares nothing itself, so that declarations stand at other children. -/
theorem DeclaredAt.index_ne {i j : Nat} {block : Node} (h : DeclaredAt file container owner i s)
    (hget : container.children[j]? = some block) (hforeign : block.isForeignBlock = true) :
    i ≠ j := by
  rintro rfl
  obtain rfl := Option.some.inj (hget.symm.trans h.getElem?_eq)
  exact Node.not_isForeignBlock_of_itemKind? h.kind_eq hforeign

/-- Two positions are apart, or one of them is in the body of the declaration at the other. -/
def ApartOrInside (p : Position) (s : Site) (q : Position) (t : Site) : Prop :=
  Position.Apart p q ∨ Inside p s q ∨ Inside q t p

/-- What holds in a body holds of the positions below it. -/
theorem ApartOrInside.under (i j : Nat) (h : ApartOrInside p s q t) :
    ApartOrInside (i :: j :: p) s (i :: j :: q) t := by
  rcases h with hapart | hinside | hinside
  · exact .inl ((Position.apart_append_left_iff (r := [i, j])).mpr hapart)
  · exact .inr (.inl (hinside.under i j))
  · exact .inr (.inr (hinside.under i j))

/-- Positions that start with different children are apart. -/
theorem apartOrInside_of_ne {i j : Nat} (h : i ≠ j) : ApartOrInside (i :: p) s (j :: q) t :=
  .inl (Position.apart_cons_of_ne h)

/-- Two declarations at different positions are apart, or one is in the body of the other. -/
theorem Declared.apart_or_inside (hs : Declared file container owner p s) :
    ∀ {q t}, Declared file container owner q t → p ≠ q → ApartOrInside p s q t := by
  induction hs with
  | @item container owner i site hat =>
      intro q t ht hne
      cases ht with
      | @item _ _ i' _ _ => exact apartOrInside_of_ne fun heq => hne (by rw [heq])
      | @member _ _ i' _ j _ position _ hat' hkind hbody _ =>
          by_cases heq : i = i'
          · subst heq
            obtain rfl := hat.unique hat'
            exact .inr (.inl ⟨hkind, j, position, hbody.index_eq, rfl⟩)
          · exact apartOrInside_of_ne heq
      | foreign hget _ hforeign _ _ => exact apartOrInside_of_ne (hat.index_ne hget hforeign)
  | @member container owner i site j body position inner hat hkind hbody hinner ih =>
      intro q t ht hne
      cases ht with
      | @item _ _ i' _ hat' =>
          by_cases heq : i = i'
          · subst heq
            obtain rfl := hat.unique hat'
            exact .inr (.inr ⟨hkind, j, position, hbody.index_eq, rfl⟩)
          · exact apartOrInside_of_ne heq
      | @member _ _ i' _ _ _ _ _ hat' _ hbody' hinner' =>
          by_cases heq : i = i'
          · subst heq
            obtain rfl := hat.unique hat'
            obtain ⟨rfl, rfl⟩ := hbody.unique hbody'
            exact (ih hinner' fun heq => hne (by rw [heq])).under i j
          · exact apartOrInside_of_ne heq
      | foreign hget _ hforeign _ _ => exact apartOrInside_of_ne (hat.index_ne hget hforeign)
  | @foreign container owner i block j body position inner hget hnamed hforeign hbody hinner ih =>
      intro q t ht hne
      cases ht with
      | item hat' => exact apartOrInside_of_ne (hat'.index_ne hget hforeign).symm
      | member hat' _ _ _ => exact apartOrInside_of_ne (hat'.index_ne hget hforeign).symm
      | @foreign _ _ i' _ _ _ _ _ hget' _ _ hbody' hinner' =>
          by_cases heq : i = i'
          · subst heq
            obtain rfl := Option.some.inj (hget.symm.trans hget')
            obtain ⟨rfl, rfl⟩ := hbody.unique hbody'
            exact (ih hinner' fun heq => hne (by rw [heq])).under i j
          · exact apartOrInside_of_ne heq

/-! ## Locations -/

/-- A location inside another one, in the same file. -/
structure Location.Within (inner outer : Location) : Prop where
  filePath_eq : inner.filePath = outer.filePath
  lineStart_le : outer.lineStart ≤ inner.lineStart
  lineEnd_le : inner.lineEnd ≤ outer.lineEnd
  byteStart_le : outer.byteStart ≤ inner.byteStart
  byteEnd_le : inner.byteEnd ≤ outer.byteEnd

/-- Spans inside each other are locations inside each other. -/
theorem Location.within_of_span {source : Source} {filePath : String} {inner outer : Label}
    (hstart : outer.start ≤ inner.start) (hstop : inner.stop ≤ outer.stop) :
    (Location.of source filePath inner).Within (Location.of source filePath outer) where
  filePath_eq := rfl
  lineStart_le := Nat.succ_le_succ (source.row_mono hstart)
  lineEnd_le := Nat.succ_le_succ (source.row_mono hstop)
  byteStart_le := hstart
  byteEnd_le := hstop

/-! ## From uses to references -/

/-- The reference that an element makes when it uses a name. -/
def Element.reference (file : SourceFile) (element : Element) (usage : Usage) : Reference :=
  { origin := some element.id
    type := usage.type
    text := usage.text
    location := Location.of file.source file.path usage.label
    scope := element.qualifiedName
    target := none }

theorem Element.references_eq (file : SourceFile) (element : Element) :
    element.references file = element.item.usages.map (element.reference file) :=
  rfl

/-- A use that is read has the label of its place and is not empty. -/
theorem Usage.of_ofSite {source : Source} {generics : List String} {site : UsageSite}
    {usage : Usage} (h : Usage.ofSite source generics site = .ok (some usage)) :
    usage.label = site.label ∧ usage.text ≠ "" := by
  obtain ⟨written, -, hread⟩ := Outcome.map_eq_ok_iff.mp h
  simp only at hread
  split_ifs at hread with hlocal hempty
  obtain rfl := Option.some.inj hread
  exact ⟨rfl, hempty⟩

/-- What is read from places comes from some of them, in their order. -/
theorem Usage.exists_taken {source : Source} {generics : List String} {uses : List Use} :
    ∀ {found : List (Option Usage)},
      (uses.map Use.site).mapM (Usage.ofSite source generics) = .ok found →
      ∃ taken, taken.Sublist uses ∧
        List.Forall₂ (fun use usage => Usage.ofSite source generics use.site = .ok (some usage))
          taken (found.filterMap id) := by
  induction uses with
  | nil =>
      intro found h
      cases h
      exact ⟨[], .slnil, .nil⟩
  | cons use rest ih =>
      intro found h
      rw [List.map_cons, List.mapM_cons] at h
      simp only [Outcome.bind_eq_ok_iff, Outcome.pure_eq_ok_iff] at h
      obtain ⟨first, hfirst, later, hlater, rfl⟩ := h
      obtain ⟨taken, hsublist, hread⟩ := ih hlater
      cases first with
      | none => exact ⟨taken, hsublist.cons use, hread⟩
      | some usage => exact ⟨use :: taken, hsublist.cons_cons use, .cons hfirst hread⟩

/-- The kinds of declarations whose uses of names count. -/
def Speaks (kind : Kind) : Prop :=
  kind ≠ .mod ∧ kind ≠ .macroRules

/-- The uses that are read of a declaration are some of those at its node, in their order. -/
theorem Usage.taken_of_ofItem {source : Source} {around : List Node} {kind : Kind} {node : Node}
    {usages : List Usage} (h : Usage.ofItem source around kind node = .ok usages) :
    (¬Speaks kind ∧ usages = []) ∨
      Speaks kind ∧ ∃ generics taken, taken.Sublist (UsageSite.usesOf kind node) ∧
        List.Forall₂ (fun use usage => Usage.ofSite source generics use.site = .ok (some usage))
          taken usages := by
  unfold Usage.ofItem at h
  split at h <;> rename_i hkind
  · cases h
    refine .inl ⟨?_, rfl⟩
    rintro ⟨hmod, hrules⟩
    exact hkind.elim hmod hrules
  · simp only [Outcome.bind_eq_ok_iff, Outcome.pure_eq_ok_iff] at h
    obtain ⟨generics, -, found, hfound, rfl⟩ := h
    rw [← UsageSite.usesOf_sites] at hfound
    obtain ⟨taken, htaken⟩ := Usage.exists_taken hfound
    exact .inr ⟨not_or.mp hkind, generics, taken, htaken⟩

/-- The uses of an element are those at the node of a site. -/
structure ReadAt (file : SourceFile) (site : Site) (item : Item) : Prop where
  summary_eq : item.summary = site.summary file
  usages_eq : ∃ around, Usage.ofItem file.source around site.kind site.node = .ok item.usages

/-- The elements of a file one by one with the sites where they are declared. -/
theorem elementsOf_readAt (h : elementsOf file root = .ok elements) :
    ∃ sites : List (Position × Site),
      (sites.map Prod.fst).Pairwise (· < ·) ∧
      (∀ site ∈ sites, Declared file root none site.1 site.2) ∧
      List.Forall₂ (fun site element => ReadAt file site.2 element.item) sites elements :=
  elementsOf_related (R := fun _ _ site item => ReadAt file site.2 item)
    (fun _ htakes => ⟨htakes.summary_eq, _, htakes.usages_eq⟩) (fun _ _ _ _ hread => hread) h

/-! ## Where references come from -/

/-- Where a reference comes from: an element, the position and the site where it is declared, the
use of a name at that site, and what was read there. -/
structure Origin where
  element : Element
  position : Position
  site : Site
  use : Use
  usage : Usage

namespace Origin

/-- The position of the node that gives the reference. -/
def place (origin : Origin) : Position :=
  origin.position ++ origin.use.position

/-- The reference. -/
def reference (file : SourceFile) (origin : Origin) : Reference :=
  origin.element.reference file origin.usage

/-- The origin is in a tree: the element is declared at its site, the name is used there, and it
is read at the node at the place of the origin. -/
structure In (file : SourceFile) (root : Node) (origin : Origin) : Prop where
  declared : Declared file root none origin.position origin.site
  summary_eq : origin.element.item.summary = origin.site.summary file
  speaks : Speaks origin.site.kind
  used : origin.use ∈ UsageSite.usesOf origin.site.kind origin.site.node
  read : ∃ generics, Usage.ofSite file.source generics origin.use.site = .ok (some origin.usage)
  given : ∃ node, root.at? origin.place = some node ∧ node.label = origin.usage.label

variable {a b : Origin}

/-- A place in an element is apart from all places in the elements in its body. -/
theorem apart_of_inside (ha : a.In file root) (h : Inside a.position a.site b.position) :
    Position.Apart a.place b.place := by
  obtain ⟨hkind, j, rest, hindex, hposition⟩ := h
  have hbody : a.site.kind = .impl ∨ a.site.kind = .trait :=
    hkind.resolve_left ha.speaks.1
  obtain ⟨i, below, huse, hne⟩ := UsageSite.position_of_mem_usesOf hbody ha.used
  rw [place, place, hposition, huse, List.append_assoc, Position.apart_append_left_iff]
  apply Position.apart_cons_of_ne
  rintro rfl
  exact hne hindex

/-- The places of references of different elements are apart. -/
theorem apart (ha : a.In file root) (hb : b.In file root) (hne : a.position ≠ b.position) :
    Position.Apart a.place b.place := by
  rcases ha.declared.apart_or_inside hb.declared hne with hapart | hinside | hinside
  · exact hapart.append _ _
  · exact apart_of_inside ha hinside
  · exact (apart_of_inside hb hinside).symm

end Origin

/-- A use of a name that was read at the site of an element is the origin of a reference. -/
theorem Origin.In.of_used {origin : Origin} {generics : List String}
    (hdeclared : Declared file root none origin.position origin.site)
    (hread : ReadAt file origin.site origin.element.item) (hspeaks : Speaks origin.site.kind)
    (hused : origin.use ∈ UsageSite.usesOf origin.site.kind origin.site.node)
    (husage : Usage.ofSite file.source generics origin.use.site = .ok (some origin.usage)) :
    origin.In file root := by
  obtain ⟨node, hat, hlabel⟩ := UsageSite.at_of_mem_usesOf hused
  refine ⟨hdeclared, hread.summary_eq, hspeaks, hused, ⟨generics, husage⟩, node, ?_, ?_⟩
  · rw [Origin.place, Node.at?_append, hdeclared.at?_eq, Option.bind_some, hat]
  · rw [hlabel, (Usage.of_ofSite husage).1]

/-- The references of one element, traced back to the uses at its site.  The uses keep their
order. -/
theorem exists_origins_of_uses {position : Position} {site : Site} {element : Element}
    (hdeclared : Declared file root none position site) (hread : ReadAt file site element.item) :
    ∃ origins : List Origin, origins.map (Origin.reference file) = element.references file ∧
      (∀ o ∈ origins, o.element = element ∧ o.position = position ∧ o.In file root) ∧
      (origins.map Origin.use).Sublist (UsageSite.usesOf site.kind site.node) := by
  obtain ⟨around, husages⟩ := hread.usages_eq
  rcases Usage.taken_of_ofItem husages with ⟨-, hnil⟩ | ⟨hspeaks, generics, taken, hsub, hforall⟩
  · refine ⟨[], ?_, by simp, List.nil_sublist _⟩
    rw [Element.references_eq, hnil, List.map_nil, List.map_nil]
  · obtain ⟨hlength, hpairs⟩ := List.forall₂_iff_zip.mp hforall
    have hpartners : (taken.zip element.item.usages).map Prod.snd = element.item.usages :=
      List.map_snd_zip (Nat.le_of_eq hlength.symm)
    have htaken : (taken.zip element.item.usages).map Prod.fst = taken :=
      List.map_fst_zip (Nat.le_of_eq hlength)
    refine ⟨(taken.zip element.item.usages).map
      fun read => ⟨element, position, site, read.1, read.2⟩, ?_, ?_, ?_⟩
    · rw [Element.references_eq, List.map_map]
      conv_rhs => rw [← hpartners, List.map_map]
      rfl
    · intro o ho
      obtain ⟨⟨use, usage⟩, hpair, rfl⟩ := List.mem_map.mp ho
      have hused := hsub.subset (List.of_mem_zip hpair).1
      exact ⟨rfl, rfl, .of_used hdeclared hread hspeaks hused (hpairs hpair)⟩
    · rw [List.map_map, show Origin.use ∘ _ = Prod.fst from rfl, htaken]
      exact hsub

/-- What holds between the uses of a declaration, each seen from the root, holds between the places
of the references there. -/
theorem pairwise_places {R : Position → Position → Prop} {position : Position} {site : Site}
    {origins : List Origin} (hposition : ∀ o ∈ origins, o.position = position)
    (hsub : (origins.map Origin.use).Sublist (UsageSite.usesOf site.kind site.node))
    (h : (UsageSite.usesOf site.kind site.node).Pairwise fun a b =>
      R (position ++ a.position) (position ++ b.position)) :
    origins.Pairwise fun a b => R a.place b.place := by
  refine (List.pairwise_map.mp (h.sublist hsub)).imp_of_mem ?_
  intro a b ha hb hab
  rw [Origin.place, Origin.place, hposition a ha, hposition b hb]
  exact hab

/-- The references of one element, traced back to their places. -/
theorem exists_origins_of_readAt {position : Position} {site : Site} {element : Element}
    (hdeclared : Declared file root none position site) (hread : ReadAt file site element.item) :
    ∃ origins : List Origin, origins.map (Origin.reference file) = element.references file ∧
      (∀ o ∈ origins, o.element = element ∧ o.position = position ∧ o.In file root) ∧
      origins.Pairwise fun a b => Position.Apart a.place b.place := by
  obtain ⟨origins, hreferences, hin, hsub⟩ := exists_origins_of_uses hdeclared hread
  refine ⟨origins, hreferences, hin, pairwise_places (fun o ho => (hin o ho).2.1) hsub ?_⟩
  refine (UsageSite.usesOf_apart site.kind site.node).imp ?_
  intro a b hab
  exact Position.apart_append_left_iff.mpr hab

/-- The references of several elements, traced back to their places. -/
theorem exists_origins {sites : List (Position × Site)}
    (h : List.Forall₂ (fun site element => ReadAt file site.2 element.item) sites elements) :
    (sites.map Prod.fst).Pairwise (· < ·) →
    (∀ site ∈ sites, Declared file root none site.1 site.2) →
    ∃ origins : List Origin,
      origins.map (Origin.reference file) = elements.flatMap (Element.references file) ∧
      (∀ o ∈ origins, o.element ∈ elements ∧ o.position ∈ sites.map Prod.fst ∧ o.In file root) ∧
      origins.Pairwise fun a b => Position.Apart a.place b.place := by
  induction h with
  | nil =>
      intro _ _
      exact ⟨[], rfl, by simp, .nil⟩
  | @cons site element sites elements hread _ ih =>
      intro hordered hdeclared
      rw [List.map_cons, List.pairwise_cons] at hordered
      obtain ⟨here, hhere, hin, hhereApart⟩ :=
        exists_origins_of_readAt (hdeclared site List.mem_cons_self) hread
      obtain ⟨later, hlater, hlaterIn, hlaterApart⟩ :=
        ih hordered.2 fun other hother => hdeclared other (List.mem_cons_of_mem _ hother)
      refine ⟨here ++ later, ?_, ?_, ?_⟩
      · rw [List.map_append, hhere, hlater, List.flatMap_cons]
      · intro o ho
        rcases List.mem_append.mp ho with ho | ho
        · obtain ⟨helement, hposition, hholds⟩ := hin o ho
          exact ⟨by simp [helement], by simp [hposition], hholds⟩
        · obtain ⟨helement, hposition, hholds⟩ := hlaterIn o ho
          exact ⟨List.mem_cons_of_mem _ helement, List.mem_cons_of_mem _ hposition, hholds⟩
      · refine List.pairwise_append.mpr ⟨hhereApart, hlaterApart, ?_⟩
        intro a ha b hb
        obtain ⟨-, hposition, haIn⟩ := hin a ha
        obtain ⟨-, hother, hbIn⟩ := hlaterIn b hb
        apply Origin.apart haIn hbIn
        rw [hposition]
        intro heq
        exact List.lt_irrefl _ (heq ▸ hordered.1 b.position hother)

/-! ## The references of a file -/

/-- What holds of the references of the elements of a file. -/
structure ReferenceLaws (file : SourceFile) (root : Node) (elements : List Element) : Prop where
  /-- Every reference is given by a node of its own, and none of these nodes is above another. -/
  origins : ∃ origins : List Origin,
    origins.map (Origin.reference file) = elements.flatMap (Element.references file) ∧
    (∀ o ∈ origins, o.element ∈ elements ∧ o.In file root) ∧
    origins.Pairwise fun a b => Position.Apart a.place b.place
  /-- References carry the names of their element, have a text, and lie inside the element. -/
  outgoing : ∀ element ∈ elements, ∀ reference ∈ element.references file,
    reference.origin = some element.id ∧ reference.scope = element.qualifiedName ∧
      reference.text ≠ "" ∧ reference.location.Within element.item.location
  /-- Modules and macros make no references. -/
  silent : ∀ element ∈ elements, ¬Speaks element.kind → element.references file = []

/-- The node that gives a reference lies inside the node of the element. -/
theorem Origin.In.within {o : Origin} (h : o.In file root)
    (hspans : root.everywhere Node.holdsChildren = true) :
    (o.reference file).location.Within o.element.item.location := by
  obtain ⟨node, hat, hlabel⟩ := h.given
  have hsite := h.declared.at?_eq
  rw [Origin.place, Node.at?_append, hsite, Option.bind_some] at hat
  have hspan := Node.span_at? (Node.everywhere_at? hspans hsite) hat
  have hlocation : o.element.item.location =
      Location.of file.source file.path o.site.node.label :=
    congrArg (fun summary => summary.2.2.2) h.summary_eq
  rw [hlocation, ← show _ = (o.reference file).location from
    congrArg (Location.of file.source file.path) hlabel]
  exact Location.within_of_span hspan.1 hspan.2

/-- The references of the elements of a file obey the laws, if children lie inside the spans of
their nodes. -/
theorem elementsOf_referenceLaws (h : elementsOf file root = .ok elements)
    (hspans : root.everywhere Node.holdsChildren = true) : ReferenceLaws file root elements := by
  obtain ⟨sites, hordered, hdeclared, hread⟩ := elementsOf_readAt h
  constructor
  case origins =>
    obtain ⟨origins, hreferences, hin, hapart⟩ := exists_origins hread hordered hdeclared
    exact ⟨origins, hreferences, fun o ho => ⟨(hin o ho).1, (hin o ho).2.2⟩, hapart⟩
  case outgoing =>
    intro element helement reference hreference
    obtain ⟨site, hsite, hreadAt⟩ := Outcome.exists_partner hread element helement
    obtain ⟨origins, hreferences, hin, -⟩ :=
      exists_origins_of_readAt (hdeclared site hsite) hreadAt
    rw [← hreferences] at hreference
    obtain ⟨o, ho, rfl⟩ := List.mem_map.mp hreference
    obtain ⟨rfl, -, hholds⟩ := hin o ho
    obtain ⟨generics, hsiteRead⟩ := hholds.read
    exact ⟨rfl, rfl, (Usage.of_ofSite hsiteRead).2, hholds.within hspans⟩
  case silent =>
    intro element helement hsilent
    obtain ⟨site, -, hreadAt⟩ := Outcome.exists_partner hread element helement
    have hkind : element.kind = site.2.kind := congrArg Prod.fst hreadAt.summary_eq
    rw [hkind] at hsilent
    obtain ⟨around, husages⟩ := hreadAt.usages_eq
    rcases Usage.taken_of_ofItem husages with ⟨-, hnil⟩ | ⟨hspeaks, -⟩
    · rw [Element.references_eq, hnil, List.map_nil]
    · exact (hsilent hspeaks).elim

/-! ## The references of an element in the model of its file -/

namespace FileModel

/-- The references of a file that an element makes. -/
def referencesOf (model : FileModel) (element : Element) : List Reference :=
  model.references.filter fun reference => reference.origin = some element.id

/-- Among the references of elements with different identifiers, those of one element are found by
its identifier. -/
theorem filter_origin_references (file : SourceFile) {elements : List Element} {e : Element}
    (hnodup : (elements.map Element.id).Nodup) (he : e ∈ elements) :
    (elements.flatMap (Element.references file)).filter
      (fun reference => reference.origin = some e.id) = e.references file := by
  have hown : ∀ other : Element, other.id ≠ e.id →
      (other.references file).filter (fun reference => reference.origin = some e.id) = [] := by
    intro other hne
    rw [List.filter_eq_nil_iff]
    intro reference hreference
    obtain ⟨usage, -, rfl⟩ := List.mem_map.mp hreference
    simpa using hne
  have hself : (e.references file).filter (fun reference => reference.origin = some e.id) =
      e.references file := by
    rw [List.filter_eq_self]
    intro reference hreference
    obtain ⟨usage, -, rfl⟩ := List.mem_map.mp hreference
    simp
  obtain ⟨before, after, rfl⟩ := List.append_of_mem he
  rw [List.map_append, List.map_cons, List.nodup_middle, ← List.map_append, List.nodup_cons]
    at hnodup
  have hothers : ∀ others, others ⊆ before ++ after → (others.flatMap fun other =>
      (other.references file).filter fun reference => reference.origin = some e.id) = [] := by
    intro others hsub
    refine List.flatMap_eq_nil_iff.mpr fun other hother => hown other ?_
    intro hid
    exact hnodup.1 (hid ▸ List.mem_map_of_mem (hsub hother))
  rw [List.filter_flatMap, List.flatMap_append, List.flatMap_cons, hself,
    hothers before (List.subset_append_left _ _), hothers after (List.subset_append_right _ _),
    List.nil_append, List.append_nil]

/-- In the model of a file, an element makes the references that are read at its site.  Only their
targets depend on the rest of the file. -/
theorem referencesOf_of_build {path : String} {text : String} {model : FileModel}
    (h : build path file text root = .ok model) :
    elementsOf file root = .ok model.elements ∧ ∃ target : Reference → Option String,
      ∀ e ∈ model.elements, model.referencesOf e =
        (e.references file).map fun reference => { reference with target := target reference } := by
  obtain ⟨unsettled, hunresolved, rfl⟩ := Outcome.map_eq_ok_iff.mp h
  have hparts : elementsOf file root = .ok unsettled.elements ∧
      ∃ declarations : List UseDeclaration, unsettled.references =
        declarations.flatMap (importReferences file) ++
          unsettled.elements.flatMap (Element.references file) := by
    simp only [unresolved, Outcome.bind_eq_ok_iff, Outcome.pure_eq_ok_iff,
      Outcome.mapError_eq_ok_iff] at hunresolved
    obtain ⟨elements, helements, declarations, -, modulePath, -, rfl⟩ := hunresolved
    exact ⟨helements, declarations, rfl⟩
  obtain ⟨helements, declarations, hreferences⟩ := hparts
  refine ⟨helements, (Resolver.ofFiles [unsettled]).resolve unsettled, ?_⟩
  intro e he
  have hnodup : (unsettled.elements.map Element.id).Nodup := by
    obtain ⟨declarations, -, hplaced⟩ := Outcome.map_eq_ok_iff.mp helements
    exact hplaced ▸ Declaration.nodup_ids _ _
  have himports : (declarations.flatMap (importReferences file)).filter
      (fun reference => reference.origin = some e.id) = [] := by
    rw [List.filter_eq_nil_iff]
    intro reference hreference
    obtain ⟨declaration, -, hreference⟩ := List.mem_flatMap.mp hreference
    obtain ⟨record, -, hreference⟩ := List.mem_flatMap.mp hreference
    obtain ⟨name, -, rfl⟩ := List.mem_map.mp hreference
    simp
  -- The targets that are settled do not change what a reference comes from.
  rw [referencesOf, resolveAlone, Resolver.resolveFile, List.filter_map]
  congr 1
  show unsettled.references.filter (fun reference => reference.origin = some e.id) = _
  rw [hreferences, List.filter_append, himports, List.nil_append,
    filter_origin_references file hnodup he]

end FileModel

/-! ## An impl block with a method that uses names in every way -/

namespace Sample

/-- A method with types, calls of functions and methods, and a macro. -/
def busyText : String :=
  "impl T for S\x7bfn d(x:A)->B\x7bx.m::<C>(e(f()));g!(h)\x7d\x7d"

/-- The call of a method with a type argument and an argument with calls. -/
def busyCall : Node :=
  node "call_expression" "" 26 42
    [node "generic_function" "function" 26 34
      [node "field_expression" "function" 26 29
        [node "identifier" "value" 26 27 [], node "field_identifier" "field" 28 29 []],
      node "type_arguments" "type_arguments" 31 34 [node "type_identifier" "" 32 33 []]],
    node "arguments" "arguments" 34 42
      [node "call_expression" "" 35 41
        [node "identifier" "function" 35 36 [],
          node "arguments" "arguments" 36 41
            [node "call_expression" "" 37 40
              [node "identifier" "function" 37 38 [],
                node "arguments" "arguments" 38 40 []]]]]]

/-- The tree of that text. -/
def busyRoot : Node :=
  node "source_file" "" 0 50
    [node "impl_item" "" 0 50
      [node "type_identifier" "trait" 5 6 [], node "type_identifier" "type" 11 12 [],
        node "declaration_list" "body" 12 50
          [node "function_item" "" 13 49
            [node "identifier" "name" 16 17 [],
              node "parameters" "parameters" 17 22
                [node "parameter" "" 18 21
                  [node "identifier" "pattern" 18 19 [], node "type_identifier" "type" 20 21 []]],
              node "type_identifier" "return_type" 24 25 [],
              node "block" "body" 25 49
                [busyCall,
                  node "macro_invocation" "" 43 48
                    [node "identifier" "macro" 43 44 [], node "token_tree" "" 45 48 []]]]]]]

/-- The text as a file. -/
def busyFile : SourceFile :=
  ⟨busyText.toUTF8.toList, "src/a.rs", ⟨true, true⟩⟩

end Sample

/-- The impl block names its trait and its type, and the method all the rest. -/
theorem elementsOf_referenceLaws_sample :
    ∃ elements, elementsOf Sample.busyFile Sample.busyRoot = .ok elements ∧
      Sample.busyRoot.everywhere Node.holdsChildren = true ∧
      elements.map (fun element => (element.references Sample.busyFile).map Reference.text) =
        [["T", "S"], ["A", "B", "C", "m", "e", "f", "g"]] ∧
      ReferenceLaws Sample.busyFile Sample.busyRoot elements := by
  have htexts : (elementsOf Sample.busyFile Sample.busyRoot).map (fun elements =>
      elements.map fun element => (element.references Sample.busyFile).map Reference.text) =
      .ok [["T", "S"], ["A", "B", "C", "m", "e", "f", "g"]] := by
    decide +kernel
  have hspans : Sample.busyRoot.everywhere Node.holdsChildren = true := by
    decide +kernel
  obtain ⟨elements, h, htexts⟩ := Outcome.map_eq_ok_iff.mp htexts
  exact ⟨elements, h, hspans, htexts, elementsOf_referenceLaws h hspans⟩

end CrateAtlas
