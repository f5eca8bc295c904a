import CrateAtlas.Proofs.Documentation
import CrateAtlas.Proofs.Forest

/-!
# Reading a file with and without its private items

Leaving private items out is a restriction of what is read: an element stays exactly when neither
it nor anything above it is private, and the elements that stay are numbered anew.  Leaving the
documentation out changes the documentation of elements and nothing else.

Main results:

- Theorem {lit}`Traversal.prunedAll`: the reader without private items finds the declarations of
  the other one, cut at the private ones.
- Theorem {lit}`Split.visible_cons`: which elements of a forest stay, in terms of its first tree.
- Theorem {lit}`exists_twins`: the elements that stay, beside the elements of the cut forest.
- Theorem {lit}`elementsOf_restriction`: both statements about the elements of a file and the
  references they make.
-/

namespace CrateAtlas

open Element

/-! ## What stays -/

/-- An element is hidden when it is private or lies below a private one. -/
def Element.Hidden (elements : List Element) (e : Element) : Prop :=
  e.item.visibility = .priv ∨ ∃ p, Descends elements p e ∧ p.item.visibility = .priv

open Classical in
/-- The elements that are not hidden, in their order. -/
noncomputable def visible (elements : List Element) : List Element :=
  elements.filter fun e => ¬Hidden elements e

/-- The identifier that an element gets when the elements that stay are numbered anew, given the
identifier that it had; elements that do not stay have none. -/
def renumberedId (filePath : String) (kept : List Element) (id : String) : Option String :=
  (kept.zipIdx.find? fun entry => entry.1.id == id).map fun entry =>
    ElementId.render ⟨filePath, entry.1.kind.label, entry.1.qualifiedName, entry.2 + 1⟩

/-- The elements that stay with consecutive ordinals; parents and children go by the new
identifiers, and all else is as it was. -/
def renumber (filePath : String) (kept : List Element) : List Element :=
  kept.zipIdx.map fun entry =>
    { item := entry.1.item
      placement :=
        { id := ElementId.render
            ⟨filePath, entry.1.kind.label, entry.1.qualifiedName, entry.2 + 1⟩
          qualifiedName := entry.1.placement.qualifiedName
          modulePath := entry.1.placement.modulePath
          parentId := entry.1.placement.parentId.bind (renumberedId filePath kept)
          nestingLevel := entry.1.placement.nestingLevel }
      childrenIds := entry.1.childrenIds.filterMap (renumberedId filePath kept) }

/-- A reference made by an element that stays, under its new identifier. -/
def renumberOrigin (filePath : String) (kept : List Element) (reference : Reference) :
    Option Reference :=
  (reference.origin.bind (renumberedId filePath kept)).map fun id =>
    { reference with origin := some id }

namespace Forest

variable {owner : Option String} {level : Nat} {below rest : List Element} {root p e : Element}

theorem Split.hidden_root_iff (h : Split owner level root below rest) :
    Hidden (root :: (below ++ rest)) root ↔ root.item.visibility = .priv := by
  constructor
  · rintro (hpriv | ⟨p, hdesc, -⟩)
    · exact hpriv
    · have hmem : root ∈ below ++ rest := by
        rcases h.descends_iff.mp hdesc with ⟨-, he⟩ | hdesc | hdesc
        · exact List.mem_append_left _ he
        · exact List.mem_append_left _ hdesc.mem_right
        · exact List.mem_append_right _ hdesc.mem_right
      exact (h.distinct.root_notMem hmem).elim
  · exact .inl

theorem Split.hidden_below_iff (h : Split owner level root below rest) (he : e ∈ below) :
    Hidden (root :: (below ++ rest)) e ↔
      root.item.visibility = .priv ∨ Hidden below e := by
  constructor
  · rintro (hpriv | ⟨p, hdesc, hpriv⟩)
    · exact .inr (.inl hpriv)
    · rcases h.descends_iff.mp hdesc with ⟨rfl, -⟩ | hdesc | hdesc
      · exact .inl hpriv
      · exact .inr (.inr ⟨p, hdesc, hpriv⟩)
      · exact (h.distinct.disjoint he hdesc.mem_right).elim
  · rintro (hpriv | hpriv | ⟨p, hdesc, hpriv⟩)
    · exact .inr ⟨root, h.descends_iff.mpr (.inl ⟨rfl, he⟩), hpriv⟩
    · exact .inl hpriv
    · exact .inr ⟨p, h.descends_iff.mpr (.inr (.inl hdesc)), hpriv⟩

theorem Split.hidden_rest_iff (h : Split owner level root below rest) (he : e ∈ rest) :
    Hidden (root :: (below ++ rest)) e ↔ Hidden rest e := by
  constructor
  · rintro (hpriv | ⟨p, hdesc, hpriv⟩)
    · exact .inl hpriv
    · rcases h.descends_iff.mp hdesc with ⟨-, hmem⟩ | hdesc | hdesc
      · exact (h.distinct.disjoint hmem he).elim
      · exact (h.distinct.disjoint hdesc.mem_right he).elim
      · exact .inr ⟨p, hdesc, hpriv⟩
  · rintro (hpriv | ⟨p, hdesc, hpriv⟩)
    · exact .inl hpriv
    · exact .inr ⟨p, h.descends_iff.mpr (.inr (.inr hdesc)), hpriv⟩

/-- A private root takes everything below it along; otherwise each part keeps what stays in it. -/
theorem Split.visible_cons (h : Split owner level root below rest) :
    visible (root :: (below ++ rest)) =
      (if root.item.visibility = .priv then [] else root :: visible below) ++ visible rest := by
  classical
  have hlater : rest.filter (fun e => ¬Hidden (root :: (below ++ rest)) e) = visible rest := by
    apply List.filter_congr
    intro e he
    rw [h.hidden_rest_iff he]
  unfold visible at hlater ⊢
  rw [List.filter_cons, List.filter_append, hlater, h.hidden_root_iff]
  by_cases hpriv : root.item.visibility = .priv
  · have hnone : below.filter (fun e => ¬Hidden (root :: (below ++ rest)) e) = [] := by
      apply List.filter_eq_nil_iff.mpr
      intro e he
      simp [h.hidden_below_iff he, hpriv]
    rw [hnone, if_pos hpriv, if_neg (by simp [hpriv])]
  · have hinner : below.filter (fun e => ¬Hidden (root :: (below ++ rest)) e) =
        below.filter (fun e => ¬Hidden below e) := by
      apply List.filter_congr
      intro e he
      rw [h.hidden_below_iff he]
      simp [hpriv]
    rw [hinner, if_neg hpriv, if_pos (by simp [hpriv])]
    rfl

end Forest

namespace Declaration

/-! ## Cutting declarations at the private ones -/

mutual

/-- A declaration without the private ones in it: none if it is private itself. -/
def pruned : Declaration → List Declaration
  | mk item segment members =>
      if item.visibility = .priv then [] else [mk item segment (prunedAll members)]

/-- The declarations without the private ones and all that is below those. -/
def prunedAll : List Declaration → List Declaration
  | [] => []
  | declaration :: rest => pruned declaration ++ prunedAll rest

end

theorem prunedAll_nil : prunedAll [] = [] := by
  rw [prunedAll]

theorem prunedAll_cons_of_priv {item : Item} (segment : String) (members rest : List Declaration)
    (h : item.visibility = .priv) :
    prunedAll (mk item segment members :: rest) = prunedAll rest := by
  rw [prunedAll, pruned, if_pos h, List.nil_append]

theorem prunedAll_cons_of_ne {item : Item} (segment : String) (members rest : List Declaration)
    (h : item.visibility ≠ .priv) :
    prunedAll (mk item segment members :: rest) =
      mk item segment (prunedAll members) :: prunedAll rest := by
  rw [prunedAll, pruned, if_neg h]
  rfl

theorem prunedAll_append (xs ys : List Declaration) :
    prunedAll (xs ++ ys) = prunedAll xs ++ prunedAll ys := by
  induction xs with
  | nil => rw [prunedAll_nil, List.nil_append, List.nil_append]
  | cons declaration rest ih =>
      rw [List.cons_append, prunedAll, prunedAll, ih, List.append_assoc]

variable {source : Source} {path : String} {docs : Bool} {around : List Node}
  {forced : Option Visibility} {before nodes : List Node} {node : Node} {kind : Kind}
  {named : ItemName} {notes : List Docs.Note} {visibility : Visibility} {item : Item}
  {declarations : List Declaration}

/-- A node at which nothing is declared stays so when private items are left out. -/
theorem Passes.withoutPrivate (h : Passes ⟨source, path, ⟨docs, true⟩⟩ forced before node) :
    Passes ⟨source, path, ⟨docs, false⟩⟩ forced before node := by
  cases h with
  | token h => exact .token h
  | other hforeign hkind => exact .other hforeign hkind
  | bare hforeign hbody => exact .bare hforeign hbody
  | unnamed kind hkind hname => exact .unnamed kind hkind hname
  | hidden _ _ _ _ _ _ _ hout => exact absurd hout (by simp)

/-- An item that is not private is taken whether or not private items are left out. -/
theorem Takes.withoutPrivate
    (h : Takes ⟨source, path, ⟨docs, true⟩⟩ around forced before node kind named notes
      visibility item) (hshown : item.visibility ≠ .priv) :
    Takes ⟨source, path, ⟨docs, false⟩⟩ around forced before node kind named notes
      visibility item := by
  refine ⟨h.isNamed, h.kind_eq, h.name_eq, h.notes_eq, h.visibility_eq, ?_, h.read_eq⟩
  rintro ⟨hpriv, -⟩
  exact hshown (h.kind_item.2.2.1.trans hpriv)

/-- A private item is passed over when private items are left out. -/
theorem Takes.passes
    (h : Takes ⟨source, path, ⟨docs, true⟩⟩ around forced before node kind named notes
      visibility item) (hpriv : item.visibility = .priv) :
    Passes ⟨source, path, ⟨docs, false⟩⟩ forced before node := by
  have hvisibility : visibility = .priv := h.kind_item.2.2.1.symm.trans hpriv
  exact .hidden kind named notes h.kind_eq h.name_eq h.notes_eq
    (hvisibility ▸ h.visibility_eq) rfl

/-- Without its private items a file is read as the declarations that it has with them, cut at
the private ones. -/
theorem Traversal.prunedAll
    (h : Traversal ⟨source, path, ⟨docs, true⟩⟩ around forced before nodes declarations) :
    Traversal ⟨source, path, ⟨docs, false⟩⟩ around forced before nodes
      (Declaration.prunedAll declarations) := by
  induction h with
  | nil =>
      rw [prunedAll_nil]
      exact .nil
  | pass hpasses _ ih => exact .pass hpasses.withoutPrivate ih
  | block hnamed hforeign hbody _ _ ihInner ihLater =>
      rw [prunedAll_append]
      exact .block hnamed hforeign hbody ihInner ihLater
  | @leaf around forced before node rest kind named notes visibility item later htakes hbody _ ih =>
      by_cases hpriv : item.visibility = .priv
      · rw [prunedAll_cons_of_priv _ _ _ hpriv]
        exact .pass (htakes.passes hpriv) ih
      · rw [prunedAll_cons_of_ne _ _ _ hpriv, prunedAll_nil]
        exact .leaf (htakes.withoutPrivate hpriv) hbody ih
  | @scope around forced before node rest kind named notes visibility item body members later
      htakes hscope hbody _ _ ihMembers ihLater =>
      by_cases hpriv : item.visibility = .priv
      · rw [prunedAll_cons_of_priv _ _ _ hpriv]
        exact .pass (htakes.passes hpriv) ihLater
      · rw [prunedAll_cons_of_ne _ _ _ hpriv]
        exact .scope (htakes.withoutPrivate hpriv) hscope hbody ihMembers ihLater

end Declaration

/-! ## The elements that stay beside the elements of the cut forest -/

/-- Two elements that differ in their identifiers and links only. -/
structure Twin (old new : Element) : Prop where
  item_eq : new.item = old.item
  qualifiedName_eq : new.placement.qualifiedName = old.placement.qualifiedName
  modulePath_eq : new.placement.modulePath = old.placement.modulePath
  nestingLevel_eq : new.placement.nestingLevel = old.placement.nestingLevel

/-- Pairs of twins below two owners, whose parents are the owners or paired as well. -/
structure Twins (owner owner' : Option String) (pairs : List (Element × Element)) : Prop where
  twin : ∀ q ∈ pairs, Twin q.1 q.2
  parents : ∀ q ∈ pairs,
    (q.1.placement.parentId = owner ∧ q.2.placement.parentId = owner') ∨
    ∃ p ∈ pairs, q.1.placement.parentId = some p.1.id ∧ q.2.placement.parentId = some p.2.id

namespace Twins

variable {owner owner' : Option String} {below rest : List (Element × Element)}
  {root root' : Element}

theorem nil : Twins owner owner' [] :=
  ⟨by simp, by simp⟩

/-- A pair of roots with the pairs below them, before the pairs of the other trees. -/
theorem cons (htwin : Twin root root') (howner : root.placement.parentId = owner)
    (howner' : root'.placement.parentId = owner')
    (hbelow : Twins (some root.id) (some root'.id) below) (hrest : Twins owner owner' rest) :
    Twins owner owner' ((root, root') :: (below ++ rest)) := by
  constructor
  · intro q hq
    rcases List.mem_cons.mp hq with rfl | hq
    · exact htwin
    · rcases List.mem_append.mp hq with hq | hq
      · exact hbelow.twin q hq
      · exact hrest.twin q hq
  · intro q hq
    rcases List.mem_cons.mp hq with rfl | hq
    · exact .inl ⟨howner, howner'⟩
    · rcases List.mem_append.mp hq with hq | hq
      · rcases hbelow.parents q hq with htop | ⟨p, hp, hlinks⟩
        · exact .inr ⟨(root, root'), by simp, htop⟩
        · exact .inr ⟨p, by simp [hp], hlinks⟩
      · rcases hrest.parents q hq with htop | ⟨p, hp, hlinks⟩
        · exact .inl htop
        · exact .inr ⟨p, by simp [hp], hlinks⟩

end Twins

namespace Declaration

/-- With scopes of the same segments open, the elements that stay are the twins of those placed
after cutting, one after the other. -/
theorem exists_twins {declarations : List Declaration} (hscoped : Scoped declarations)
    (children children' : String → List String) :
    ∀ h h' : Hierarchy, h.frames.map Frame.segment = h'.frames.map Frame.segment →
      Forest.Distinct h.parent? ((placeAll h declarations).1.map (elementOf children)) →
      ∃ pairs, pairs.map Prod.fst =
          visible ((placeAll h declarations).1.map (elementOf children)) ∧
        pairs.map Prod.snd =
          (placeAll h' (prunedAll declarations)).1.map (elementOf children') ∧
        Twins h.parent? h'.parent? pairs := by
  induction hscoped with
  | nil =>
      intro h h' _ _
      rw [prunedAll_nil, placeAll, placeAll]
      exact ⟨[], rfl, rfl, .nil⟩
  | @cons item segment members rest hscope hmembers hrest ihMembers ihRest =>
      intro h h' hsegments hdistinct
      let inside := (h.place item.kind item.name).enter segment (h.next item.kind item.name).id
      have hframes : (placeAll inside members).2.close.frames = h.frames :=
        frames_close_placeAll h _ _ _ _ members
      have hbelowForest : Forest (some (elementOf children (item, h.next item.kind item.name)).id)
          (h.depth + 1) ((placeAll inside members).1.map (elementOf children)) :=
        placeAll_forest hmembers children inside
      have hrestForest := placeAll_forest hrest children (placeAll inside members).2.close
      rw [Hierarchy.parent?_congr hframes, Hierarchy.depth_congr hframes] at hrestForest
      rw [placeAll_cons, List.map_cons, List.map_append] at hdistinct ⊢
      have hsplit : Forest.Split h.parent? h.depth _ _ _ :=
        ⟨rfl, hbelowForest, hrestForest, hdistinct⟩
      rw [hsplit.visible_cons, elementOf_item]
      by_cases hpriv : item.visibility = .priv
      · rw [if_pos hpriv, prunedAll_cons_of_priv _ _ _ hpriv]
        obtain ⟨pairs, hold, hnew, htwins⟩ := ihRest (placeAll inside members).2.close h'
          (by rw [hframes, hsegments]) (Hierarchy.parent?_congr hframes ▸ hdistinct.later)
        exact ⟨pairs, hold, hnew, Hierarchy.parent?_congr hframes ▸ htwins⟩
      · rw [if_neg hpriv, prunedAll_cons_of_ne _ _ _ hpriv]
        let inside' :=
          (h'.place item.kind item.name).enter segment (h'.next item.kind item.name).id
        have hframes' : (placeAll inside' (prunedAll members)).2.close.frames = h'.frames :=
          frames_close_placeAll h' _ _ _ _ _
        obtain ⟨below, hold, hnew, hbelow⟩ := ihMembers inside inside'
          (congrArg (segment :: ·) hsegments) hdistinct.inner
        obtain ⟨later, holdRest, hnewRest, hlater⟩ := ihRest (placeAll inside members).2.close
          (placeAll inside' (prunedAll members)).2.close
          (by rw [hframes, hframes', hsegments])
          (Hierarchy.parent?_congr hframes ▸ hdistinct.later)
        rw [Hierarchy.parent?_congr hframes, Hierarchy.parent?_congr hframes'] at hlater
        refine ⟨(elementOf children (item, h.next item.kind item.name),
          elementOf children' (item, h'.next item.kind item.name)) :: (below ++ later), ?_, ?_, ?_⟩
        · rw [List.map_cons, List.map_append, hold, holdRest]
          rfl
        · rw [placeAll_cons, List.map_cons, List.map_cons, List.map_append, List.map_append,
            hnew, hnewRest]
        · have hpath : h'.modulePath = h.modulePath := by
            unfold Hierarchy.modulePath
            rw [List.map_reverse, List.map_reverse, hsegments]
          have hdepth : h'.depth = h.depth := by
            simpa [Hierarchy.depth] using (congrArg List.length hsegments).symm
          refine .cons ⟨rfl, ?_, hpath, hdepth⟩ rfl rfl hbelow hlater
          show ScopePath.join [h'.modulePath, _] = ScopePath.join [h.modulePath, _]
          rw [hpath]

end Declaration

/-! ## Numbering anew -/

/-- What hidden elements contribute nothing to is made of the elements that stay. -/
theorem flatMap_visible {α : Type} {elements : List Element} {f : Element → List α}
    (h : ∀ e ∈ elements, Hidden elements e → f e = []) :
    elements.flatMap f = (visible elements).flatMap f := by
  classical
  have hfilter : ∀ xs : List Element, (∀ e ∈ xs, Hidden elements e → f e = []) →
      xs.flatMap f = (xs.filter fun e => ¬Hidden elements e).flatMap f := by
    intro xs
    induction xs with
    | nil => exact fun _ => rfl
    | cons e rest ih =>
        intro hxs
        have hrest := ih fun e he => hxs e (List.mem_cons_of_mem _ he)
        rw [List.flatMap_cons, hrest, List.filter_cons]
        by_cases hhidden : Hidden elements e
        · rw [hxs e (by simp) hhidden, if_neg (by simp [hhidden]), List.nil_append]
        · rw [if_pos (by simp [hhidden]), List.flatMap_cons]
  exact hfilter elements h

theorem visible_sublist (elements : List Element) : (visible elements).Sublist elements := by
  unfold visible
  exact List.filter_sublist

/-- The new identifier of an element that stays carries its position among those that stay. -/
theorem renumberedId_of_getElem? {filePath : String} {kept : List Element} {i : Nat} {e : Element}
    (hnodup : (kept.map Element.id).Nodup) (h : kept[i]? = some e) :
    renumberedId filePath kept e.id =
      some (ElementId.render ⟨filePath, e.kind.label, e.qualifiedName, i + 1⟩) := by
  obtain ⟨hi, rfl⟩ := List.getElem?_eq_some_iff.mp h
  have hfind : (kept.zipIdx.find? fun entry => entry.1.id == kept[i].id) =
      some (kept[i], i) := by
    rw [List.find?_eq_some_iff_getElem]
    refine ⟨by simp, i, by simpa using hi, by simp, ?_⟩
    intro j hj
    have hne : ¬kept[j].id = kept[i].id := by
      rw [List.Nodup, List.pairwise_map, List.pairwise_iff_getElem] at hnodup
      exact hnodup j i (by omega) hi hj
    simpa using hne
  rw [renumberedId, hfind, Option.map_some]

/-- No element that does not stay gets a new identifier. -/
theorem renumberedId_eq_none {filePath : String} {kept : List Element} {id : String}
    (h : ∀ e ∈ kept, e.id ≠ id) : renumberedId filePath kept id = none := by
  rw [renumberedId, Option.map_eq_none_iff, List.find?_eq_none]
  rintro ⟨e, i⟩ hentry
  have he : e ∈ kept := (List.mem_zipIdx' hentry).2 ▸ List.getElem_mem _
  simpa using h e he

/-- Translating the identifiers of the elements with some parent, one element after the other. -/
theorem filterMap_idsBelow (elements : List Element) (owner : String)
    (f : String → Option String) :
    ((elements.filter fun e => e.placement.parentId = some owner).map Element.id).filterMap f =
      elements.flatMap fun e =>
        if e.placement.parentId = some owner then (f e.id).toList else [] := by
  rw [List.filterMap_map, List.filterMap_filter, List.filterMap_eq_flatMap_toList]
  apply List.flatMap_congr
  intro e _
  by_cases howner : e.placement.parentId = some owner
  · simp [howner]
  · simp [howner]

/-- The references that an element makes under another identifier. -/
def referencesAs (file : SourceFile) (e : Element) (id : String) : List Reference :=
  e.item.usages.map fun usage =>
    { origin := some id
      type := usage.type
      text := usage.text
      location := Location.of file.source file.path usage.label
      scope := e.qualifiedName
      target := none }

/-- The references of an element go over to its new identifier, if it gets one. -/
theorem filterMap_renumberOrigin (filePath : String) (kept : List Element) (file : SourceFile)
    (e : Element) :
    (Element.references file e).filterMap (renumberOrigin filePath kept) =
      (renumberedId filePath kept e.id).toList.flatMap (referencesAs file e) := by
  rw [Element.references, List.filterMap_map]
  cases hid : renumberedId filePath kept e.id with
  | none =>
      apply List.filterMap_eq_nil_iff.mpr
      intro usage _
      simp [renumberOrigin, hid]
  | some id =>
      rw [Option.toList_some, List.flatMap_singleton, referencesAs, ← List.filterMap_eq_map]
      apply List.filterMap_congr
      intro usage _
      simp [renumberOrigin, hid]

/-- The elements of a file before and after its declarations are cut, the ones that stay paired
with the ones that come of them. -/
structure Restriction (filePath : String) (before after : List Element)
    (pairs : List (Element × Element)) : Prop where
  old_eq : pairs.map Prod.fst = visible before
  new_eq : pairs.map Prod.snd = after
  old_laws : ForestLaws filePath before
  new_laws : ForestLaws filePath after
  twins : Twins none none pairs

namespace Restriction

variable {filePath : String} {before after : List Element} {pairs : List (Element × Element)}

/-- The identifier of the second twin is made of the first one and the position of the pair. -/
theorem id_eq_of_getElem? (h : Restriction filePath before after pairs) {i : Nat}
    {q : Element × Element} (hi : pairs[i]? = some q) :
    q.2.id = ElementId.render ⟨filePath, q.1.kind.label, q.1.qualifiedName, i + 1⟩ := by
  have hnew : after[i]? = some q.2 := by
    rw [← h.new_eq, List.getElem?_map, hi, Option.map_some]
  have hid := h.new_laws.id_eq i q.2 hnew
  have htwin := h.twins.twin q (List.mem_of_getElem? hi)
  rw [ElementId.create_succ, Except.ok.injEq] at hid
  rw [← hid, Element.kind, Element.kind, htwin.item_eq, Element.qualifiedName,
    Element.qualifiedName, htwin.qualifiedName_eq]

/-- The identifier of the second twin is the new identifier of the first. -/
theorem renumberedId_eq (h : Restriction filePath before after pairs) :
    ∀ q ∈ pairs, renumberedId filePath (visible before) q.1.id = some q.2.id := by
  intro q hq
  obtain ⟨i, hi⟩ := List.mem_iff_getElem?.mp hq
  have hold : (visible before)[i]? = some q.1 := by
    rw [← h.old_eq, List.getElem?_map, hi, Option.map_some]
  have hnodup := h.old_laws.ids_nodup.sublist ((visible_sublist before).map Element.id)
  rw [renumberedId_of_getElem? hnodup hold, h.id_eq_of_getElem? hi]

/-- Twins have twins as parents, or none. -/
theorem parent_iff (h : Restriction filePath before after pairs) {p q : Element × Element}
    (hp : p ∈ pairs) (hq : q ∈ pairs) :
    q.1.placement.parentId = some p.1.id ↔ q.2.placement.parentId = some p.2.id := by
  rcases h.twins.parents q hq with ⟨hone, htwo⟩ | ⟨r, hr, hone, htwo⟩
  · simp [hone, htwo]
  · rw [hone, htwo, Option.some.injEq, Option.some.injEq]
    constructor
    · intro hid
      have hnewId := h.renumberedId_eq r hr
      rw [hid, h.renumberedId_eq p hp, Option.some.injEq] at hnewId
      exact hnewId.symm
    · intro hid
      have hmem : ∀ s ∈ pairs, s.2 ∈ after := fun s hs => h.new_eq ▸ List.mem_map_of_mem hs
      have heq : r.2 = p.2 :=
        List.inj_on_of_nodup_map h.new_laws.ids_nodup (hmem r hr) (hmem p hp) hid
      have hnodup : (pairs.map Prod.snd).Nodup := h.new_eq ▸ h.new_laws.ids_nodup.of_map
      rw [List.inj_on_of_nodup_map hnodup hr hp heq]

/-- A hidden element gets no new identifier. -/
theorem renumberedId_of_hidden (h : Restriction filePath before after pairs) {e : Element}
    (he : e ∈ before) (hhidden : Hidden before e) :
    renumberedId filePath (visible before) e.id = none := by
  classical
  apply renumberedId_eq_none
  intro kept hkept hid
  have hmem : kept ∈ before := (visible_sublist before).subset hkept
  have heq : kept = e := List.inj_on_of_nodup_map h.old_laws.ids_nodup hmem he hid
  rw [heq, visible, List.mem_filter] at hkept
  simp [hhidden] at hkept

/-- The children of the second twin are the children of the first that stay. -/
theorem childrenIds_eq (h : Restriction filePath before after pairs) {p : Element × Element}
    (hp : p ∈ pairs) :
    p.1.childrenIds.filterMap (renumberedId filePath (visible before)) = p.2.childrenIds := by
  have hold : p.1 ∈ before :=
    (visible_sublist before).subset (h.old_eq ▸ List.mem_map_of_mem hp)
  have hnew : p.2 ∈ after := h.new_eq ▸ List.mem_map_of_mem hp
  rw [(h.old_laws.children p.1 hold).2, (h.new_laws.children p.2 hnew).2, filterMap_idsBelow,
    ← List.filterMap_some (l := List.map _ _), filterMap_idsBelow, flatMap_visible]
  · have hnewId := h.renumberedId_eq
    rw [← h.new_eq, List.flatMap_map]
    generalize renumberedId filePath (visible before) = f at hnewId ⊢
    rw [← h.old_eq, List.flatMap_map]
    apply List.flatMap_congr
    intro q hq
    rw [hnewId q hq]
    simp only [h.parent_iff hp hq]
  · intro e he hhidden
    simp [h.renumberedId_of_hidden he hhidden]

/-- The parent of the second twin is the parent of the first, which stays as well. -/
theorem parentId_eq (h : Restriction filePath before after pairs) {q : Element × Element}
    (hq : q ∈ pairs) :
    q.1.placement.parentId.bind (renumberedId filePath (visible before)) =
      q.2.placement.parentId := by
  rcases h.twins.parents q hq with ⟨hone, htwo⟩ | ⟨r, hr, hone, htwo⟩
  · rw [hone, htwo, Option.bind_none]
  · rw [hone, htwo, Option.bind_some, h.renumberedId_eq r hr]

/-- The elements of the cut forest are those that stay, numbered anew. -/
theorem eq_renumber (h : Restriction filePath before after pairs) :
    after = renumber filePath (visible before) := by
  apply List.ext_getElem?
  intro i
  rw [renumber, List.getElem?_map, List.getElem?_zipIdx]
  have hold : (visible before)[i]? = pairs[i]?.map Prod.fst := by
    rw [← h.old_eq, List.getElem?_map]
  have hnew : after[i]? = pairs[i]?.map Prod.snd := by
    rw [← h.new_eq, List.getElem?_map]
  rw [hold, hnew]
  cases hi : pairs[i]? with
  | none => rfl
  | some q =>
      have hq : q ∈ pairs := List.mem_of_getElem? hi
      have htwin := h.twins.twin q hq
      have hid := h.id_eq_of_getElem? hi
      simp only [Option.map_some, Nat.zero_add, h.parentId_eq hq, h.childrenIds_eq hq, ← hid,
        ← htwin.item_eq, ← htwin.qualifiedName_eq, ← htwin.modulePath_eq,
        ← htwin.nestingLevel_eq]
      rfl

/-- An element that stays has a parent that stays, if it has one. -/
theorem parent_mem_visible (h : Restriction filePath before after pairs) {p e : Element}
    (he : e ∈ visible before) (hp : p ∈ before) (hparent : e.placement.parentId = some p.id) :
    p ∈ visible before := by
  rw [← h.old_eq] at he
  obtain ⟨q, hq, rfl⟩ := List.mem_map.mp he
  rcases h.twins.parents q hq with ⟨hone, -⟩ | ⟨r, hr, hone, -⟩
  · simp [hone] at hparent
  · have hmem : r.1 ∈ visible before := h.old_eq ▸ List.mem_map_of_mem hr
    have hid : r.1.id = p.id := Option.some.inj (hone.symm.trans hparent)
    rw [← List.inj_on_of_nodup_map h.old_laws.ids_nodup ((visible_sublist before).subset hmem)
      hp hid]
    exact hmem

/-- The references of the cut forest are those made by the elements that stay. -/
theorem references_eq (h : Restriction filePath before after pairs) (file : SourceFile) :
    after.flatMap (Element.references file) =
      (before.flatMap (Element.references file)).filterMap
        (renumberOrigin filePath (visible before)) := by
  have hnewId := h.renumberedId_eq
  have hstay : (before.flatMap fun e =>
        (renumberedId filePath (visible before) e.id).toList.flatMap (referencesAs file e)) =
      (visible before).flatMap fun e =>
        (renumberedId filePath (visible before) e.id).toList.flatMap (referencesAs file e) := by
    apply flatMap_visible
    intro e he hhidden
    rw [h.renumberedId_of_hidden he hhidden]
    rfl
  rw [List.filterMap_flatMap]
  simp only [filterMap_renumberOrigin, hstay]
  generalize renumberedId filePath (visible before) = f at hnewId ⊢
  rw [← h.old_eq, ← h.new_eq, List.flatMap_map, List.flatMap_map]
  apply List.flatMap_congr
  intro q hq
  have htwin := h.twins.twin q hq
  rw [hnewId q hq, Option.toList_some, List.flatMap_singleton, referencesAs, Element.references,
    htwin.item_eq, Element.qualifiedName, Element.qualifiedName, htwin.qualifiedName_eq]

/-- The renumbering takes the identifiers of the elements that stay to the new ones, in order. -/
theorem map_renumberedId (h : Restriction filePath before after pairs) :
    (visible before).map (fun e => renumberedId filePath (visible before) e.id) =
      after.map fun e => some e.id := by
  have hnewId := h.renumberedId_eq
  generalize renumberedId filePath (visible before) = f at hnewId ⊢
  rw [← h.old_eq, ← h.new_eq, List.map_map, List.map_map]
  exact List.map_congr_left hnewId

end Restriction

/-! ## Files -/

/-- The elements of a file with its private items and without them. -/
theorem exists_restriction {source : Source} {path : String} {docs : Bool} {root : Node}
    {all : List Element} (h : elementsOf ⟨source, path, ⟨docs, true⟩⟩ root = .ok all) :
    ∃ pairs after, elementsOf ⟨source, path, ⟨docs, false⟩⟩ root = .ok after ∧
      Restriction path all after pairs := by
  obtain ⟨declarations, hroot, rfl⟩ := Outcome.map_eq_ok_iff.mp h
  have htraversal := Declaration.ofRoot_eq_ok_iff.mp hroot
  have hpruned := htraversal.prunedAll
  obtain ⟨pairs, hold, hnew, htwins⟩ := Declaration.exists_twins htraversal.scoped
    (Declaration.placeAll (.start path) declarations).2.childrenOf
    (Declaration.placeAll (.start path) (Declaration.prunedAll declarations)).2.childrenOf
    (.start path) (.start path) rfl (.of_nodup (Declaration.nodup_ids path declarations))
  refine ⟨pairs, Declaration.elements path (Declaration.prunedAll declarations), ?_, hold, hnew,
    Declaration.elements_forestLaws htraversal.scoped path,
    Declaration.elements_forestLaws hpruned.scoped path, htwins⟩
  exact Outcome.map_eq_ok_iff.mpr ⟨_, Declaration.ofRoot_eq_ok_iff.mpr hpruned, rfl⟩

/-- Without its private items a file has the elements that are not hidden, numbered anew, and the
references that these make; without its documentation it has the same elements and references up
to the documentation of elements. -/
theorem elementsOf_restriction (source : Source) (path : String) (root : Node) :
    (∀ docs all, elementsOf ⟨source, path, ⟨docs, true⟩⟩ root = .ok all →
      let kept := visible all
      elementsOf ⟨source, path, ⟨docs, false⟩⟩ root = .ok (renumber path kept) ∧
      kept.map (fun e => renumberedId path kept e.id) =
        (renumber path kept).map (fun e => some e.id) ∧
      (∀ e ∈ kept, ∀ p ∈ all, e.placement.parentId = some p.id → p ∈ kept) ∧
      (renumber path kept).flatMap (Element.references ⟨source, path, ⟨docs, false⟩⟩) =
        (all.flatMap (Element.references ⟨source, path, ⟨docs, true⟩⟩)).filterMap
          (renumberOrigin path kept)) ∧
    ∀ includePrivate,
      elementsOf ⟨source, path, ⟨false, includePrivate⟩⟩ root =
        (elementsOf ⟨source, path, ⟨true, includePrivate⟩⟩ root).map
          (List.map Element.withoutDocs) ∧
      ∀ e : Element, e.withoutDocs.references ⟨source, path, ⟨false, includePrivate⟩⟩ =
        e.references ⟨source, path, ⟨true, includePrivate⟩⟩ := by
  constructor
  · intro docs all h
    obtain ⟨pairs, after, hafter, hrestriction⟩ := exists_restriction h
    have hrenumber := hrestriction.eq_renumber
    refine ⟨hrenumber ▸ hafter, ?_, ?_, ?_⟩
    · rw [← hrenumber]
      exact hrestriction.map_renumberedId
    · intro e he p hp hparent
      exact hrestriction.parent_mem_visible he hp hparent
    · rw [← hrenumber]
      exact hrestriction.references_eq ⟨source, path, ⟨docs, true⟩⟩
  · intro includePrivate
    exact ⟨elementsOf_withoutDocs root, fun e => rfl⟩

/-- The sample loses its private function, and later elements move up. -/
theorem elementsOf_restriction_sample :
    ∃ all, elementsOf (Sample.file true) Sample.root = .ok all ∧ all.length = 6 ∧
      elementsOf (Sample.file false) Sample.root =
        .ok (renumber "src/a.rs" (visible all)) ∧
      (renumber "src/a.rs" (visible all)).map Element.id =
        ["src/a.rs::Module::a::1", "src/a.rs::Function::a::c::2",
          "src/a.rs::Impl::a::T for S::3", "src/a.rs::Function::a::<S as T>::d::4",
          "src/a.rs::Function::a::e::5"] := by
  have hlength : (elementsOf (Sample.file true) Sample.root).map List.length = .ok 6 := by
    decide +kernel
  have hids : (elementsOf (Sample.file false) Sample.root).map (List.map Element.id) =
      .ok ["src/a.rs::Module::a::1", "src/a.rs::Function::a::c::2",
        "src/a.rs::Impl::a::T for S::3", "src/a.rs::Function::a::<S as T>::d::4",
        "src/a.rs::Function::a::e::5"] := by
    decide +kernel
  obtain ⟨all, hall, hsix⟩ := Outcome.map_eq_ok_iff.mp hlength
  have hfalse := ((elementsOf_restriction _ _ Sample.root).1 true all hall).1
  obtain ⟨after, hafter, hids⟩ := Outcome.map_eq_ok_iff.mp hids
  have heq : after = renumber "src/a.rs" (visible all) :=
    Except.ok.inj (hafter.symm.trans hfalse)
  exact ⟨all, hall, hsix, hfalse, heq ▸ hids⟩

end CrateAtlas
