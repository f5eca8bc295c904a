import CrateAtlas.Proofs.ReferenceOrigins
import Mathlib.Data.List.Chain
import Mathlib.Data.List.Forall2
import Mathlib.Data.List.Infix
import Mathlib.Data.List.TakeWhile

/-!
# Which notes belong to which element

Documentation and attributes of an element are read from the nodes around its declaration: from the
run of comments and attributes right before it, collected backwards, and for a module from the
comments and inner attributes at the front of its body, collected forwards.  The stretches of two
elements meet in one place only, the front of a body before its first declaration, and there no node
says something to both.

Main results:

- Theorem {lit}`Docs.isLongestRun_attachedRun`: what is collected before an item is the longest run.
- Theorem {lit}`Docs.exists_notes_of_innerAmong`: what is collected at the front of a body.
- Theorem {lit}`elementsOf_attachedLaws`: from which nodes an element has its documentation and its
  attributes, and that no node gives something to two elements.
-/

namespace CrateAtlas

/-! ## Nodes with their positions -/

namespace Node

/-- Comments and the attributes of the item that follows. -/
def isNote (node : Node) : Bool :=
  node.isComment || node.isAttribute

theorem isNote_of_itemKind? {node : Node} {kind : Kind} (h : node.itemKind? = some kind) :
    node.isNote = false := by
  rw [isNote, isComment, isAttribute, beq_false_of_ne (kind_ne_of_itemKind? h rfl),
    beq_false_of_ne (kind_ne_of_itemKind? h rfl), beq_false_of_ne (kind_ne_of_itemKind? h rfl)]
  rfl

/-- The named nodes among the first children of the node at {lit}`place`, with their positions. -/
def namedAt (place : Position) (children : List Node) : List (Position × Node) :=
  (children.zipIdx.filter fun child => child.1.isNamed).map fun child =>
    (place ++ [child.2], child.1)

variable {place position : Position} {children : List Node} {node : Node}

theorem map_snd_namedAt (place : Position) (children : List Node) :
    (namedAt place children).map Prod.snd = children.filter isNamed := by
  conv_rhs => rw [← List.zipIdx_map_fst 0 children, List.filter_map]
  rw [namedAt, List.map_map]
  rfl

theorem mem_namedAt_iff : (position, node) ∈ namedAt place children ↔
    ∃ i, position = place ++ [i] ∧ children[i]? = some node ∧ node.isNamed = true := by
  rw [namedAt, List.mem_map]
  constructor
  · rintro ⟨⟨child, i⟩, hmem, heq⟩
    obtain ⟨rfl, rfl⟩ := Prod.mk.inj heq
    obtain ⟨hmem, hnamed⟩ := List.mem_filter.mp hmem
    exact ⟨i, rfl, List.mk_mem_zipIdx_iff_getElem?.mp hmem, hnamed⟩
  · rintro ⟨i, rfl, hget, hnamed⟩
    exact ⟨(node, i), List.mem_filter.mpr ⟨List.mk_mem_zipIdx_iff_getElem?.mpr hget, hnamed⟩, rfl⟩

theorem getElem?_take_eq_some_iff {i k : Nat} :
    (children.take i)[k]? = some node ↔ k < i ∧ children[k]? = some node := by
  rw [List.getElem?_take]
  split <;> simp [*]

/-- Children are in the order of their indices. -/
theorem append_singleton_lt_iff {i j : Nat} : place ++ [i] < place ++ [j] ↔ i < j := by
  induction place with
  | nil => simp [List.cons_lt_cons_iff]
  | cons k rest ih => simp [ih]

/-- They are listed in order. -/
theorem namedAt_ordered (place : Position) (children : List Node) :
    (namedAt place children).Pairwise fun a b => a.1 < b.1 := by
  rw [namedAt, List.pairwise_map]
  refine List.Pairwise.filter _ ?_
  refine (zipIdx_ordered children).imp ?_
  intro a b hab
  exact append_singleton_lt_iff.mpr hab

end Node

/-! ## Runs -/

namespace Docs

open Node

variable {source : Source} {rows : Node → Nat} {siblings run : List (Position × Node)} {item : Node}

/-- Some notes right before an item: the last ones of its siblings, each ending no more than one row
above the next one or the item, where {lit}`rows` tells the row on which a node ends. -/
structure IsRun (source : Source) (rows : Node → Nat) (siblings : List (Position × Node))
    (item : Node) (run : List (Position × Node)) : Prop where
  suffix : run <:+ siblings
  notes : ∀ found ∈ run, found.2.isNote = true
  adjacent : (run.map Prod.snd ++ [item]).IsChain fun a b =>
    source.row b.label.start ≤ rows a + 1

/-- The longest run of notes before an item. -/
structure IsLongestRun (source : Source) (rows : Node → Nat) (siblings : List (Position × Node))
    (item : Node) (run : List (Position × Node)) : Prop
    extends IsRun source rows siblings item run where
  longest : ∀ other, IsRun source rows siblings item other → other.length ≤ run.length

theorem attachedRun_cons (source : Source) (row : Nat) (node : Node) (rest : List Node) :
    attachedRun source row (node :: rest) =
      if node.isNote = true ∧ row ≤ endRow source node.label + 1 then
        node :: attachedRun source (source.row node.label.start) rest
      else [] := by
  rw [attachedRun, isNote]
  split
  next hnote =>
    by_cases hfar : endRow source node.label + 1 < row
    · rw [if_pos hfar, if_neg fun h => Nat.not_lt.mpr h.2 hfar]
    · rw [if_neg hfar, if_pos ⟨hnote, Nat.not_lt.mp hfar⟩]
  next hplain => rw [if_neg fun h => hplain h.1]

/-- Backwards from an item, the notes are collected as long as they are close enough. -/
theorem attachedRun_spec (source : Source) (item : Node) (before : List Node) :
    attachedRun source (source.row item.label.start) before <+: before ∧
    (∀ node ∈ attachedRun source (source.row item.label.start) before, node.isNote = true) ∧
    (item :: attachedRun source (source.row item.label.start) before).IsChain (fun b a =>
      source.row b.label.start ≤ endRow source a.label + 1) ∧
    ∀ other, other <+: before → (∀ node ∈ other, node.isNote = true) →
      (item :: other).IsChain (fun b a => source.row b.label.start ≤ endRow source a.label + 1) →
      other.length ≤ (attachedRun source (source.row item.label.start) before).length := by
  induction before generalizing item with
  | nil =>
      refine ⟨List.prefix_rfl, by simp [attachedRun], List.isChain_singleton _, ?_⟩
      intro other hother _ _
      rw [List.prefix_nil.mp hother]
      exact Nat.zero_le _
  | cons node rest ih =>
      rw [attachedRun_cons]
      split
      next hkeep =>
        obtain ⟨hnote, hclose⟩ := hkeep
        obtain ⟨hfront, hnotes, hchain, hlongest⟩ := ih node
        refine ⟨List.cons_prefix_cons.mpr ⟨rfl, hfront⟩, List.forall_mem_cons.mpr ⟨hnote, hnotes⟩,
          List.isChain_cons_cons.mpr ⟨hclose, hchain⟩, ?_⟩
        intro other hother hothers hlinked
        cases other with
        | nil => exact Nat.zero_le _
        | cons first later =>
            obtain ⟨rfl, hlater⟩ := List.cons_prefix_cons.mp hother
            exact Nat.succ_le_succ (hlongest later hlater (List.forall_mem_cons.mp hothers).2
              (List.isChain_cons_cons.mp hlinked).2)
      next hstop =>
        refine ⟨List.nil_prefix, by simp, List.isChain_singleton _, ?_⟩
        intro other hother hothers hlinked
        cases other with
        | nil => exact Nat.le_refl _
        | cons first later =>
            obtain ⟨rfl, -⟩ := List.cons_prefix_cons.mp hother
            exact (hstop ⟨(List.forall_mem_cons.mp hothers).1,
              (List.isChain_cons_cons.mp hlinked).1⟩).elim

/-- The notes that are collected before an item are the longest run. -/
theorem isLongestRun_attachedRun (source : Source) (item : Node)
    (siblings : List (Position × Node)) :
    ∃ run, IsLongestRun source (fun node => endRow source node.label) siblings item run ∧
      attachedRun source (source.row item.label.start) (siblings.map Prod.snd).reverse =
        (run.map Prod.snd).reverse := by
  obtain ⟨hfront, hnotes, hchain, hlongest⟩ :=
    attachedRun_spec source item (siblings.map Prod.snd).reverse
  have hlast : (attachedRun source (source.row item.label.start)
      (siblings.map Prod.snd).reverse).reverse <:+ siblings.map Prod.snd := by
    rw [← List.reverse_prefix, List.reverse_reverse]
    exact hfront
  obtain ⟨run, hsuffix, hrun⟩ := List.suffix_map_iff.mp hlast
  have hback : attachedRun source (source.row item.label.start) (siblings.map Prod.snd).reverse =
      (run.map Prod.snd).reverse := by
    rw [← hrun, List.reverse_reverse]
  rw [hback] at hnotes hchain hlongest
  refine ⟨run, ⟨⟨hsuffix, ?_, ?_⟩, ?_⟩, hback⟩
  · intro found hfound
    exact hnotes found.2 (List.mem_reverse.mpr (List.mem_map_of_mem hfound))
  · rwa [← List.isChain_reverse, List.reverse_append, List.reverse_singleton]
  · intro other hother
    have hlen := hlongest (other.map Prod.snd).reverse
      (List.reverse_prefix.mpr (hother.suffix.map Prod.snd)) ?_ ?_
    · simpa using hlen
    · intro node hnode
      obtain ⟨found, hfound, rfl⟩ := List.mem_map.mp (List.mem_reverse.mp hnode)
      exact hother.notes found hfound
    · have hadjacent := hother.adjacent
      rwa [← List.isChain_reverse, List.reverse_append, List.reverse_singleton] at hadjacent

/-! ## What notes say -/

/-- Read a comment or an inner attribute at the front of a body. -/
def readInner (source : Source) (node : Node) : Except Text.Utf8.Refusal Note := do
  let text ← source.text node.label
  if node.isComment then return .docs (if isDoc innerMarks text then cleanComment text else [])
  else return .docs ((attributeLines? text).getD [])

/-- Comments and inner attributes, which stand at the front of a body. -/
def isFront (node : Node) : Bool :=
  node.isComment || node.isInnerAttribute

theorem readInner_of_text {node : Node} {text : String} (h : source.text node.label = .ok text) :
    readInner source node = .ok (.docs (if node.isComment then
      if isDoc innerMarks text then cleanComment text else []
      else (attributeLines? text).getD [])) := by
  refine Outcome.bind_eq_ok_iff.mpr ⟨text, h, ?_⟩
  split <;> exact Outcome.pure_eq_ok_iff.mpr rfl

theorem flatMap_lines_cons (lines : List String) (notes : List Note) :
    (Note.docs lines :: notes).flatMap Note.lines = lines ++ notes.flatMap Note.lines :=
  List.flatMap_cons

/-- The inner documentation of a body is what the notes at its front say. -/
theorem exists_notes_of_innerAmong {nodes : List Node} {lines : List String}
    (h : innerAmong source nodes = .ok lines) :
    ∃ notes, List.Forall₂ (fun node note => readInner source node = .ok note)
        (nodes.takeWhile isFront) notes ∧
      lines = notes.flatMap Note.lines := by
  induction nodes generalizing lines with
  | nil =>
      cases h
      exact ⟨[], .nil, rfl⟩
  | cons node rest ih =>
      rw [innerAmong, Outcome.bind_eq_ok_iff] at h
      obtain ⟨text, htext, h⟩ := h
      have hread := readInner_of_text htext
      rw [List.takeWhile_cons, isFront]
      split at h
      next hcomment =>
        obtain ⟨later, hlater, h⟩ := Outcome.bind_eq_ok_iff.mp h
        obtain ⟨notes, hnotes, rfl⟩ := ih hlater
        rw [hcomment, if_pos rfl] at hread
        rw [hcomment, Bool.true_or, if_pos rfl]
        rw [← Outcome.pure_eq_ok_iff.mp h, ← flatMap_lines_cons]
        exact ⟨_, .cons hread hnotes, rfl⟩
      next hcomment =>
        rw [if_neg hcomment] at hread
        rw [Bool.eq_false_iff.mpr hcomment, Bool.false_or]
        split at h
        next hattribute =>
          obtain ⟨later, hlater, h⟩ := Outcome.bind_eq_ok_iff.mp h
          obtain ⟨notes, hnotes, rfl⟩ := ih hlater
          rw [if_pos hattribute]
          rw [← Outcome.pure_eq_ok_iff.mp h, ← flatMap_lines_cons]
          exact ⟨_, .cons hread hnotes, rfl⟩
        next hattribute =>
          rw [if_neg hattribute]
          exact ⟨[], .nil, (Outcome.pure_eq_ok_iff.mp h).symm⟩

/-! ## Outer and inner documentation -/

/-- A comment is not both outer and inner documentation. -/
theorem not_isDoc_innerMarks {text : String} (h : isDoc outerMarks text = true) :
    isDoc innerMarks text = false := by
  rw [Bool.eq_false_iff]
  intro hinner
  rw [isDoc, Bool.and_eq_true, List.any_eq_true] at h hinner
  obtain ⟨-, outer, houter, hstarts⟩ := h
  obtain ⟨-, inner, hinner, hbegins⟩ := hinner
  have hprefixes := List.prefix_or_prefix_of_prefix (List.isPrefixOf_iff_prefix.mp hstarts)
    (List.isPrefixOf_iff_prefix.mp hbegins)
  have hnone : ∀ outer ∈ outerMarks, ∀ inner ∈ innerMarks,
      ¬(outer.toList <+: inner.toList ∨ inner.toList <+: outer.toList) := by
    decide
  exact hnone outer houter inner hinner hprefixes

/-- A node that says something before an item says nothing at the front of a body. -/
theorem readInner_of_readNote {node : Node} {outer inner : Note}
    (houter : readNote source node = .ok outer) (hnote : node.isNote = true)
    (hspoken : outer ≠ .docs []) (hinner : readInner source node = .ok inner)
    (hfront : isFront node = true) : inner = .docs [] := by
  obtain ⟨text, htext, houter⟩ := Outcome.bind_eq_ok_iff.mp houter
  rw [readInner_of_text htext] at hinner
  obtain rfl := Except.ok.inj hinner
  cases hattribute : node.isAttribute with
  | true =>
      -- An attribute of the next item does not stand at a front.
      have hkind := beq_iff_eq.mp hattribute
      rw [isFront, isComment, isInnerAttribute, hkind] at hfront
      cases hfront
  | false =>
      rw [hattribute, if_neg Bool.false_ne_true] at houter
      rw [isNote, hattribute, Bool.or_false] at hnote
      split at houter
      next hdoc => rw [hnote, if_pos rfl, not_isDoc_innerMarks hdoc, if_neg Bool.false_ne_true]
      next => exact (hspoken (Outcome.pure_eq_ok_iff.mp houter).symm).elim

end Docs

/-! ## The notes of a declaration -/

open Docs Node

/-- The nodes at the front of the body of a module. -/
def Site.frontNodes (position : Position) (site : Site) : List (Position × Node) :=
  match site.kind, site.node.childIndex? "body", site.node.child? "body" with
  | .mod, some j, some body => (namedAt (position ++ [j]) body.children).takeWhile fun found =>
      isFront found.2
  | _, _, _ => []

/-- The notes that belong to a declaration, each with its position: what is said by the longest run of
notes before it, and by the nodes at the front of its body if it is a module. -/
structure Annotates (rows : Node → Nat) (file : SourceFile) (root : Node) (position : Position)
    (site : Site) (outer inner : List (Position × Note)) : Prop where
  before : ∃ place i container run, position = place ++ [i] ∧ root.at? place = some container ∧
    IsLongestRun file.source rows (namedAt place (container.children.take i)) site.node run ∧
    List.Forall₂ (fun found note => note.1 = found.1 ∧ readNote file.source found.2 = .ok note.2)
      run outer
  inside : List.Forall₂
    (fun found note => note.1 = found.1 ∧ readInner file.source found.2 = .ok note.2)
    (site.frontNodes position) inner

/-- What holds of the documentation and the attributes of the elements of a file, if {lit}`rows` tells
the rows on which nodes end. -/
structure AttachedLaws (rows : Node → Nat) (file : SourceFile) (root : Node)
    (elements : List Element) : Prop where
  /-- The elements are the declarations of the tree.  Each has the documentation that its notes give,
  the notes before it first and then those inside, and the attributes among the notes before it. -/
  taken : ∃ sites : List (Position × Site), (sites.map Prod.fst).Pairwise (· < ·) ∧
    (∀ position site, (position, site) ∈ sites ↔ Declared file root none position site) ∧
    List.Forall₂ (fun s element => ∃ outer inner, Annotates rows file root s.1 s.2 outer inner ∧
      element.item.docs = (outer ++ inner).flatMap (fun note => note.2.lines) ∧
      element.item.attrs = outer.filterMap fun note => note.2.attr?) sites elements
  /-- No node says something to two declarations. -/
  once : ∀ {p q s t outer inner outer' inner'}, Declared file root none p s →
    Declared file root none q t → Annotates rows file root p s outer inner →
    Annotates rows file root q t outer' inner' → ∀ place note note',
      (place, note) ∈ outer ++ inner → (place, note') ∈ outer' ++ inner' →
      note ≠ .docs [] → note' ≠ .docs [] → p = q

variable {rows : Node → Nat} {file : SourceFile} {root container : Node} {p q position : Position}
  {s t site : Site} {outer inner outer' inner' : List (Position × Note)} {elements : List Element}

/-! ## No note is taken twice -/

/-- A declaration is made by a named node that is no note. -/
theorem Declared.isNamed_and_kind {owner : Option Owner} (h : Declared file container owner p s) :
    s.node.isNamed = true ∧ s.node.itemKind? = some s.kind := by
  induction h with
  | item hat => exact ⟨hat.isNamed, hat.kind_eq⟩
  | member _ _ _ _ ih => exact ih
  | foreign _ _ _ _ _ ih => exact ih

/-- Of an ordered list, what comes after a member of its end is in this end as well. -/
theorem mem_of_suffix {run siblings : List (Position × Node)} {a b : Position × Node}
    (hordered : siblings.Pairwise fun a b => a.1 < b.1) (hsuffix : run <:+ siblings) (ha : a ∈ run)
    (hb : b ∈ siblings) (hab : a.1 < b.1) : b ∈ run := by
  obtain ⟨front, rfl⟩ := hsuffix
  rcases List.mem_append.mp hb with hfront | hrun
  · have hba := (List.pairwise_append.mp hordered).2.2 b hfront a ha
    exact (List.lt_asymm hab hba).elim
  · exact hrun

/-- Each note of a declaration comes from a node. -/
theorem exists_found {found : List (Position × Node)} {notes : List (Position × Note)}
    {read : Node → Except Text.Utf8.Refusal Note}
    (h : List.Forall₂ (fun found note => note.1 = found.1 ∧ read found.2 = .ok note.2) found notes)
    {place : Position} {note : Note} (hmem : (place, note) ∈ notes) :
    ∃ node, (place, node) ∈ found ∧ read node = .ok note := by
  obtain ⟨⟨place', node⟩, hfound, rfl, hread⟩ := Outcome.exists_partner h _ hmem
  exact ⟨node, hfound, hread⟩

/-- A note before a declaration stands at an earlier child of the same container, with nothing but
notes in between. -/
theorem Annotates.of_mem_outer (h : Annotates rows file root p s outer inner) {place : Position}
    {note : Note} (hmem : (place, note) ∈ outer) :
    ∃ front i k container node, p = front ++ [i] ∧ place = front ++ [k] ∧
      root.at? front = some container ∧ k < i ∧ container.children[k]? = some node ∧
      node.isNote = true ∧ readNote file.source node = .ok note ∧
      ∀ l child, k < l → l < i → container.children[l]? = some child → child.isNamed = true →
        child.isNote = true := by
  obtain ⟨front, i, container, run, rfl, hat, hrun, hread⟩ := h.before
  obtain ⟨node, hnode, hnote⟩ := exists_found hread hmem
  obtain ⟨k, rfl, hget, hnamed⟩ := mem_namedAt_iff.mp (hrun.suffix.subset hnode)
  obtain ⟨hki, hchild⟩ := getElem?_take_eq_some_iff.mp hget
  refine ⟨front, i, k, container, node, rfl, rfl, hat, hki, hchild, hrun.notes _ hnode, hnote, ?_⟩
  intro l child hkl hli hget' hnamed'
  have hsibling : (front ++ [l], child) ∈ namedAt front (container.children.take i) :=
    mem_namedAt_iff.mpr ⟨l, rfl, getElem?_take_eq_some_iff.mpr ⟨hli, hget'⟩, hnamed'⟩
  have hbetween := mem_of_suffix (namedAt_ordered _ _) hrun.suffix hnode hsibling
    (append_singleton_lt_iff.mpr hkl)
  exact hrun.notes _ hbetween

/-- A note inside a declaration stands at the front of its body. -/
theorem Annotates.of_mem_inner (h : Annotates rows file root p s outer inner) {place : Position}
    {note : Note} (hmem : (place, note) ∈ inner) :
    ∃ j k body node, place = p ++ [j, k] ∧ IsBody s.node j body ∧ body.children[k]? = some node ∧
      isFront node = true ∧ readInner file.source node = .ok note := by
  obtain ⟨node, hnode, hnote⟩ := exists_found h.inside hmem
  unfold Site.frontNodes at hnode
  split at hnode
  next j body hkind hindex hbody =>
    have hfront := List.mem_takeWhile_imp (p := fun found : Position × Node => isFront found.2) hnode
    obtain ⟨k, rfl, hget, -⟩ := mem_namedAt_iff.mp ((List.takeWhile_sublist _).subset hnode)
    obtain ⟨j', hisBody⟩ := exists_isBody_iff.mpr hbody
    obtain rfl := Option.some.inj (hindex.symm.trans hisBody.index_eq)
    exact ⟨j, k, body, node, by simp, hisBody, hget, hfront, hnote⟩
  next => simp at hnode

/-- Two declarations in one container have no note before them in common. -/
theorem not_before_both {front : Position} {i j k : Nat} (hp : Declared file root none p s)
    (hposition : p = front ++ [i]) (hcontainer : root.at? front = some container)
    (hki : k < i) (hij : i < j)
    (hbetween : ∀ l child, k < l → l < j → container.children[l]? = some child →
      child.isNamed = true → child.isNote = true) : False := by
  have hat := hp.at?_eq
  rw [hposition, at?_append, hcontainer, Option.bind_some, at?_cons, Option.bind_eq_some_iff] at hat
  obtain ⟨node, hget, heq⟩ := hat
  obtain rfl := Option.some.inj heq
  obtain ⟨hnamed, hkind⟩ := hp.isNamed_and_kind
  have hnote := hbetween i _ hki hij hget hnamed
  rw [isNote_of_itemKind? hkind] at hnote
  cases hnote

/-- A note before a declaration that says something does not say anything inside another one. -/
theorem not_before_and_inside (hq : Declared file root none q t)
    (hs : Annotates rows file root p s outer inner) (ht : Annotates rows file root q t outer' inner')
    {place : Position} {note note' : Note} (hmem : (place, note) ∈ outer)
    (hmem' : (place, note') ∈ inner') (hspoken : note ≠ .docs []) (hspoken' : note' ≠ .docs []) :
    False := by
  obtain ⟨front, i, k, container, node, -, hplace, hcontainer, -, hget, hnote, hread, -⟩ :=
    hs.of_mem_outer hmem
  obtain ⟨j, k', body, node', rfl, hbody, hget', hfront, hinner⟩ := ht.of_mem_inner hmem'
  obtain ⟨rfl, rfl⟩ := List.append_singleton_inj.mp
    ((List.append_assoc q [j] [k']).trans hplace)
  -- The container is the body, and the note is the same node.
  rw [at?_append, hq.at?_eq, Option.bind_some, at?_cons, hbody.getElem?_eq] at hcontainer
  obtain rfl := Option.some.inj hcontainer
  obtain rfl := Option.some.inj (hget.symm.trans hget')
  exact hspoken' (readInner_of_readNote hread hnote hspoken hinner hfront)

theorem Annotates.once (hp : Declared file root none p s) (hq : Declared file root none q t)
    (hs : Annotates rows file root p s outer inner) (ht : Annotates rows file root q t outer' inner')
    {place : Position} {note note' : Note} (hmem : (place, note) ∈ outer ++ inner)
    (hmem' : (place, note') ∈ outer' ++ inner') (hspoken : note ≠ .docs [])
    (hspoken' : note' ≠ .docs []) : p = q := by
  rcases List.mem_append.mp hmem with hbefore | hinside
  · rcases List.mem_append.mp hmem' with hbefore' | hinside'
    · obtain ⟨front, i, k, container, node, hposition, rfl, hcontainer, hki, -, -, -, hbetween⟩ :=
        hs.of_mem_outer hbefore
      obtain ⟨front', i', k', container', node', hposition', hplace, hcontainer', hki', -, -, -,
        hbetween'⟩ := ht.of_mem_outer hbefore'
      obtain ⟨rfl, rfl⟩ := List.append_singleton_inj.mp hplace
      obtain rfl := Option.some.inj (hcontainer.symm.trans hcontainer')
      rcases Nat.lt_trichotomy i i' with hlt | rfl | hlt
      · exact (not_before_both hp hposition hcontainer hki hlt hbetween').elim
      · exact hposition.trans hposition'.symm
      · exact (not_before_both hq hposition' hcontainer hki' hlt hbetween).elim
    · exact (not_before_and_inside hq hs ht hbefore hinside' hspoken hspoken').elim
  · rcases List.mem_append.mp hmem' with hbefore' | hinside'
    · exact (not_before_and_inside hp ht hs hbefore' hinside hspoken' hspoken).elim
    · obtain ⟨j, k, body, node, rfl, -⟩ := hs.of_mem_inner hinside
      obtain ⟨j', k', body', node', hplace, -⟩ := ht.of_mem_inner hinside'
      exact (List.append_inj' hplace rfl).1

/-! ## What the reader takes -/

/-- What is read for a declaration at a position below a container. -/
structure TakesNotes (file : SourceFile) (container : Node) (s : Position × Site) (item : Item) :
    Prop where
  before : ∃ place i around notes, s.1 = place ++ [i] ∧ container.at? place = some around ∧
    notesBefore file.source ((around.children.take i).filter isNamed).reverse s.2.node = .ok notes ∧
    item.attrs = notes.filterMap Note.attr? ∧
    ∃ lines, Item.innerDocs file.source s.2.kind s.2.node = .ok lines ∧
      (file.options.includeDocs = true → item.docs = notes.flatMap Note.lines ++ lines)

/-- Notes that are read from nodes with positions get these positions. -/
theorem exists_placed {found : List (Position × Node)} {notes : List Note}
    {read : Node → Except Text.Utf8.Refusal Note}
    (h : List.Forall₂ (fun node note => read node = .ok note) (found.map Prod.snd) notes) :
    ∃ placed : List (Position × Note), placed.map Prod.snd = notes ∧
      List.Forall₂ (fun found note => note.1 = found.1 ∧ read found.2 = .ok note.2) found placed := by
  induction found generalizing notes with
  | nil =>
      cases h
      exact ⟨[], rfl, .nil⟩
  | cons first rest ih =>
      rw [List.map_cons] at h
      cases h with
      | cons hfirst hrest =>
          obtain ⟨placed, rfl, hplaced⟩ := ih hrest
          exact ⟨(first.1, _) :: placed, rfl, .cons ⟨rfl, hfirst⟩ hplaced⟩

theorem Declaration.Takes.takesNotes {around : List Node} {forced : Option Visibility}
    {before pre rest : List Node} {node : Node} {kind : Kind} {named : ItemName} {notes : List Note}
    {visibility : Visibility} {item : Item} (hstands : Stands container pre node rest before)
    (h : Takes file around forced before node kind named notes visibility item) :
    TakesNotes file container ([pre.length], ⟨node, kind, named.name, visibility⟩) item := by
  have hread := h.read_eq
  unfold Item.read at hread
  simp only [Outcome.bind_eq_ok_iff, Outcome.pure_eq_ok_iff] at hread
  obtain ⟨lines, hlines, generics, -, usages, -, rfl⟩ := hread
  refine ⟨[], pre.length, container, notes, rfl, rfl, ?_, rfl, lines, hlines, ?_⟩
  · rw [hstands.take_eq]
    exact h.notes_eq
  · intro hdocs
    simp [hdocs]

theorem TakesNotes.under {i j : Nat} {node body : Node} {s : Position × Site} {item : Item}
    (hnode : container.children[i]? = some node) (hbody : node.children[j]? = some body)
    (h : TakesNotes file body s item) : TakesNotes file container (Position.under i j s) item := by
  obtain ⟨place, k, around, notes, hposition, hat, htaken⟩ := h.before
  refine ⟨i :: j :: place, k, around, notes, ?_, ?_, htaken⟩
  · rw [Position.under, hposition]
    rfl
  · rw [at?_cons, hnode, Option.bind_some, at?_cons, hbody, Option.bind_some, hat]

/-- What is read at the front of the body of a declaration. -/
theorem exists_inner {lines : List String} (position : Position)
    (h : Item.innerDocs file.source site.kind site.node = .ok lines) :
    ∃ inner : List (Position × Note), lines = inner.flatMap (fun note => note.2.lines) ∧
      List.Forall₂ (fun found note => note.1 = found.1 ∧ readInner file.source found.2 = .ok note.2)
        (site.frontNodes position) inner := by
  have hnone (hfront : site.frontNodes position = []) (hlines : lines = []) :
      ∃ inner : List (Position × Note), lines = inner.flatMap (fun note => note.2.lines) ∧
        List.Forall₂
          (fun found note => note.1 = found.1 ∧ readInner file.source found.2 = .ok note.2)
          (site.frontNodes position) inner := by
    rw [hfront]
    exact ⟨[], hlines, .nil⟩
  unfold Item.innerDocs at h
  split at h
  next hmod =>
    split at h
    next body hbody =>
      obtain ⟨notes, hnotes, rfl⟩ := exists_notes_of_innerAmong h
      obtain ⟨j, hisBody⟩ := exists_isBody_iff.mpr hbody
      have hfront : site.frontNodes position = (namedAt (position ++ [j]) body.children).takeWhile
          fun found => isFront found.2 := by
        rw [Site.frontNodes, hmod, hisBody.index_eq, hbody]
      rw [Node.namedChildren, ← map_snd_namedAt (position ++ [j]), List.takeWhile_map] at hnotes
      obtain ⟨placed, rfl, hplaced⟩ := exists_placed hnotes
      rw [hfront]
      refine ⟨placed, ?_, hplaced⟩
      rw [List.flatMap_map]
    next hbody =>
      refine hnone ?_ (Except.ok.inj h).symm
      rw [Site.frontNodes, hbody]
      split
      next heq => cases heq
      next => rfl
  next hmod =>
    refine hnone ?_ (Except.ok.inj h).symm
    rw [Site.frontNodes]
    split
    next heq _ _ => exact (hmod heq).elim
    next => rfl

/-- What is read for a declaration is what its notes say. -/
theorem TakesNotes.exists_annotates {s : Position × Site} {item : Item}
    (h : TakesNotes file root s item) (hdocs : file.options.includeDocs = true) :
    ∃ outer inner, Annotates (fun node => endRow file.source node.label) file root s.1 s.2 outer inner ∧
      item.docs = (outer ++ inner).flatMap (fun note => note.2.lines) ∧
      item.attrs = outer.filterMap fun note => note.2.attr? := by
  obtain ⟨place, i, around, notes, hposition, hat, hnotes, hattrs, lines, hlines, htext⟩ := h.before
  obtain ⟨run, hrun, hback⟩ := isLongestRun_attachedRun file.source s.2.node
    (namedAt place (around.children.take i))
  obtain ⟨inner, rfl, hinner⟩ := exists_inner s.1 hlines
  rw [notesBefore, Outcome.bind_eq_ok_iff, ← map_snd_namedAt place, hback] at hnotes
  obtain ⟨backwards, hread, hreverse⟩ := hnotes
  obtain rfl := Outcome.pure_eq_ok_iff.mp hreverse
  have hforward := List.forall₂_reverse_iff.mpr (Outcome.forall₂_of_mapM_eq_ok hread)
  rw [List.reverse_reverse] at hforward
  obtain ⟨outer, houter, hplaced⟩ := exists_placed hforward
  rw [← houter] at hattrs htext
  refine ⟨outer, inner, ⟨⟨place, i, around, run, hposition, hat, hrun, hplaced⟩, hinner⟩, ?_, ?_⟩
  · rw [htext hdocs, List.flatMap_map, List.flatMap_append]
  · rw [hattrs, List.filterMap_map]
    rfl

/-- The elements of a file have the documentation and the attributes of their notes, and no node says
something to two of them.  A note that ends at the start of a line below its first one counts for the
line before. -/
theorem elementsOf_attachedLaws (h : elementsOf file root = .ok elements)
    (hdocs : file.options.includeDocs = true) :
    AttachedLaws (fun node => endRow file.source node.label) file root elements := by
  refine ⟨?_, fun hp hq hs ht place note note' => Annotates.once hp hq hs ht⟩
  obtain ⟨declarations, hroot, rfl⟩ := Outcome.map_eq_ok_iff.mp h
  obtain ⟨sites, hsites, htaken⟩ := (Declaration.ofRoot_eq_ok_iff.mp hroot).listing_related
    (R := TakesNotes file) Declaration.Takes.takesNotes
    (fun hnode hbody _ _ htaken => htaken.under hnode hbody)
    (List.nil_append _).symm rfl (show none = Owner.forced none from rfl)
  refine ⟨sites, hsites.ordered, ?_, ?_⟩
  · intro position site
    exact ⟨fun hmem => ((hsites.mem_iff position site).mp hmem).1, hsites.mem_of_declared⟩
  · rw [← Declaration.placeAll_items declarations (.start file.path),
      List.forall₂_map_right_iff] at htaken
    rw [Declaration.elements_eq, List.forall₂_map_right_iff]
    exact htaken.imp fun s placed hnotes => hnotes.exists_annotates hdocs

/-! ## Two files with notes -/

namespace Sample

/-- A module with a comment and an attribute before it, inner documentation and a function. -/
def notedText : String :=
  "/// m\n#[a]\nmod m \x7b\n//! in\n/// f\nfn f() \x7b\x7d\n\x7d\n"

/-- The tree of that text. -/
def notedRoot : Node :=
  node "source_file" "" 0 44
    [node "line_comment" "" 0 6 [], node "attribute_item" "" 6 10 [],
      node "mod_item" "" 11 43
        [node "identifier" "name" 15 16 [],
          node "declaration_list" "body" 17 43
            [node "line_comment" "" 19 26 [], node "line_comment" "" 26 32 [],
              node "function_item" "" 32 41 [node "identifier" "name" 35 36 []]]]]

/-- The text as a file that is read with documentation. -/
def notedFile : SourceFile :=
  ⟨notedText.toUTF8.toList, "src/a.rs", ⟨true, true⟩⟩

/-- A block comment that takes its line feed along, a blank line, and a function. -/
def looseText : String :=
  "/** d */\n\npub fn f() \x7b\x7d\n"

/-- The block comment. -/
def looseComment : Node :=
  node "block_comment" "" 0 9 []

/-- The function behind it. -/
def looseFunction : Node :=
  node "function_item" "" 10 23
    [node "visibility_modifier" "" 10 13 [], node "identifier" "name" 17 18 []]

/-- The tree of that text. -/
def looseRoot : Node :=
  node "source_file" "" 0 24 [looseComment, looseFunction]

/-- The text as a file that is read with documentation. -/
def looseFile : SourceFile :=
  ⟨looseText.toUTF8.toList, "src/lib.rs", ⟨true, false⟩⟩

end Sample

/-- Both comments at the front of the module stand before the function as well; each of them says
something to one of the two. -/
theorem elementsOf_attachedLaws_sample :
    ∃ elements, elementsOf Sample.notedFile Sample.notedRoot = .ok elements ∧
      elements.map (fun element => (element.item.docs, element.item.attrs)) =
        [(["m", "in"], ["#[a]"]), (["f"], [])] ∧
      AttachedLaws (fun node => endRow Sample.notedFile.source node.label) Sample.notedFile
        Sample.notedRoot elements := by
  have hread : (elementsOf Sample.notedFile Sample.notedRoot).map (List.map fun element =>
      (element.item.docs, element.item.attrs)) =
        .ok [(["m", "in"], ["#[a]"]), (["f"], [])] := by
    decide +kernel
  obtain ⟨elements, h, hnotes⟩ := Outcome.map_eq_ok_iff.mp hread
  exact ⟨elements, h, hnotes, elementsOf_attachedLaws h rfl⟩

/-- The row on which a node ends, if only line comments count for the line before. -/
def Docs.lineCommentRow (source : Source) (node : Node) : Nat :=
  if node.kind = "line_comment" then endRow source node.label else source.row node.label.stop

/-- The function of the loose sample is declared. -/
theorem Sample.declared_looseFunction : Declared looseFile looseRoot none [1]
    ⟨looseFunction, .function, "f", .pub⟩ :=
  .item
    { getElem?_eq := rfl
      isNamed := rfl
      kind_eq := by decide
      name_eq := ⟨⟨"f", "f"⟩, by decide +kernel, rfl⟩
      name_ne := by decide
      visibility_eq := ⟨[], by decide +kernel, shows_iff.mpr (by decide +kernel)⟩
      shown := .inl (by decide) }

/-- If block comments count for the line on which they end, then the block comment of the sample would
belong to the function, which has no documentation. -/
theorem elementsOf_attachedLaws_strays :
    ∃ elements, elementsOf Sample.looseFile Sample.looseRoot = .ok elements ∧
      Sample.looseFile.options.includeDocs = true ∧
      ¬AttachedLaws (lineCommentRow Sample.looseFile.source) Sample.looseFile Sample.looseRoot
        elements := by
  have hread : (elementsOf Sample.looseFile Sample.looseRoot).map (List.map fun element =>
      element.item.docs) = .ok [[]] := by
    decide +kernel
  obtain ⟨elements, h, hempty⟩ := Outcome.map_eq_ok_iff.mp hread
  refine ⟨elements, h, rfl, ?_⟩
  intro hlaws
  obtain ⟨sites, -, hmem, htaken⟩ := hlaws.taken
  obtain ⟨element, helement, outer, inner, hnotes, hdocs, -⟩ :=
    Outcome.exists_partner htaken.flip _ ((hmem _ _).mpr Sample.declared_looseFunction)
  obtain ⟨place, i, container, run, hposition, hat, hrun, hwords⟩ := hnotes.before
  obtain ⟨rfl, rfl⟩ := List.append_singleton_inj.mp (show [] ++ [1] = place ++ [i] from hposition)
  obtain rfl := Option.some.inj hat
  -- The comment alone is a run.
  have halone : IsRun Sample.looseFile.source (lineCommentRow Sample.looseFile.source)
      (namedAt [] (Sample.looseRoot.children.take 1)) Sample.looseFunction
      [([0], Sample.looseComment)] :=
    { suffix := List.suffix_rfl
      notes := by decide
      adjacent := by decide +kernel }
  rw [hrun.suffix.eq_of_length_le (hrun.longest _ halone),
    show namedAt [] (Sample.looseRoot.children.take 1) = [([0], Sample.looseComment)] from rfl]
    at hwords
  cases hwords with
  | @cons _ note _ _ hfirst _ =>
      have hread : readNote Sample.looseFile.source Sample.looseComment = .ok (.docs ["d"]) := by
        decide +kernel
      have hnote : Note.docs ["d"] = note.2 := Except.ok.inj (hread.symm.trans hfirst.2)
      have hnone : element.item.docs = [] := by
        have hdocs := List.mem_map_of_mem (f := fun element : Element => element.item.docs) helement
        rw [hempty] at hdocs
        exact List.mem_singleton.mp hdocs
      rw [hnone, List.cons_append, List.flatMap_cons, ← hnote] at hdocs
      cases hdocs

end CrateAtlas
