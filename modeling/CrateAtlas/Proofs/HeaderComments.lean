import CrateAtlas.Item.Signature
import CrateAtlas.Proofs.Outermost
import Mathlib.Data.List.Sort
import Mathlib.Data.List.TakeWhile

/-!
# Comments before the end of a signature

A signature is cleared of the comments in it, which a walk with a stack collects in no particular
order, each cut off where the signature ends, and which are sorted afterwards.  In a tree that is laid
out over its source the result is plain: the outermost comments that start before the end of the
signature, from first to last, and none of them is cut off.

Main results:

- Theorem {lit}`commentSpans_perm`: which comments the walk collects.
- Theorem {lit}`stop_le_stop`: a comment that starts before the end of a signature stops before it.
- Theorem {lit}`mergeSort_commentSpans`: the sorted spans are those of the comments in turn.
-/

namespace CrateAtlas

namespace Node

/-- The outermost nodes among several nodes are those that have the property themselves and those
below the others. -/
theorem outermostIn_perm (p : Node → Bool) (nodes : List Node) :
    (outermostIn p nodes).Perm (nodes.filter p ++
      outermostIn p ((nodes.filter fun node => !p node).flatMap children)) := by
  induction nodes with
  | nil => simp
  | cons node nodes ih =>
      rw [outermostIn_cons]
      cases hnode : p node with
      | true =>
          simp only [hnode, if_true, List.filter_cons, Bool.not_true, Bool.false_eq_true, if_false]
          exact ih.cons node
      | false =>
          simp only [hnode, if_false, List.filter_cons, Bool.not_false, Bool.false_eq_true, if_true,
            List.flatMap_cons, outermostIn_append]
          refine (ih.append_left _).trans ?_
          rw [← List.append_assoc, ← List.append_assoc]
          exact List.perm_append_comm.append_right _

end Node

namespace Signature

open Node

variable {node comment child : Node} {nodes stack : List Node}

/-! ## Collecting comments -/

/-- The span of a comment, cut off at {lit}`stop`. -/
def spanBefore (stop : Nat) (comment : Node) : Nat × Nat :=
  (comment.label.start, min comment.label.stop stop)

/-- The outermost comments at and below several nodes that start before {lit}`stop`. -/
def commentsBefore (stop : Nat) (nodes : List Node) : List Node :=
  (outermostIn isComment nodes).filter fun comment => decide (comment.label.start < stop)

theorem commentsBefore_append (stop : Nat) (xs ys : List Node) :
    commentsBefore stop (xs ++ ys) = commentsBefore stop xs ++ commentsBefore stop ys := by
  unfold commentsBefore
  rw [outermostIn_append, List.filter_append]

/-- Comments that start before {lit}`stop` are not below nodes that start there or later. -/
theorem commentsBefore_eq_nil {stop : Nat} (hlaid : ∀ node ∈ nodes, node.everywhere laidOut = true)
    (hlate : ∀ node ∈ nodes, stop ≤ node.label.start) : commentsBefore stop nodes = [] := by
  refine List.filter_eq_nil_iff.mpr ?_
  intro comment hcomment hbefore
  obtain ⟨node, hnode, hfound⟩ := List.mem_flatMap.mp hcomment
  have hstart := (of_mem_outermost (hlaid node hnode) hfound).2.2.1
  have hbefore := of_decide_eq_true hbefore
  have hlater := hlate node hnode
  omega

/-- The children that are left out at the end of a signature start at it or later. -/
theorem commentsBefore_children (stop : Nat) (hlaid : node.everywhere laidOut = true) :
    commentsBefore stop node.children = commentsBefore stop (childrenBefore stop node) := by
  obtain ⟨hnode, hchildren⟩ := everywhere_iff.mp hlaid
  have hsplit := List.takeWhile_append_dropWhile (p := fun child : Node =>
    decide (child.label.start < stop)) (l := node.children)
  conv_lhs => rw [← hsplit]
  rw [commentsBefore_append, childrenBefore, List.append_right_eq_self]
  have hsub := List.dropWhile_sublist (l := node.children) fun child : Node =>
    decide (child.label.start < stop)
  refine commentsBefore_eq_nil (fun child hchild => hchildren child (hsub.subset hchild)) ?_
  -- The first child that is left out is late, and all later ones start even further back.
  have hturn := (laidOut_iff.mp hnode).2.2.sublist hsub
  cases hlist : node.children.dropWhile fun child : Node => decide (child.label.start < stop) with
  | nil => simp
  | cons first later =>
      have hfirst : stop ≤ first.label.start := by
        have hnot := List.head?_dropWhile_not (fun child : Node => decide (child.label.start < stop))
          node.children
        rw [hlist] at hnot
        simpa using hnot
      rw [hlist] at hturn hsub
      intro child hchild
      rcases List.mem_cons.mp hchild with rfl | hlater
      · exact hfirst
      · have hspan := (everywhere_iff.mp (hchildren first (hsub.subset List.mem_cons_self))).1
        have hbehind := (List.pairwise_cons.mp hturn).1 child hlater
        have hwidth := (laidOut_iff.mp hspan).1
        omega

/-- The comments among some early nodes come before the comments below the others. -/
theorem commentsBefore_perm {stop : Nat} (hearly : ∀ node ∈ nodes, node.label.start < stop) :
    (commentsBefore stop nodes).Perm (nodes.filter isComment ++
      commentsBefore stop ((nodes.filter fun node => !node.isComment).flatMap children)) := by
  have hperm := (outermostIn_perm isComment nodes).filter fun comment =>
    decide (comment.label.start < stop)
  rw [List.filter_append] at hperm
  have hall : (nodes.filter isComment).filter (fun comment => decide (comment.label.start < stop)) =
      nodes.filter isComment := by
    refine List.filter_eq_self.mpr ?_
    intro comment hcomment
    exact decide_eq_true (hearly comment (List.mem_filter.mp hcomment).1)
  rwa [hall] at hperm

/-- The walk collects the outermost comments below its stack that start before {lit}`stop`. -/
theorem commentSpans_perm (stop : Nat) (stack : List Node)
    (hlaid : ∀ node ∈ stack, node.everywhere laidOut = true) :
    (commentSpans stop stack).Perm
      ((commentsBefore stop (stack.flatMap children)).map (spanBefore stop)) := by
  induction stack using commentSpans.induct stop with
  | case1 => simp [commentSpans, commentsBefore]
  | case2 node rest ih =>
      have hnode := hlaid node List.mem_cons_self
      have hearly : ∀ child ∈ childrenBefore stop node, child.label.start < stop := by
        intro child hchild
        have hshort := List.mem_takeWhile_imp (p := fun child : Node =>
          decide (child.label.start < stop)) hchild
        exact of_decide_eq_true hshort
      have hpushed : ∀ child ∈ (uncommented stop node).reverse ++ rest,
          child.everywhere laidOut = true := by
        intro child hchild
        rcases List.mem_append.mp hchild with hhere | hrest
        · have hbefore := (List.mem_filter.mp (List.mem_reverse.mp hhere)).1
          exact (everywhere_iff.mp hnode).2 child
            ((List.takeWhile_sublist _).subset hbefore)
        · exact hlaid child (List.mem_cons_of_mem _ hrest)
      -- The order on the stack does not matter.
      have hreverse : (commentsBefore stop (((uncommented stop node).reverse).flatMap children)).Perm
          (commentsBefore stop ((uncommented stop node).flatMap children)) :=
        (((List.reverse_perm _).flatMap_right children).flatMap_right _).filter _
      rw [commentSpans, List.flatMap_cons, commentsBefore_append, commentsBefore_children stop hnode]
      have hbelow := ih hpushed
      rw [List.flatMap_append, commentsBefore_append, List.map_append] at hbelow
      have hhere := (commentsBefore_perm hearly).map (spanBefore stop)
      rw [List.map_append] at hhere
      rw [List.map_append]
      refine (hbelow.append_left _).trans ?_
      refine (((hreverse.map _).append_right _).append_left _).trans ?_
      rw [← List.append_assoc]
      exact hhere.symm.append_right _

/-! ## The end of a signature -/

/-- A signature ends where the declaration does, or where a child of it starts or stops. -/
theorem stop_cases (node : Node) : stop node = node.label.stop ∨
    ∃ child ∈ node.children, stop node = child.label.start ∨ stop node = child.label.stop := by
  have hmem : ∀ field child, node.child? field = some child → child ∈ node.children :=
    fun field child h => List.mem_of_find?_eq_some h
  unfold stop
  split
  · split
    next name hname => exact .inr ⟨name, hmem _ _ hname, .inr rfl⟩
    next => exact .inl rfl
  · split
    · split
      next value hvalue => exact .inr ⟨value, hmem _ _ hvalue, .inl rfl⟩
      next => exact .inl rfl
    · split
      next body hbody =>
        split
        · exact .inr ⟨body, hmem _ _ hbody, .inl rfl⟩
        · exact .inl rfl
      next => exact .inl rfl

/-- Of two siblings that stand one after the other, one is the other one or ends before it. -/
theorem inTurn_cases {first second : Node}
    (hturn : nodes.Pairwise fun a b => a.label.stop ≤ b.label.start) (hfirst : first ∈ nodes)
    (hsecond : second ∈ nodes) : first = second ∨ first.label.stop ≤ second.label.start ∨
      second.label.stop ≤ first.label.start := by
  obtain ⟨i, hi, rfl⟩ := List.mem_iff_getElem.mp hfirst
  obtain ⟨j, hj, rfl⟩ := List.mem_iff_getElem.mp hsecond
  have hpairs := List.pairwise_iff_getElem.mp hturn
  rcases Nat.lt_trichotomy i j with hlt | rfl | hlt
  · exact .inr (.inl (hpairs i j hi hj hlt))
  · exact .inl rfl
  · exact .inr (.inr (hpairs j i hj hi hlt))

/-- A comment that starts before the end of a signature stops before it. -/
theorem stop_le_stop (hlaid : node.everywhere laidOut = true)
    (hcomment : comment ∈ commentsBefore (stop node) node.children) :
    comment.label.stop ≤ stop node := by
  obtain ⟨hnode, hchildren⟩ := everywhere_iff.mp hlaid
  obtain ⟨-, hholds, hturn⟩ := laidOut_iff.mp hnode
  obtain ⟨hfound, hbefore⟩ := List.mem_filter.mp hcomment
  have hbefore := of_decide_eq_true hbefore
  obtain ⟨around, haround, hbelow⟩ := List.mem_flatMap.mp hfound
  obtain ⟨-, -, hstart, hstop⟩ := of_mem_outermost (hchildren around haround) hbelow
  rcases stop_cases node with hend | ⟨child, hchild, hend⟩
  · have hinside := List.all_eq_true.mp hholds around haround
    simp only [Bool.and_eq_true, decide_eq_true_eq] at hinside
    omega
  · -- The comment stands below the child at the end or below one before it.
    have hwidth := (laidOut_iff.mp (everywhere_iff.mp (hchildren child hchild)).1).1
    rcases inTurn_cases hturn haround hchild with rfl | hbefore | hbehind
    · rcases hend with hend | hend <;> omega
    · rcases hend with hend | hend <;> omega
    · rcases hend with hend | hend <;> omega

/-! ## Sorting -/

theorem spanLe_iff {a b : Nat × Nat} :
    spanLe a b = true ↔ a.1 < b.1 ∨ a.1 = b.1 ∧ a.2 ≤ b.2 := by
  simp [spanLe]

theorem pairwise_mergeSort_spanLe (spans : List (Nat × Nat)) :
    (spans.mergeSort spanLe).Pairwise fun a b => spanLe a b = true := by
  refine List.pairwise_mergeSort ?_ ?_ spans
  · intro a b c hab hbc
    rw [spanLe_iff] at *
    omega
  · intro a b
    rw [Bool.or_eq_true, spanLe_iff, spanLe_iff]
    omega

/-- The outermost comments of a declaration that start before a place. -/
def comments (last : Nat) (node : Node) : List Node :=
  ((outermost isComment node).map Prod.snd).filter fun comment =>
    decide (comment.label.start < last)

theorem comments_eq (last : Nat) (hnode : node.isComment = false) :
    comments last node = commentsBefore last node.children := by
  rw [comments, commentsBefore, outermost_eq, hnode, if_neg Bool.false_ne_true,
    map_snd_outermostAmong]

/-- Each comment ends before the next one starts. -/
theorem comments_inTurn (last : Nat) (hlaid : node.everywhere laidOut = true) :
    (comments last node).Pairwise fun a b => a.label.stop ≤ b.label.start :=
  (outermost_inTurn hlaid).filter _

/-- The sorted spans are those of the comments in turn, none of them cut off. -/
theorem mergeSort_commentSpans (hlaid : node.everywhere laidOut = true)
    (hnode : node.isComment = false) :
    (commentSpans (stop node) [node]).mergeSort spanLe =
      (comments (stop node) node).map fun comment => (comment.label.start, comment.label.stop) := by
  have hperm := commentSpans_perm (stop node) [node] (by simpa using hlaid)
  rw [List.flatMap_cons, List.flatMap_nil, List.append_nil, ← comments_eq _ hnode] at hperm
  have hwhole : (comments (stop node) node).map (spanBefore (stop node)) =
      (comments (stop node) node).map fun comment => (comment.label.start, comment.label.stop) := by
    refine List.map_congr_left ?_
    intro comment hcomment
    rw [comments_eq _ hnode] at hcomment
    rw [spanBefore, Nat.min_eq_left (stop_le_stop hlaid hcomment)]
  rw [hwhole] at hperm
  refine ((List.mergeSort_perm _ _).trans hperm).eq_of_pairwise ?_
    (pairwise_mergeSort_spanLe _) ?_
  · intro a b _ _ hab hba
    rw [spanLe_iff] at hab hba
    exact Prod.ext (by omega) (by omega)
  · refine List.pairwise_map.mpr ((comments_inTurn _ hlaid).imp_of_mem ?_)
    intro a b ha hb hab
    have hwidth : ∀ comment ∈ comments (stop node) node, comment.label.start ≤ comment.label.stop := by
      intro comment hcomment
      have hfound := of_mem_outermost hlaid (List.mem_filter.mp hcomment).1
      exact (laidOut_iff.mp (everywhere_iff.mp hfound.2.1).1).1
    have ha := hwidth a ha
    have hb := hwidth b hb
    rw [spanLe_iff]
    omega

end Signature

end CrateAtlas
