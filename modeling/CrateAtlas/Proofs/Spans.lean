import CrateAtlas.Proofs.NodePath

/-!
# Spans of nodes

A node covers a stretch of bytes, which its parser gives as two offsets.  In a tree that is laid out
over its source, children lie inside their nodes and one after the other.  Offsets are also read as
points, a line and a column, which are in the same order.

Main results:

- Theorem {lit}`span_at?`: what is below a node lies inside its span.
- Theorem {lit}`Source.not_precedes_point`: a later offset is no earlier point.
-/

namespace CrateAtlas

namespace Node

variable {node child : Node} {position : Position}

/-! ## Nested spans -/

/-- The children of a node lie inside its span. -/
def holdsChildren (node : Node) : Bool :=
  node.children.all fun child =>
    decide (node.label.start ≤ child.label.start) && decide (child.label.stop ≤ node.label.stop)

/-- If children lie inside the spans of their nodes everywhere, so does all that is below. -/
theorem span_at? (h : node.everywhere holdsChildren = true) (hat : node.at? position = some child) :
    node.label.start ≤ child.label.start ∧ child.label.stop ≤ node.label.stop := by
  induction position generalizing node with
  | nil =>
      obtain rfl := Option.some.inj hat
      exact ⟨Nat.le_refl _, Nat.le_refl _⟩
  | cons i rest ih =>
      obtain ⟨first, hfirst, hbelow⟩ := at?_cons_eq_some_iff.mp hat
      obtain ⟨hnode, hchildren⟩ := everywhere_iff.mp h
      have hmem := List.mem_of_getElem? hfirst
      have hinner := ih (hchildren first hmem) hbelow
      have houter := List.all_eq_true.mp hnode first hmem
      simp only [Bool.and_eq_true, decide_eq_true_eq] at houter
      omega

/-! ## Layout -/

/-- A node covers a stretch of bytes, and its children lie inside it, each behind the ones before
it. -/
def laidOut (node : Node) : Bool :=
  decide (node.label.start ≤ node.label.stop) && holdsChildren node &&
    decide (node.children.Pairwise fun a b => a.label.stop ≤ b.label.start)

theorem laidOut_iff :
    node.laidOut = true ↔ node.label.start ≤ node.label.stop ∧ node.holdsChildren = true ∧
      node.children.Pairwise fun a b => a.label.stop ≤ b.label.start := by
  unfold laidOut
  rw [Bool.and_eq_true, Bool.and_eq_true, decide_eq_true_eq, decide_eq_true_eq, and_assoc]

/-- What holds of a node wherever something else does holds everywhere if the other one does. -/
theorem everywhere_mono {p q : Node → Bool} (hpq : ∀ node, p node = true → q node = true)
    (h : node.everywhere p = true) : node.everywhere q = true := by
  induction node using inductionOn_children with
  | step node ih =>
      obtain ⟨hnode, hchildren⟩ := everywhere_iff.mp h
      exact everywhere_iff.mpr ⟨hpq node hnode, fun child hmem => ih child hmem (hchildren child hmem)⟩

theorem holdsChildren_of_laidOut (h : node.everywhere laidOut = true) :
    node.everywhere holdsChildren = true :=
  everywhere_mono (fun _ hlaid => (laidOut_iff.mp hlaid).2.1) h

end Node

namespace Source

/-! ## Points -/

/-- Rows count upwards. -/
theorem row_mono (source : Source) {m n : Nat} (h : m ≤ n) : source.row m ≤ source.row n := by
  have hfront : source.take m <+: source.take n := List.take_prefix_take_left h
  exact hfront.sublist.count_le _

/-- The point of an offset: its line, from one, and its column, from zero. -/
def point (source : Source) (offset : Nat) : Nat × Nat :=
  (source.row offset + 1, source.column offset)

/-- A point comes before another one on an earlier line, or further left on the same line. -/
def Precedes (a b : Nat × Nat) : Prop :=
  a.1 < b.1 ∨ a.1 = b.1 ∧ a.2 < b.2

theorem column_eq (source : Source) (offset : Nat) :
    source.column offset = offset - ((source.take offset).length -
      ((source.take offset).reverse.takeWhile (· != 0x0A)).length) :=
  rfl

/-- On one line columns count upwards. -/
theorem column_mono (source : Source) {m n : Nat} (h : m ≤ n) (hrow : source.row m = source.row n) :
    source.column m ≤ source.column n := by
  -- No line feed stands between the offsets, so that their line starts at the same place.
  obtain ⟨between, hbetween⟩ : source.take m <+: source.take n := List.take_prefix_take_left h
  have hplain : ∀ byte ∈ between.reverse, (byte != 0x0A) = true := by
    unfold row at hrow
    rw [← hbetween, List.count_append] at hrow
    have hnone : between.count 0x0A = 0 := by omega
    intro byte hbyte
    have hne : byte ≠ 0x0A := by
      rintro rfl
      exact List.count_eq_zero.mp hnone (List.mem_reverse.mp hbyte)
    simpa using hne
  rw [column_eq, column_eq, ← hbetween, List.reverse_append, List.takeWhile_append_of_pos hplain]
  simp only [List.length_append, List.length_reverse]
  omega

/-- A later offset is no earlier point. -/
theorem not_precedes_point (source : Source) {m n : Nat} (h : m ≤ n) :
    ¬Precedes (source.point n) (source.point m) := by
  have hrow := source.row_mono h
  rintro (hline | ⟨hline, hcolumn⟩)
  · simp only [point] at hline
    omega
  · simp only [point] at hline hcolumn
    have hle := source.column_mono h (by omega)
    omega

end Source

end CrateAtlas
