import CrateAtlas.Measure.Halstead
import CrateAtlas.Proofs.CountTables
import CrateAtlas.Proofs.Forest
import Mathlib.Logic.Function.Iterate

/-!
# Counting tokens with a stack

The tokens of a function body are counted by a loop that takes one node after the other from a stack.
Each of its turns makes the nodes on the stack smaller, so that it ends, and what it has counted are
the tokens of the body, from left to right.  The numbers of different tokens are therefore never
larger than those of all tokens, which keeps the derived measures from dividing by zero and from
logarithms that do not exist.

What the tokens of a body are is said apart from the loop, by the types and the texts of its nodes.

Main results:

- Theorem {lit}`Token.yields_below`, {lit}`Token.Yields.eq_below`: a node has one list of tokens.
- Theorem {lit}`Tally.exists_turns`: the loop ends.
- Theorem {lit}`Tally.collect_eq`: the loop counts the tokens of the nodes on its stack.
- Theorem {lit}`Halstead.Consistent.measured`: the derived measures of consistent numbers.
- Theorem {lit}`Tally.collect_laws`: all this for the body of a function.
-/

namespace CrateAtlas

section

variable {source : Source} {node : Node} {rest stack : List Node} {tally : Tally}
  {tokens : List Token} {text : String}

/-! ## Tokens from left to right -/

namespace Token

theorem belowAll_eq (source : Source) (nodes : List Node) :
    belowAll source nodes = nodes.flatMap (below source) := by
  induction nodes with
  | nil => rw [belowAll, List.flatMap_nil]
  | cons node nodes ih => rw [belowAll, List.flatMap_cons, ih]

/-- The tokens of a node: none in comments and nested items, one for operands and for leaves that are
not silent, and otherwise those of the children. -/
theorem below_eq (source : Source) (node : Node) :
    below source node =
      if node.isComment || node.isNestedItem then []
      else if node.isOperand then [operand (source.lenientText node.label)]
      else if node.children.isEmpty then (ofLeaf (source.lenientText node.label)).toList
      else node.children.flatMap (below source) := by
  cases node
  rw [below, belowAll_eq]
  rfl

/-! ## What stands for a token -/

/-- The types of comments and of items that are looked at on their own. -/
def skippedKinds : List String :=
  ["line_comment", "block_comment", "function_item", "function_signature_item", "struct_item",
    "union_item", "enum_item", "trait_item", "impl_item", "mod_item", "const_item", "static_item",
    "type_item", "associated_type", "macro_definition", "use_declaration",
    "extern_crate_declaration"]

/-- The types of names and literals. -/
def operandKinds : List String :=
  ["identifier", "field_identifier", "type_identifier", "primitive_type",
    "shorthand_field_identifier", "self", "crate", "super", "metavariable", "integer_literal",
    "float_literal", "string_literal", "raw_string_literal", "char_literal", "boolean_literal"]

/-- The texts of leaves that are not counted. -/
def ignoredTexts : List String :=
  ["", ",", ";", ")", "]", "\x7d"]

/-- The text of the bytes that a node covers. -/
def textUnder (source : Source) (node : Node) : String :=
  Text.Utf8.decodeLenient
    ((source.drop node.label.start).take (node.label.stop - node.label.start))

mutual

/-- The tokens of a node, from left to right. -/
inductive Yields (source : Source) : Node → List Token → Prop where
  /-- Comments and nested items have none. -/
  | skipped {node : Node} : node.kind ∈ skippedKinds → Yields source node []
  /-- A name or a literal is one operand, whatever is below it. -/
  | operand {node : Node} : node.kind ∉ skippedKinds → node.kind ∈ operandKinds →
      Yields source node [operand (textUnder source node)]
  /-- Any other leaf is an operator, … -/
  | operator {node : Node} : node.kind ∉ skippedKinds → node.kind ∉ operandKinds →
      node.children = [] → textUnder source node ∉ ignoredTexts →
      Yields source node [operator (textUnder source node)]
  /-- … unless its text does not count. -/
  | ignored {node : Node} : node.kind ∉ skippedKinds → node.kind ∉ operandKinds →
      node.children = [] → textUnder source node ∈ ignoredTexts → Yields source node []
  /-- Any other node has the tokens of its children. -/
  | inner {node : Node} {tokens : List Token} : node.kind ∉ skippedKinds →
      node.kind ∉ operandKinds → node.children ≠ [] → YieldsAll source node.children tokens →
      Yields source node tokens

/-- The tokens of several nodes, from left to right. -/
inductive YieldsAll (source : Source) : List Node → List Token → Prop where
  | nil : YieldsAll source [] []
  | cons {node : Node} {rest : List Node} {first later : List Token} : Yields source node first →
      YieldsAll source rest later → YieldsAll source (node :: rest) (first ++ later)

end

theorem skips_iff :
    (node.isComment || node.isNestedItem) = true ↔ node.kind ∈ skippedKinds := by
  have hitem : ∀ kind : String, (Node.itemKindOf kind).isSome = true ↔ kind ∈
      ["function_item", "function_signature_item", "struct_item", "union_item", "enum_item",
        "trait_item", "impl_item", "mod_item", "const_item", "static_item", "type_item",
        "associated_type", "macro_definition"] := by
    intro kind
    unfold Node.itemKindOf
    split <;> simp_all
  rw [Node.isNestedItem, Node.itemKind?, Node.isComment]
  simp only [Bool.or_eq_true, hitem, beq_iff_eq]
  simp only [skippedKinds, List.mem_cons, List.not_mem_nil, or_false, or_assoc]

theorem isOperand_iff : node.isOperand = true ↔ node.kind ∈ operandKinds := by
  rw [Node.isOperand, List.contains_iff_mem, operandKinds]

theorem lenientText_eq (source : Source) (node : Node) :
    source.lenientText node.label = textUnder source node := by
  rw [Source.lenientText, Source.slice, List.drop_take, textUnder]

/-- A leaf that is no operand is an operator, unless its text does not count. -/
theorem ofLeaf_eq (text : String) :
    ofLeaf text = if text ∈ ignoredTexts then none else some (operator text) := by
  rw [ofLeaf, Node.isSilentToken]
  simp only [List.contains_iff_mem, ignoredTexts, List.mem_cons (a := text) (b := "")]

mutual

/-- A node has the tokens that are read at and below it. -/
theorem yields_below (source : Source) : ∀ node : Node, Yields source node (below source node)
  | .mk label children => by
      rw [below_eq, lenientText_eq, ofLeaf_eq]
      split
      next hskip => exact .skipped (skips_iff.mp hskip)
      next hskip =>
        rw [skips_iff] at hskip
        split
        next hoperand => exact .operand hskip (isOperand_iff.mp hoperand)
        next hoperand =>
          rw [isOperand_iff] at hoperand
          split
          next hleaf =>
            have hnil : (Node.mk label children).children = [] := List.isEmpty_iff.mp hleaf
            split
            next hignored => exact .ignored hskip hoperand hnil hignored
            next hcounts => exact .operator hskip hoperand hnil hcounts
          next hleaf =>
            have hne : (Node.mk label children).children ≠ [] := by simpa using hleaf
            exact .inner hskip hoperand hne (yieldsAll_below source children)

theorem yieldsAll_below (source : Source) :
    ∀ nodes : List Node, YieldsAll source nodes (nodes.flatMap (below source))
  | [] => .nil
  | node :: rest => .cons (yields_below source node) (yieldsAll_below source rest)

end

mutual

/-- A node has no other tokens. -/
theorem Yields.eq_below {node : Node} {tokens : List Token} :
    Yields source node tokens → tokens = below source node
  | .skipped hskip => by rw [below_eq, if_pos (skips_iff.mpr hskip)]
  | .operand hskip hoperand => by
      rw [below_eq, if_neg (skips_iff.not.mpr hskip), if_pos (isOperand_iff.mpr hoperand),
        lenientText_eq]
  | .operator hskip hoperand hnil hcounts => by
      rw [below_eq, if_neg (skips_iff.not.mpr hskip), if_neg (isOperand_iff.not.mpr hoperand),
        if_pos (List.isEmpty_iff.mpr hnil), lenientText_eq, ofLeaf_eq, if_neg hcounts]
      rfl
  | .ignored hskip hoperand hnil hignored => by
      rw [below_eq, if_neg (skips_iff.not.mpr hskip), if_neg (isOperand_iff.not.mpr hoperand),
        if_pos (List.isEmpty_iff.mpr hnil), lenientText_eq, ofLeaf_eq, if_pos hignored]
      rfl
  | .inner hskip hoperand hne hchildren => by
      rw [below_eq, if_neg (skips_iff.not.mpr hskip), if_neg (isOperand_iff.not.mpr hoperand),
        if_neg (by simpa using hne), hchildren.eq_flatMap]

theorem YieldsAll.eq_flatMap {nodes : List Node} {tokens : List Token} :
    YieldsAll source nodes tokens → tokens = nodes.flatMap (below source)
  | .nil => rfl
  | .cons hfirst hlater => by rw [List.flatMap_cons, hfirst.eq_below, hlater.eq_flatMap]

end

end Token

/-! ## The loop -/

namespace Tally

/-- One turn of the loop: take the uppermost node from the stack, and count it or put its children in
its place. -/
def turn (source : Source) : List Node × Tally → List Node × Tally
  | ([], tally) => ([], tally)
  | (node :: rest, tally) =>
      if node.isComment || node.isNestedItem then (rest, tally)
      else if node.isOperand then (rest, tally.add (.operand (source.lenientText node.label)))
      else if node.children.isEmpty then
        (rest, tally.addSome (Token.ofLeaf (source.lenientText node.label)))
      else (node.children ++ rest, tally)

/-- A turn leaves less on the stack. -/
theorem size_turn_lt (source : Source) (node : Node) (rest : List Node) (tally : Tally) :
    Node.sizeAll (turn source (node :: rest, tally)).1 < Node.sizeAll (node :: rest) := by
  obtain ⟨label, children⟩ := node
  rw [Node.sizeAll_cons, Node.size_mk, turn]
  split_ifs
  · show Node.sizeAll rest < _
    omega
  · show Node.sizeAll rest < _
    omega
  · show Node.sizeAll rest < _
    omega
  · show Node.sizeAll (children ++ rest) < _
    rw [Node.sizeAll_append]
    omega

/-- What is counted in the end is the same after a turn. -/
theorem collect_turn (source : Source) (stack : List Node) (tally : Tally) :
    collect source (turn source (stack, tally)).1 (turn source (stack, tally)).2 =
      collect source stack tally := by
  cases stack with
  | nil => rfl
  | cons node rest =>
      obtain ⟨label, children⟩ := node
      rw [turn, collect, Node.children_mk]
      split_ifs
      · rfl
      · rfl
      · rfl
      · rfl

/-- The loop ends after at most as many turns as there are nodes on and below its stack. -/
theorem exists_turns (source : Source) (stack : List Node) (tally : Tally) :
    ∃ turns ≤ Node.sizeAll stack,
      (turn source)^[turns] (stack, tally) = ([], collect source stack tally) := by
  induction hsize : Node.sizeAll stack using Nat.strong_induction_on generalizing stack tally with
  | _ size ih =>
      cases stack with
      | nil =>
          refine ⟨0, Nat.zero_le _, ?_⟩
          rw [collect]
          rfl
      | cons node rest =>
          have hlt := size_turn_lt source node rest tally
          rw [hsize] at hlt
          obtain ⟨turns, hle, hturns⟩ := ih _ hlt _ (turn source (node :: rest, tally)).2 rfl
          refine ⟨turns + 1, by omega, ?_⟩
          rw [Function.iterate_succ_apply, ← collect_turn]
          exact hturns

/-! ## What is counted -/

/-- A tally counts the tokens below its stack. -/
theorem collect_eq (source : Source) (stack : List Node) (tally : Tally) :
    collect source stack tally = (Token.belowAll source stack).foldl add tally := by
  induction stack, tally using collect.induct source with
  | case1 tally => rw [collect, Token.belowAll, List.foldl_nil]
  | case2 label children rest tally hskip ih =>
      rw [collect, if_pos hskip, Token.belowAll, Token.below, if_pos hskip, List.nil_append, ih]
  | case3 label children rest tally hskip hoperand ih =>
      rw [collect, if_neg hskip, if_pos hoperand, Token.belowAll, Token.below, if_neg hskip,
        if_pos hoperand, ih]
      rfl
  | case4 label children rest tally hskip hoperand hleaf ih =>
      rw [collect, if_neg hskip, if_neg hoperand, if_pos hleaf, Token.belowAll, Token.below,
        if_neg hskip, if_neg hoperand, if_pos hleaf, List.foldl_append, ih]
      cases Token.ofLeaf (source.lenientText label) <;> rfl
  | case5 label children rest tally hskip hoperand hleaf ih =>
      rw [collect, if_neg hskip, if_neg hoperand, if_neg hleaf, Token.belowAll, Token.below,
        if_neg hskip, if_neg hoperand, if_neg hleaf, ih, Token.belowAll_eq, List.flatMap_append,
        Token.belowAll_eq, Token.belowAll_eq]

end Tally

namespace Token

/-- The text of an operator. -/
def operator? : Token → Option String
  | operator text => some text
  | operand _ => none

/-- The text of an operand. -/
def operand? : Token → Option String
  | operator _ => none
  | operand text => some text

theorem operator?_eq_some_iff {token : Token} :
    token.operator? = some text ↔ token = operator text := by
  cases token <;> simp [operator?]

theorem operand?_eq_some_iff {token : Token} :
    token.operand? = some text ↔ token = operand text := by
  cases token <;> simp [operand?]

/-- A table of the texts of one sort of tokens. -/
theorem mem_ofNames_filterMap_iff {pick : Token → Option String} {make : String → Token}
    (h : ∀ {token text}, pick token = some text ↔ token = make text) {n : Int} :
    (text, n) ∈ Counts.ofNames (tokens.filterMap pick) ↔
      make text ∈ tokens ∧ n = tokens.count (make text) := by
  have hcount : (tokens.filterMap pick).count text = tokens.count (make text) := by
    rw [List.count_filterMap, List.count]
    apply List.countP_congr
    intro token _
    rw [beq_iff_eq, beq_iff_eq, h]
  rw [Counts.mem_ofNames_iff, hcount]
  simp only [List.mem_filterMap, h, exists_eq_right]

end Token

namespace Tally

/-- A tally says of each operator and each operand how often it is among some tokens.  No text has two
entries. -/
structure CountsExactly (tally : Tally) (tokens : List Token) : Prop where
  mem_operators_iff : ∀ text n, (text, n) ∈ tally.operators ↔
    .operator text ∈ tokens ∧ n = tokens.count (.operator text)
  mem_operands_iff : ∀ text n, (text, n) ∈ tally.operands ↔
    .operand text ∈ tokens ∧ n = tokens.count (.operand text)
  operators_ordered : tally.operators.Ordered
  operands_ordered : tally.operands.Ordered

/-- The tally of the texts of operators and of those of operands. -/
def ofTexts (operators operands : List String) : Tally :=
  ⟨.ofNames operators, .ofNames operands⟩

theorem add_ofTexts (operators operands : List String) (token : Token) :
    (ofTexts operators operands).add token =
      ofTexts (operators ++ token.operator?.toList) (operands ++ token.operand?.toList) := by
  cases token with
  | operator text =>
      show _ = ofTexts (operators ++ [text]) (operands ++ [])
      rw [List.append_nil, ofTexts, ofTexts, Counts.ofNames_append_singleton]
      rfl
  | operand text =>
      show _ = ofTexts (operators ++ []) (operands ++ [text])
      rw [List.append_nil, ofTexts, ofTexts, Counts.ofNames_append_singleton]
      rfl

/-- Tokens that are counted one by one end up in the tally of their texts. -/
theorem foldl_add_eq (tokens : List Token) :
    tokens.foldl add .empty =
      ofTexts (tokens.filterMap Token.operator?) (tokens.filterMap Token.operand?) := by
  induction tokens using List.reverseRecOn with
  | nil => rfl
  | append_singleton tokens token ih =>
      rw [List.foldl_append, ih, List.foldl_cons, List.foldl_nil, add_ofTexts,
        List.filterMap_append, List.filterMap_append]
      cases token <;> rfl

theorem countsExactly_ofTexts (tokens : List Token) :
    (ofTexts (tokens.filterMap Token.operator?) (tokens.filterMap Token.operand?)).CountsExactly
      tokens where
  mem_operators_iff _ _ := Token.mem_ofNames_filterMap_iff Token.operator?_eq_some_iff
  mem_operands_iff _ _ := Token.mem_ofNames_filterMap_iff Token.operand?_eq_some_iff
  operators_ordered := Counts.ordered_sum _
  operands_ordered := Counts.ordered_sum _

/-- What the loop leaves behind when it starts with one node. -/
theorem collect_node (source : Source) (node : Node) :
    collect source [node] .empty =
      ofTexts ((Token.below source node).filterMap Token.operator?)
        ((Token.below source node).filterMap Token.operand?) := by
  rw [collect_eq, Token.belowAll_eq, List.flatMap_singleton, foldl_add_eq]

end Tally

/-! ## Derived measures -/

namespace Quantity

variable {large : Prop} {a b : Int}

/-- A quantity has a value, unless a number is too large for it. -/
def DefinedUnless (large : Prop) (q : Quantity) : Prop :=
  ∀ fault, q = .error fault → large ∧ (fault = .numberTooLarge ∨ fault = .quotientTooLarge)

theorem definedUnless_ok (x : Float) : DefinedUnless large (.ok x) := by
  intro fault h
  contradiction

theorem definedUnless_error {fault : QuantityFault} (h : large)
    (hfault : fault = .numberTooLarge ∨ fault = .quotientTooLarge) :
    DefinedUnless large (.error fault) := by
  intro cause heq
  injection heq with heq
  rw [← heq]
  exact ⟨h, hfault⟩

theorem DefinedUnless.bind {q : Quantity} {f : Float → Quantity} (hq : DefinedUnless large q)
    (hf : ∀ x, DefinedUnless large (f x)) : DefinedUnless large (q >>= f) := by
  intro fault h
  cases q with
  | error cause => exact hq fault h
  | ok x => exact hf x fault h

theorem ofInt_definedUnless (h : Decimal.inRange a 1 = false → large) :
    DefinedUnless large (ofInt a) := by
  unfold ofInt
  by_cases hrange : Decimal.inRange a 1 = true
  · rw [if_pos hrange]
    exact definedUnless_ok _
  · rw [if_neg hrange]
    exact definedUnless_error (h (Bool.eq_false_of_not_eq_true hrange)) (.inl rfl)

theorem quotient_definedUnless (hb : b ≠ 0) (h : Decimal.inRange a b = false → large) :
    DefinedUnless large (quotient a b) := by
  unfold quotient
  rw [if_neg hb]
  by_cases hrange : Decimal.inRange a b = true
  · rw [if_pos hrange]
    exact definedUnless_ok _
  · rw [if_neg hrange]
    exact definedUnless_error (h (Bool.eq_false_of_not_eq_true hrange)) (.inr rfl)

theorem log2_definedUnless (h : 0 < a) : DefinedUnless large (log2 a) := by
  unfold log2
  rw [if_neg (by omega)]
  exact definedUnless_ok _

theorem bits_definedUnless (hb : 0 < b) (h : Decimal.inRange a 1 = false → large) :
    DefinedUnless large (bits a b) :=
  (log2_definedUnless hb).bind fun _ =>
    (ofInt_definedUnless h).bind fun _ => definedUnless_ok _

end Quantity

/-- What is not in the range of doubles has nothing larger in it, also if it is divided. -/
theorem Decimal.inRange_of_le {a b n : Int} (ha : 0 ≤ a) (hab : a ≤ n) (hb : 1 ≤ b)
    (h : inRange n 1 = true) : inRange a b = true := by
  unfold inRange at h ⊢
  rw [decide_eq_true_iff] at h ⊢
  have hle : overflow * (1 : Int).natAbs ≤ overflow * b.natAbs :=
    Nat.mul_le_mul_left overflow (by omega)
  omega

namespace Halstead

/-- Numbers of tokens as they can be: there are no more different tokens than tokens, and some if
there are any. -/
structure Consistent (h : Halstead) : Prop where
  distinctOperators_le : h.distinctOperators ≤ h.operators
  distinctOperands_le : h.distinctOperands ≤ h.operands
  operators_eq_zero_iff : h.distinctOperators = 0 ↔ h.operators = 0
  operands_eq_zero_iff : h.distinctOperands = 0 ↔ h.operands = 0
  distinctOperators_nonneg : 0 ≤ h.distinctOperators
  distinctOperands_nonneg : 0 ≤ h.distinctOperands

/-- There are more tokens than fit into a double. -/
def TooLong (h : Halstead) : Prop :=
  Decimal.inRange h.length 1 = false

/-- The derived measures have values, unless there are too many tokens. -/
structure Measured (h : Halstead) : Prop where
  calculatedLength : Quantity.DefinedUnless h.TooLong h.calculatedLength
  volume : Quantity.DefinedUnless h.TooLong h.volume
  difficulty : Quantity.DefinedUnless h.TooLong h.difficulty
  effort : Quantity.DefinedUnless h.TooLong h.effort

variable {h : Halstead}

/-- Numbers of some tokens are too large for a double only if there are too many in all. -/
theorem tooLong_of_not_inRange {a b : Int} (ha : 0 ≤ a) (hab : a ≤ h.length) (hb : 1 ≤ b)
    (hrange : Decimal.inRange a b = false) : h.TooLong := by
  unfold TooLong
  by_contra hin
  rw [Bool.not_eq_false] at hin
  rw [Decimal.inRange_of_le ha hab hb hin] at hrange
  contradiction

theorem length_eq (h : Halstead) : h.length = h.operators + h.operands :=
  rfl

theorem vocabulary_eq (h : Halstead) :
    h.vocabulary = h.distinctOperators + h.distinctOperands :=
  rfl

namespace Consistent

theorem distinct_le_length (hc : h.Consistent) :
    h.distinctOperators ≤ h.length ∧ h.distinctOperands ≤ h.length ∧ h.operands ≤ h.length := by
  obtain ⟨hle, hle', -, -, hnonneg, hnonneg'⟩ := hc
  rw [length_eq]
  omega

/-- The logarithms are taken of numbers of tokens that are not zero. -/
theorem calculatedLength_defined (hc : h.Consistent) :
    Quantity.DefinedUnless h.TooLong h.calculatedLength := by
  obtain ⟨hoperators, hoperands, -⟩ := hc.distinct_le_length
  have hnonneg := hc.distinctOperators_nonneg
  have hnonneg' := hc.distinctOperands_nonneg
  unfold Halstead.calculatedLength
  by_cases hzero : h.distinctOperators = 0 ∨ h.distinctOperands = 0
  · rw [if_pos hzero]
    exact Quantity.definedUnless_ok _
  · rw [if_neg hzero]
    rw [not_or] at hzero
    apply (Quantity.bits_definedUnless (by omega)
      (tooLong_of_not_inRange hnonneg hoperators (Int.le_refl 1))).bind
    intro _
    apply (Quantity.bits_definedUnless (by omega)
      (tooLong_of_not_inRange hnonneg' hoperands (Int.le_refl 1))).bind
    intro _
    exact Quantity.definedUnless_ok _

/-- A vocabulary that is not empty has a logarithm, because no number of tokens is negative. -/
theorem volume_defined (hc : h.Consistent) : Quantity.DefinedUnless h.TooLong h.volume := by
  have hvocabulary := vocabulary_eq h
  have hnonneg := hc.distinctOperators_nonneg
  have hnonneg' := hc.distinctOperands_nonneg
  have hlength := hc.distinct_le_length.1
  unfold Halstead.volume
  by_cases hzero : h.vocabulary = 0
  · rw [if_pos hzero]
    exact Quantity.definedUnless_ok _
  · rw [if_neg hzero]
    apply Quantity.bits_definedUnless (by omega)
    exact tooLong_of_not_inRange (by omega) (Int.le_refl _) (Int.le_refl 1)

theorem difficulty_defined (hc : h.Consistent) : Quantity.DefinedUnless h.TooLong h.difficulty := by
  obtain ⟨hoperators, -, hoperands⟩ := hc.distinct_le_length
  have hnonneg := hc.distinctOperators_nonneg
  have hnonneg' := hc.distinctOperands_nonneg
  have hle := hc.distinctOperands_le
  unfold Halstead.difficulty
  by_cases hzero : h.distinctOperands = 0
  · rw [if_pos hzero]
    exact Quantity.definedUnless_ok _
  · rw [if_neg hzero]
    apply (Quantity.ofInt_definedUnless
      (tooLong_of_not_inRange hnonneg hoperators (Int.le_refl 1))).bind
    intro _
    apply (Quantity.quotient_definedUnless hzero
      (tooLong_of_not_inRange (by omega) hoperands (by omega))).bind
    intro _
    exact Quantity.definedUnless_ok _

/-- No derived measure of consistent numbers divides by zero or takes the logarithm of zero. -/
theorem measured (hc : h.Consistent) : h.Measured where
  calculatedLength := hc.calculatedLength_defined
  volume := hc.volume_defined
  difficulty := hc.difficulty_defined
  effort := hc.difficulty_defined.bind fun _ => hc.volume_defined.bind fun _ =>
    Quantity.definedUnless_ok _

end Consistent

/-- The numbers of a tally of texts are consistent. -/
theorem consistent_ofTexts (operators operands : List String) :
    (ofTally (.ofTexts operators operands)).Consistent := by
  have hzero (texts : List String) :
      ((Counts.ofNames texts).length : Int) = 0 ↔ (Counts.ofNames texts).total = 0 := by
    rw [Counts.total_ofNames, Int.natCast_eq_zero, Int.natCast_eq_zero]
    exact Counts.length_ofNames_eq_zero_iff
  have hle (texts : List String) :
      ((Counts.ofNames texts).length : Int) ≤ (Counts.ofNames texts).total := by
    rw [Counts.total_ofNames]
    exact_mod_cast Counts.length_ofNames_le texts
  exact ⟨hle operators, hle operands, hzero operators, hzero operands, Int.natCast_nonneg _,
    Int.natCast_nonneg _⟩

/-- The numbers of a function are consistent, also if it has no body. -/
theorem ofFunction_consistent (source : Source) (node : Node) :
    (ofFunction source node).Consistent := by
  unfold ofFunction
  cases node.child? "body" with
  | none => exact consistent_ofTexts [] []
  | some body =>
      show (ofTally (Tally.collect source [body] .empty)).Consistent
      rw [Tally.collect_node]
      exact consistent_ofTexts _ _

end Halstead

/-- The loop over a body ends, with a tally of the tokens of the body.  Its numbers are consistent, so
that the derived measures neither divide by zero nor take the logarithm of zero; so they are for
functions without a body. -/
theorem Tally.collect_laws (source : Source) (body : Node) :
    let tally := collect source [body] .empty
    (∃ turns ≤ body.size, (turn source)^[turns] ([body], .empty) = ([], tally)) ∧
    (∃ tokens, Token.Yields source body tokens) ∧
    (∀ tokens, Token.Yields source body tokens → tally.CountsExactly tokens) ∧
    (Halstead.ofTally tally).Consistent ∧
    (Halstead.ofTally tally).Measured ∧
    ∀ function, (Halstead.ofFunction source function).Consistent ∧
      (Halstead.ofFunction source function).Measured := by
  intro tally
  have htally : tally = ofTexts ((Token.below source body).filterMap Token.operator?)
      ((Token.below source body).filterMap Token.operand?) := collect_node source body
  have hconsistent : (Halstead.ofTally tally).Consistent := by
    rw [htally]
    exact Halstead.consistent_ofTexts _ _
  obtain ⟨turns, hle, hturns⟩ := exists_turns source [body] .empty
  rw [Node.sizeAll_cons, Node.sizeAll_nil, Nat.add_zero] at hle
  refine ⟨⟨turns, hle, hturns⟩, ⟨_, Token.yields_below source body⟩, ?_, hconsistent,
    hconsistent.measured, ?_⟩
  · intro tokens htokens
    rw [htokens.eq_below, htally]
    exact countsExactly_ofTexts _
  · intro function
    have hfunction := Halstead.ofFunction_consistent source function
    exact ⟨hfunction, hfunction.measured⟩

end

/-! ## A body with operators -/

namespace Sample

/-- A body with a sum, a comment and an import. -/
def sumText : String :=
  "\x7ba=a+1;/*b*/use c;\x7d"

/-- A bare token. -/
def token (kind : String) (start : Nat) : Node :=
  .mk ⟨kind, false, false, false, start, start + kind.length, "", false⟩ []

/-- The tree of that text. -/
def sumBody : Node :=
  node "block" "body" 0 19
    [token "\x7b" 0,
      node "expression_statement" "" 1 7
        [node "assignment_expression" "" 1 6
          [node "identifier" "left" 1 2 [], token "=" 2,
            node "binary_expression" "right" 3 6
              [node "identifier" "left" 3 4 [], token "+" 4,
                node "integer_literal" "right" 5 6 []]],
          token ";" 6],
      node "block_comment" "" 7 12 [],
      node "use_declaration" "" 12 18
        [token "use" 12, node "identifier" "argument" 16 17 [], token ";" 17],
      token "\x7d" 18]

end Sample

/-- The opening bracket and the two signs are operators; the semicolon and the closing bracket do not
count, nor do the comment and the import. -/
theorem Tally.collect_laws_sample :
    collect Sample.sumText.toUTF8.toList [Sample.sumBody] .empty =
        ⟨[("+", 1), ("=", 1), ("\x7b", 1)], [("1", 1), ("a", 2)]⟩ ∧
      Token.Yields Sample.sumText.toUTF8.toList Sample.sumBody
        [.operator "\x7b", .operand "a", .operator "=", .operand "a", .operator "+",
          .operand "1"] ∧
      (collect Sample.sumText.toUTF8.toList [Sample.sumBody] .empty).CountsExactly
        [.operator "\x7b", .operand "a", .operator "=", .operand "a", .operator "+",
          .operand "1"] := by
  have htokens : Token.below Sample.sumText.toUTF8.toList Sample.sumBody =
      [.operator "\x7b", .operand "a", .operator "=", .operand "a", .operator "+",
        .operand "1"] := by
    decide +kernel
  have hyields := Token.yields_below Sample.sumText.toUTF8.toList Sample.sumBody
  rw [htokens] at hyields
  obtain ⟨-, -, hcounts, -⟩ := collect_laws Sample.sumText.toUTF8.toList Sample.sumBody
  refine ⟨?_, hyields, hcounts _ hyields⟩
  rw [collect_node, htokens]
  decide +kernel

end CrateAtlas
