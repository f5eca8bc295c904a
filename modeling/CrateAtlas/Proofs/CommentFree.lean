import CrateAtlas.Measure.Complexity
import CrateAtlas.Proofs.PathMeasures
import CrateAtlas.Proofs.TokenTally

/-!
# Comments do not count

Comments can stand anywhere in a function: between a conditional and its alternative, among the arms of
a match, in front of a closure.  Each rule of the walk over branches passes them over in its own way,
and so do the tokens.  Hence a function is as complex as it is without some of its comments.  The walk
knows the consequence, the alternative and the body of a node by span and type, so that a comment must
not be mistaken for one of these.

Main results:

- Theorem {lit}`Alike.of_sparser`: two nodes count the same if their children do, comments apart.
- Theorem {lit}`Thinned.sparser`: this holds all the way down.
- Theorem {lit}`Complexity.ofFunction_thinned`: the measures of a function without some of its
  comments.
-/

namespace CrateAtlas

/-! ## Lists with some members left out -/

/-- Some members of a list are dropped, and the others are replaced one by one. -/
inductive Sparser {α : Type} (drops : α → Prop) (R : α → α → Prop) : List α → List α → Prop where
  | nil : Sparser drops R [] []
  | drop {a as bs} : drops a → Sparser drops R as bs → Sparser drops R (a :: as) bs
  | keep {a b as bs} : R a b → Sparser drops R as bs → Sparser drops R (a :: as) (b :: bs)

namespace Sparser

variable {α : Type} {drops : α → Prop} {R S : α → α → Prop} {as bs : List α}

theorem imp (hRS : ∀ a b, R a b → S a b) (h : Sparser drops R as bs) : Sparser drops S as bs := by
  induction h with
  | nil => exact .nil
  | drop ha _ ih => exact .drop ha ih
  | keep hab _ ih => exact .keep (hRS _ _ hab) ih

theorem eq_nil (h : Sparser drops R [] bs) : bs = [] := by
  cases h
  rfl

/-- What is dropped adds no branches. -/
theorem sumOf_eq {f g : α → Branching} (hdrop : ∀ a, drops a → f a = .zero)
    (hkeep : ∀ a b, R a b → g b = f a) (h : Sparser drops R as bs) :
    Branching.sumOf g bs = Branching.sumOf f as := by
  induction h with
  | nil => rfl
  | drop ha _ ih => rw [Branching.sumOf_cons, hdrop _ ha, Branching.zero_append, ih]
  | keep hab _ ih => rw [Branching.sumOf_cons, Branching.sumOf_cons, hkeep _ _ hab, ih]

theorem flatMap_eq {β : Type} {f g : α → List β} (hdrop : ∀ a, drops a → f a = [])
    (hkeep : ∀ a b, R a b → g b = f a) (h : Sparser drops R as bs) :
    bs.flatMap g = as.flatMap f := by
  induction h with
  | nil => rfl
  | drop ha _ ih => rw [List.flatMap_cons, hdrop _ ha, List.nil_append, ih]
  | keep hab _ ih => rw [List.flatMap_cons, List.flatMap_cons, hkeep _ _ hab, ih]

theorem countP_eq {p q : α → Bool} (hdrop : ∀ a, drops a → p a = false)
    (hkeep : ∀ a b, R a b → q b = p a) (h : Sparser drops R as bs) : bs.countP q = as.countP p := by
  induction h with
  | nil => rfl
  | drop ha _ ih => rw [List.countP_cons, hdrop _ ha, if_neg Bool.false_ne_true, ih, Nat.add_zero]
  | keep hab _ ih => rw [List.countP_cons, List.countP_cons, hkeep _ _ hab, ih]

/-- The first members with a property are related, if none with it is dropped. -/
theorem find?_rel {p q : α → Bool} (hdrop : ∀ a, drops a → p a = false)
    (hkeep : ∀ a b, R a b → q b = p a) (h : Sparser drops R as bs) :
    Option.Rel R (as.find? p) (bs.find? q) := by
  induction h with
  | nil => exact .none
  | drop ha _ ih =>
      rw [List.find?_cons, hdrop _ ha]
      exact ih
  | @keep a b _ _ hab _ ih =>
      rw [List.find?_cons, List.find?_cons, hkeep _ _ hab]
      cases p a with
      | true => exact .some hab
      | false => exact ih

end Sparser

/-! ## Trees without some of their comments -/

namespace Node

/-- Whether a child is taken for the consequence or the alternative of a conditional, or for the body
of a loop or a closure. -/
def standsIn (node child : Node) : Bool :=
  (node.isIf && (child.isAt (node.child? "consequence") || child.isAt (node.child? "alternative"))) ||
    ((node.isLoop || node.isClosure) && child.isAt (node.child? "body"))

/-- A child that may be dropped: a comment without a field, unless {lit}`stays` keeps it. -/
structure IsLoose (stays : Node → Node → Bool) (node child : Node) : Prop where
  isComment : child.isComment = true
  field_eq : child.label.field = ""
  stays_eq : stays node child = false

/-- Children of a node without some of the loose comments at and below them.  No node loses all of its
children. -/
inductive Thinned (stays : Node → Node → Bool) : (node : Node) → List Node → List Node → Prop where
  | nil {node} : Thinned stays node [] []
  | drop {node comment rest rest'} : IsLoose stays node comment →
      Thinned stays node rest rest' → Thinned stays node (comment :: rest) rest'
  | keep {node child child' rest rest'} : child'.label = child.label →
      Thinned stays child child.children child'.children →
      (child.children ≠ [] → child'.children ≠ []) →
      Thinned stays node rest rest' → Thinned stays node (child :: rest) (child' :: rest')

/-- A node without some of the loose comments below it. -/
structure ThinnedTo (stays : Node → Node → Bool) (node node' : Node) : Prop where
  label_eq : node'.label = node.label
  children : Thinned stays node node.children node'.children
  filled : node.children ≠ [] → node'.children ≠ []

/-- Nothing has to be dropped. -/
theorem Thinned.refl {stays : Node → Node → Bool} (node : Node) :
    Thinned stays node node.children node.children := by
  induction node using inductionOn_children with
  | step node ih =>
      have hsome (nodes : List Node) (hsub : ∀ child ∈ nodes, child ∈ node.children) :
          Thinned stays node nodes nodes := by
        induction nodes with
        | nil => exact .nil
        | cons child rest ihRest =>
            obtain ⟨hchild, hrest⟩ := List.forall_mem_cons.mp hsub
            exact .keep rfl (ih child hchild) id (ihRest hrest)
      exact hsome node.children fun _ hchild => hchild

/-- A child may be left as it is. -/
theorem Thinned.same {stays : Node → Node → Bool} {node child : Node} {rest rest' : List Node}
    (h : Thinned stays node rest rest') : Thinned stays node (child :: rest) (child :: rest') :=
  .keep rfl (Thinned.refl child) id h

end Node

open Node Branching

section

variable {source : Source} {node node' child child' comment : Node} {nesting : Nat}

/-- A class of types that does not have comments in it. -/
theorem class_of_isComment {p : String → Bool} (hline : p "line_comment" = false)
    (hblock : p "block_comment" = false) (h : comment.isComment = true) : p comment.kind = false := by
  rw [isComment, Bool.or_eq_true, beq_iff_eq, beq_iff_eq] at h
  rcases h with hkind | hkind
  · rw [hkind, hline]
  · rw [hkind, hblock]

theorem stops_of_isComment (h : comment.isComment = true) : stops comment = true := by
  rw [stops, h, Bool.or_true]

/-! ## Nodes that count the same -/

/-- Two nodes with the same label, the same branches and the same tokens. -/
structure Akin (source : Source) (node node' : Node) : Prop where
  label_eq : node'.label = node.label
  walk_eq : ∀ nesting, walk nesting node' = walk nesting node
  tokens_eq : Token.below source node' = Token.below source node

/-- Two nodes of this kind whose children correspond, loose comments apart. -/
structure Alike (source : Source) (node node' : Node) : Prop extends Akin source node node' where
  children : Sparser (IsLoose standsIn node) (Akin source) node.children node'.children

/-- The test whether a node is at a place looks at labels only. -/
theorem isAt_eq {other other' : Option Node} (hlabel : child'.label = child.label)
    (h : Option.Rel (Alike source) other other') : child'.isAt other' = child.isAt other := by
  cases h with
  | none => rfl
  | some hab => rw [isAt, isAt, hlabel, hab.label_eq]

theorem isNamed_eq (h : Akin source child child') : child'.isNamed = child.isNamed := by
  rw [isNamed, isNamed, h.label_eq]

theorem kind_eq (h : child'.label = child.label) : child'.kind = child.kind := by
  rw [Node.kind, Node.kind, h]

theorem enter_eq (h : Akin source child child') : enter nesting child' = enter nesting child := by
  rw [enter, enter, h.walk_eq]

/-- The named children in a class without comments are as many. -/
theorem countP_namedChildren_eq {p : String → Bool} (hline : p "line_comment" = false)
    (hblock : p "block_comment" = false) (h : Alike source node node') :
    node'.namedChildren.countP (fun child => p child.kind) =
      node.namedChildren.countP fun child => p child.kind := by
  rw [namedChildren, namedChildren, List.countP_filter, List.countP_filter]
  refine h.children.countP_eq ?_ ?_
  · intro comment hloose
    rw [class_of_isComment hline hblock hloose.isComment, Bool.false_and]
  · intro child child' hakin
    rw [isNamed_eq hakin, kind_eq hakin.label_eq]

theorem walkElse_congr (h : Alike source node node') :
    walkElse nesting node' = walkElse nesting node := by
  rw [walkElse_eq, walkElse_eq, walkElseChildren_eq, walkElseChildren_eq]
  refine h.children.sumOf_eq ?_ ?_
  · intro comment hloose
    rw [walk_of_stops nesting (stops_of_isComment hloose.isComment), hloose.isComment]
    simp
  · intro child child' hakin
    rw [isNamed_eq hakin, hakin.walk_eq, enter_eq hakin, isIf, isIf, isComment, isComment,
      kind_eq hakin.label_eq]

theorem walkArms_congr (h : Alike source node node') :
    walkArms nesting node' = walkArms nesting node := by
  rw [walkArms_eq, walkArms_eq, walkArmsAmong_eq, walkArmsAmong_eq]
  refine h.children.sumOf_eq ?_ ?_
  · intro comment hloose
    have harm : comment.isArm = false := class_of_isComment (p := (· == "match_arm")) rfl rfl
      hloose.isComment
    simp [harm]
  · intro child child' hakin
    rw [isNamed_eq hakin, enter_eq hakin, isArm, isArm, kind_eq hakin.label_eq]

/-! ## From the children to their node -/

section

variable (hlabel : node'.label = node.label)
  (h : Sparser (IsLoose standsIn node) (Alike source) node.children node'.children)

include h

theorem child?_rel (field : String) (hfield : field ≠ "") :
    Option.Rel (Alike source) (node.child? field) (node'.child? field) := by
  refine h.find?_rel ?_ ?_
  · intro comment hloose
    rw [hloose.field_eq]
    exact beq_false_of_ne hfield.symm
  · intro child child' halike
    rw [halike.label_eq]

theorem child?_cases (field : String) (hfield : field ≠ "") :
    (node.child? field = none ∧ node'.child? field = none) ∨
      ∃ child child', node.child? field = some child ∧ node'.child? field = some child' ∧
        Alike source child child' := by
  have hrel := child?_rel h field hfield
  generalize node.child? field = found, node'.child? field = found' at hrel ⊢
  cases hrel with
  | none => exact .inl ⟨rfl, rfl⟩
  | some halike => exact .inr ⟨_, _, rfl, rfl, halike⟩

theorem walkNamed_congr : walkNamed nesting node'.children = walkNamed nesting node.children := by
  rw [walkNamed_eq, walkNamed_eq]
  refine h.sumOf_eq ?_ ?_
  · intro comment hloose
    rw [walk_of_stops nesting (stops_of_isComment hloose.isComment), ite_self]
  · intro child child' halike
    rw [isNamed_eq halike.toAkin, halike.walk_eq]

/-- A loose comment is not taken for the body of a loop or a closure. -/
theorem walkBody_congr (hbody : (node.isLoop || node.isClosure) = true) :
    walkBody nesting (node'.child? "body") node'.children =
      walkBody nesting (node.child? "body") node.children := by
  rw [walkBody_eq, walkBody_eq]
  have hplace := child?_rel h "body" (by decide)
  refine h.sumOf_eq ?_ ?_
  · intro comment hloose
    have hstays := hloose.stays_eq
    rw [standsIn, hbody, Bool.true_and, Bool.or_eq_false_iff] at hstays
    rw [hstays.2, walk_of_stops nesting (stops_of_isComment hloose.isComment)]
    simp
  · intro child child' halike
    rw [isNamed_eq halike.toAkin, isAt_eq halike.label_eq hplace, enter_eq halike.toAkin,
      halike.walk_eq]

/-- A loose comment is not taken for a part of a conditional. -/
theorem walkIf_congr (hif : node.isIf = true) :
    walkIf nesting (node'.child? "consequence") (node'.child? "alternative") node'.children =
      walkIf nesting (node.child? "consequence") (node.child? "alternative") node.children := by
  rw [walkIf_eq, walkIf_eq]
  have hconsequence := child?_rel h "consequence" (by decide)
  have halternative := child?_rel h "alternative" (by decide)
  refine h.sumOf_eq ?_ ?_
  · intro comment hloose
    have hstays := hloose.stays_eq
    rw [standsIn, hif, Bool.true_and, Bool.or_eq_false_iff, Bool.or_eq_false_iff] at hstays
    rw [hstays.1.1, hstays.1.2, walk_of_stops nesting (stops_of_isComment hloose.isComment)]
    simp
  · intro child child' halike
    rw [isNamed_eq halike.toAkin, isAt_eq halike.label_eq hconsequence,
      isAt_eq halike.label_eq halternative, enter_eq halike.toAkin, walkElse_congr halike,
      halike.walk_eq]

theorem walkValue_congr : walkValue nesting node'.children = walkValue nesting node.children := by
  rw [walkValue_eq, walkValue_eq]
  rcases child?_cases h "value" (by decide) with
    ⟨hnone, hnone'⟩ | ⟨child, child', hsome, hsome', halike⟩
  · rw [hnone, hnone']
  · rw [hsome, hsome']
    exact halike.walk_eq nesting

theorem walkMatchBody_congr :
    walkMatchBody nesting node'.children = walkMatchBody nesting node.children := by
  rw [walkMatchBody_eq, walkMatchBody_eq]
  rcases child?_cases h "body" (by decide) with
    ⟨hnone, hnone'⟩ | ⟨child, child', hsome, hsome', halike⟩
  · rw [hnone, hnone']
  · rw [hsome, hsome']
    exact walkArms_congr halike

theorem length_arms_eq : (arms node').length = (arms node).length := by
  unfold arms
  rcases child?_cases h "body" (by decide) with
    ⟨hnone, hnone'⟩ | ⟨child, child', hsome, hsome', halike⟩
  · rw [hnone, hnone']
  · simp only [hsome, hsome', ← List.countP_eq_length_filter]
    exact countP_namedChildren_eq (p := (· == "match_arm")) rfl rfl halike

include hlabel

theorem own_congr : own nesting node' = own nesting node := by
  have hchain : node'.children.countP isShortCircuit = node.children.countP isShortCircuit := by
    refine h.countP_eq ?_ ?_
    · intro comment hloose
      exact class_of_isComment (p := fun kind => kind == "&&" || kind == "||") rfl rfl
        hloose.isComment
    · intro child child' halike
      rw [isShortCircuit, isShortCircuit, kind_eq halike.label_eq]
  have hkind := kind_eq hlabel
  unfold own
  refine ite_congr ?_ (fun _ => ?_) fun _ => ite_congr ?_ (fun _ => ?_) fun _ =>
    ite_congr ?_ (fun _ => rfl) fun _ => rfl
  · rw [isBinary, isBinary, hkind]
  · rcases child?_cases h "operator" (by decide) with
      ⟨hnone, hnone'⟩ | ⟨child, child', hsome, hsome', halike⟩
    · rw [hnone, hnone']
    · rw [hsome, hsome']
      refine ite_congr ?_ (fun _ => rfl) fun _ => rfl
      rw [isShortCircuit, isShortCircuit, kind_eq halike.label_eq]
  · rw [isLetChain, isLetChain, hkind]
  · rw [hchain]
  · rw [isReturn, isReturn, hkind]

/-- The rules of a walk give the same for both nodes. -/
theorem walk_congr : walk nesting node' = walk nesting node := by
  have hkind := kind_eq hlabel
  rw [walk_eq, walk_eq]
  refine ite_congr ?_ (fun _ => rfl) fun _ => ite_congr ?_ (fun hif => ?_) fun _ => ?_
  · rw [isNestedItem, isNestedItem, itemKind?, itemKind?, isComment, isComment, hkind]
  · rw [isIf, isIf, hkind]
  · rw [walkIf_congr h hif]
  refine ite_congr ?_ (fun hloop => ?_) fun _ => ite_congr ?_ (fun _ => ?_) fun _ => ?_
  · rw [isLoop, isLoop, hkind]
  · rw [walkBody_congr h (by rw [hloop, Bool.true_or])]
  · rw [isMatch, isMatch, hkind]
  · rw [length_arms_eq h, walkValue_congr h, walkMatchBody_congr h]
  refine ite_congr ?_ (fun hclosure => ?_) fun _ => ?_
  · rw [isClosure, isClosure, hkind]
  · rw [walkBody_congr h (by rw [hclosure, Bool.or_true])]
  · rw [own_congr hlabel h, walkNamed_congr h]

/-- The tokens are those of the children, if there are any in either case. -/
theorem tokens_congr (hfilled : node.children ≠ [] → node'.children ≠ []) :
    Token.below source node' = Token.below source node := by
  have hkind := kind_eq hlabel
  have hempty : node'.children.isEmpty = node.children.isEmpty := by
    by_cases hnil : node.children = []
    · rw [hnil] at h
      rw [h.eq_nil, hnil]
    · rw [List.isEmpty_eq_false_iff.mpr hnil, List.isEmpty_eq_false_iff.mpr (hfilled hnil)]
  have hbelow : node'.children.flatMap (Token.below source) =
      node.children.flatMap (Token.below source) := by
    refine h.flatMap_eq ?_ fun child child' halike => halike.tokens_eq
    intro comment hloose
    rw [Token.below_eq, hloose.isComment, Bool.true_or, if_pos rfl]
  rw [Token.below_eq, Token.below_eq source node]
  refine ite_congr ?_ (fun _ => rfl) fun _ => ite_congr ?_ (fun _ => ?_) fun _ => ?_
  · rw [isNestedItem, isNestedItem, itemKind?, itemKind?, isComment, isComment, hkind]
  · rw [isOperand, isOperand, hkind]
  · rw [hlabel]
  · rw [hempty, hlabel, hbelow]

/-- Two nodes count the same if their children do, loose comments apart. -/
theorem Alike.of_sparser (hfilled : node.children ≠ [] → node'.children ≠ []) :
    Alike source node node' where
  label_eq := hlabel
  walk_eq _ := walk_congr hlabel h
  tokens_eq := tokens_congr hlabel h hfilled
  children := h.imp fun _ _ => Alike.toAkin

end

/-- Children without some of the comments below them count the same. -/
theorem Node.Thinned.sparser (source : Source) {nodes nodes' : List Node}
    (h : Thinned standsIn node nodes nodes') :
    Sparser (IsLoose standsIn node) (Alike source) nodes nodes' := by
  induction h with
  | nil => exact .nil
  | drop hloose _ ih => exact .drop hloose ih
  | keep hlabel _ hfilled _ ihBelow ihRest =>
      exact .keep (Alike.of_sparser hlabel ihBelow hfilled) ihRest

/-! ## Measures -/

namespace Complexity

theorem parameters_thinned (source : Source) (h : ThinnedTo standsIn node node') :
    parameters node' = parameters node := by
  unfold parameters
  rcases child?_cases (h.children.sparser source) "parameters" (by decide) with
    ⟨hnone, hnone'⟩ | ⟨child, child', hsome, hsome', halike⟩
  · rw [hnone, hnone']
  · rw [hsome, hsome']
    exact countP_namedChildren_eq (p := fun kind =>
      ["parameter", "self_parameter", "variadic_parameter"].contains kind) rfl rfl halike

/-- A function without some of its comments is exactly as complex as it was, if no node loses all of
its children and if no comment is dropped that stands where the walk over branches looks for a
consequence, an alternative or a body. -/
theorem ofFunction_thinned (source : Source) (h : ThinnedTo standsIn node node') :
    ofFunction source node' = ofFunction source node := by
  have hbranching : Branching.ofFunction node' = Branching.ofFunction node := by
    unfold Branching.ofFunction
    rcases child?_cases (h.children.sparser source) "body" (by decide) with
      ⟨hnone, hnone'⟩ | ⟨child, child', hsome, hsome', halike⟩
    · rw [hnone, hnone']
    · rw [hsome, hsome']
      exact halike.walk_eq 0
  have hhalstead : Halstead.ofFunction source node' = Halstead.ofFunction source node := by
    unfold Halstead.ofFunction
    rcases child?_cases (h.children.sparser source) "body" (by decide) with
      ⟨hnone, hnone'⟩ | ⟨child, child', hsome, hsome', halike⟩
    · rw [hnone, hnone']
    · rw [hsome, hsome']
      simp only [Tally.collect_eq, Token.belowAll, halike.tokens_eq]
  rw [ofFunction, ofFunction, hbranching, hhalstead, parameters_thinned source h, codeLines, codeLines,
    h.label_eq]

end Complexity

end

/-! ## Functions with and without comments -/

namespace Sample

/-- A function with comments among its parameters, before its blocks and before an alternative. -/
def chattyText : String :=
  "fn f(/*a*/x:u8)\x7bif x/*b*/\x7b1\x7d/*c*/else/*d*/\x7b2\x7d\x7d"

/-- A comment of that text. -/
def comment (start : Nat) : Node :=
  node "block_comment" "" start (start + 5) []

/-- The parameters, with some nodes in front. -/
def chattyParameters (front : List Node) : Node :=
  node "parameters" "parameters" 4 15 (front ++ [node "parameter" "" 10 14 []])

/-- The alternative, with some nodes in front. -/
def chattyClause (front : List Node) : Node :=
  node "else_clause" "alternative" 33 45
    (front ++ [node "block" "" 42 45 [node "integer_literal" "" 43 44 []]])

/-- The conditional, with some nodes before and some behind its consequence. -/
def chattyConditional (before behind : List Node) (clause : Node) : Node :=
  node "if_expression" "" 16 45
    (node "identifier" "condition" 19 20 [] :: before ++
      node "block" "consequence" 25 28 [node "integer_literal" "" 26 27 []] :: behind ++ [clause])

/-- The function around them. -/
def chattyFunction (parameters conditional : Node) : Node :=
  node "function_item" "" 0 46
    [node "identifier" "name" 3 4 [], parameters, node "block" "body" 15 46 [conditional]]

/-- The function with all its comments. -/
def chatty : Node :=
  chattyFunction (chattyParameters [comment 5])
    (chattyConditional [comment 20] [comment 28] (chattyClause [comment 37]))

/-- The function without them. -/
def quiet : Node :=
  chattyFunction (chattyParameters []) (chattyConditional [] [] (chattyClause []))

/-- A conditional with nothing but a documentation comment behind its condition. -/
def twinText : String :=
  "fn f()\x7bif x/** d */\x7d"

/-- A function around that conditional, with some nodes behind its condition. -/
def twinFunction (behind : List Node) : Node :=
  node "function_item" "" 0 20
    [node "identifier" "name" 3 4 [], node "parameters" "parameters" 4 6 [],
      node "block" "body" 6 20
        [node "if_expression" "" 7 19 (node "identifier" "condition" 10 11 [] :: behind)]]

/-- The comment as the alternative of the conditional. -/
def alternativeComment : Node :=
  node "block_comment" "alternative" 11 19 []

/-- The comment a second time, without a field. -/
def twinComment : Node :=
  node "block_comment" "" 11 19 [node "doc_comment" "doc" 14 17 []]

theorem chatty_thinned : ThinnedTo standsIn chatty quiet := by
  have hfilled {nodes : List Node} {child : Node} {rest : List Node} :
      nodes ≠ [] → child :: rest ≠ [] := fun _ => List.cons_ne_nil _ _
  have hparameters : Thinned standsIn (chattyParameters [comment 5])
      (chattyParameters [comment 5]).children (chattyParameters []).children :=
    .drop ⟨by decide, rfl, by decide⟩ (.same .nil)
  have hclause : Thinned standsIn (chattyClause [comment 37])
      (chattyClause [comment 37]).children (chattyClause []).children :=
    .drop ⟨by decide, rfl, by decide⟩ (.same .nil)
  have hloose : ∀ place ∈ [20, 28], IsLoose standsIn
      (chattyConditional [comment 20] [comment 28] (chattyClause [comment 37])) (comment place) := by
    intro place hplace
    refine ⟨rfl, rfl, ?_⟩
    revert place
    decide
  have hconditional : Thinned standsIn
      (chattyConditional [comment 20] [comment 28] (chattyClause [comment 37]))
      (chattyConditional [comment 20] [comment 28] (chattyClause [comment 37])).children
      (chattyConditional [] [] (chattyClause [])).children :=
    .same (.drop (hloose 20 (by decide)) (.same (.drop (hloose 28 (by decide))
      (.keep rfl hclause hfilled .nil))))
  exact ⟨rfl, .same (.keep rfl hparameters hfilled
    (.keep rfl (.keep rfl hconditional hfilled .nil) hfilled .nil)), hfilled⟩

end Sample

/-- The sample without its comments is as complex as with them. -/
theorem Complexity.ofFunction_thinned_sample :
    ThinnedTo standsIn Sample.chatty Sample.quiet ∧
      ofFunction Sample.chattyText.toUTF8.toList Sample.quiet =
        ofFunction Sample.chattyText.toUTF8.toList Sample.chatty ∧
      ofFunction Sample.chattyText.toUTF8.toList Sample.chatty =
        ⟨2, 1, ⟨0, 3, 0, 3⟩, 1, 1, 0, 1⟩ :=
  ⟨Sample.chatty_thinned, ofFunction_thinned _ Sample.chatty_thinned, by decide +kernel⟩

/-- If any comment without a field could be dropped, then a comment that stands in the place of an
alternative would make a difference. -/
theorem Complexity.ofFunction_thinned_twins :
    ThinnedTo (fun _ _ => false)
        (Sample.twinFunction [Sample.alternativeComment, Sample.twinComment])
        (Sample.twinFunction [Sample.alternativeComment]) ∧
      (ofFunction Sample.twinText.toUTF8.toList
        (Sample.twinFunction [Sample.alternativeComment, Sample.twinComment])).nestingDepth = 1 ∧
      (ofFunction Sample.twinText.toUTF8.toList
        (Sample.twinFunction [Sample.alternativeComment])).nestingDepth = 0 := by
  have hfilled {nodes : List Node} {child : Node} {rest : List Node} :
      nodes ≠ [] → child :: rest ≠ [] := fun _ => List.cons_ne_nil _ _
  refine ⟨⟨rfl, .same (.same (.keep rfl (.keep rfl ?_ hfilled .nil) hfilled .nil)), hfilled⟩,
    by decide +kernel, by decide +kernel⟩
  exact .same (.same (.drop ⟨rfl, rfl, rfl⟩ .nil))

end CrateAtlas
