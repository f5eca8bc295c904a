import CrateAtlas.Extraction
import CrateAtlas.Proofs.Outcome
import CrateAtlas.Proofs.Outermost

/-!
# Which syntax errors are found

The search for syntax errors keeps a stack of nodes, does not look into marked nodes, and leaves out
nodes of which the parser says that they have no error.  If the parser tells of errors from node to
node, the search still comes to every outermost marked node, in pre-order, so that a file with syntax
errors is refused with the point of the first of them.

Main results:

- Theorem {lit}`hasError_iff`: the parser says that a tree has an error when one of its nodes is
  marked.
- Theorem {lit}`searchFaults_eq`: the search finds the outermost marked nodes of its stack.
- Theorem {lit}`ParsedFile.read_faultLaws`: the laws of the search, and when a file is refused for
  its syntax errors.
-/

namespace CrateAtlas

namespace Node

/-- Whether a node is marked. -/
def isFaulty (node : Node) : Bool :=
  node.label.faulty

variable {root node : Node} {nodes : List Node} {position : Position} {source : Source}

/-! ## Trees with errors -/

/-- What the parser says about errors at a node agrees with what it says about the children: there is
an error if the node is marked, or if there is one at or below a child, and otherwise there is
none. -/
def tellsErrors (node : Node) : Bool :=
  node.hasError == (node.isFaulty || node.children.any hasError)

/-- If the parser tells of errors from node to node, it says that there is an error exactly when a
node of the tree is marked. -/
theorem hasError_iff (htells : root.everywhere tellsErrors = true) :
    root.hasError = true ↔ ∃ position node, root.at? position = some node ∧
      node.isFaulty = true := by
  induction root using inductionOn_children with
  | step root ih =>
      obtain ⟨hroot, hchildren⟩ := everywhere_iff.mp htells
      rw [eq_of_beq hroot, Bool.or_eq_true, List.any_eq_true]
      constructor
      · rintro (hroot | ⟨child, hchild, herror⟩)
        · exact ⟨[], root, rfl, hroot⟩
        · obtain ⟨position, node, hat, hnode⟩ :=
            (ih child hchild (hchildren child hchild)).mp herror
          obtain ⟨i, hget⟩ := List.mem_iff_getElem?.mp hchild
          exact ⟨i :: position, node, at?_cons_eq_some_iff.mpr ⟨child, hget, hat⟩, hnode⟩
      · rintro ⟨position, node, hat, hnode⟩
        cases position with
        | nil =>
            obtain rfl := Option.some.inj hat
            exact .inl hnode
        | cons i rest =>
            obtain ⟨child, hget, hat⟩ := at?_cons_eq_some_iff.mp hat
            have hchild := List.mem_of_getElem? hget
            exact .inr ⟨child, hchild,
              (ih child hchild (hchildren child hchild)).mpr ⟨rest, node, hat, hnode⟩⟩

/-- Then there is an error exactly when there is an outermost marked node. -/
theorem hasError_iff_outermost (htells : root.everywhere tellsErrors = true) :
    root.hasError = true ↔ outermost isFaulty root ≠ [] := by
  rw [hasError_iff htells]
  constructor
  · rintro ⟨position, node, hat, hnode⟩
    obtain ⟨front, -, above, -, habove, -⟩ := exists_outermostAt hat hnode
    exact List.ne_nil_of_mem (mem_outermost_iff.mpr habove)
  · intro hne
    obtain ⟨⟨position, node⟩, hmem⟩ := List.exists_mem_of_ne_nil _ hne
    have hat := mem_outermost_iff.mp hmem
    exact ⟨position, node, hat.at?_eq, hat.holds⟩

/-! ## The search -/

/-- The search finds the outermost marked nodes of its stack, from the top down. -/
theorem searchFaults_eq {stack : List Node}
    (htells : ∀ node ∈ stack, node.everywhere tellsErrors = true) :
    searchFaults stack = (outermostIn isFaulty stack).map label := by
  induction stack using searchFaults.induct with
  | case1 => rw [searchFaults, outermostIn_nil, List.map_nil]
  | case2 label children rest hfaulty ih =>
      have hmarked : (Node.mk label children).isFaulty = true := hfaulty
      rw [searchFaults, if_pos hfaulty, ih (List.forall_mem_cons.mp htells).2, outermostIn_cons,
        if_pos hmarked]
      rfl
  | case3 label children rest hclear herror ih =>
      obtain ⟨hnode, hrest⟩ := List.forall_mem_cons.mp htells
      have hmarked : ¬(Node.mk label children).isFaulty = true := hclear
      have hstack : ∀ node ∈ children ++ rest, node.everywhere tellsErrors = true :=
        List.forall_mem_append.mpr ⟨(everywhere_iff.mp hnode).2, hrest⟩
      rw [searchFaults, if_neg hclear, if_pos herror, ih hstack, outermostIn_cons, if_neg hmarked,
        children_mk, outermostIn_append]
  | case4 label children rest hclear herror ih =>
      obtain ⟨hnode, hrest⟩ := List.forall_mem_cons.mp htells
      -- Below a node that is left out there is nothing to be found.
      have hnone : outermost isFaulty (.mk label children) = [] := by
        by_contra hne
        exact herror ((hasError_iff_outermost hnode).mpr hne)
      rw [searchFaults, if_neg hclear, if_neg herror, ih hrest]
      conv_rhs => rw [outermostIn, List.flatMap_cons, hnone, List.map_nil, List.nil_append]
      rfl

theorem faults_eq (htells : root.everywhere tellsErrors = true) :
    root.faults = (outermost isFaulty root).map fun found => found.2.label := by
  have hsearch :
      searchFaults [root] = (outermost isFaulty root).map fun found => found.2.label := by
    rw [searchFaults_eq (List.forall_mem_singleton.mpr htells), outermostIn_singleton, List.map_map]
    rfl
  unfold faults
  split
  next => exact hsearch
  next herror =>
    have hnone : outermost isFaulty root = [] := by
      by_contra hne
      exact herror ((hasError_iff_outermost htells).mpr hne)
    rw [hnone, List.map_nil]

theorem firstFault?_eq (source : Source) (htells : root.everywhere tellsErrors = true) :
    root.firstFault? source =
      (outermost isFaulty root).head?.map fun found => source.point found.2.label.start := by
  rw [firstFault?, faults_eq htells, List.head?_map, Option.map_map]
  rfl

/-! ## The first error -/

/-- There is a first error exactly when the parser says that there is one. -/
theorem firstFault?_isSome_iff (htells : root.everywhere tellsErrors = true) :
    (root.firstFault? source).isSome = true ↔ root.hasError = true := by
  rw [firstFault?_eq source htells, Option.isSome_map, List.isSome_head?,
    hasError_iff_outermost htells]

/-- If the tree is laid out over its source, no marked node starts before the first of the outermost
ones. -/
theorem start_le_of_head? (hlaid : root.everywhere laidOut = true) {first : Position × Node}
    (hfirst : (outermost isFaulty root).head? = some first) (hat : root.at? position = some node)
    (hnode : node.isFaulty = true) : first.2.label.start ≤ node.label.start := by
  obtain ⟨front, back, above, -, habove, hback⟩ := exists_outermostAt hat hnode
  have hmem := mem_outermost_iff.mpr habove
  have hbelow := (span_at? (everywhere_at? (holdsChildren_of_laidOut hlaid) habove.at?_eq) hback).1
  have hturn := List.pairwise_map.mp (outermost_inTurn (p := isFaulty) hlaid)
  obtain ⟨later, hlist⟩ := List.head?_eq_some_iff.mp hfirst
  rw [hlist] at hmem hturn
  rcases List.mem_cons.mp hmem with heq | hlater
  · rw [← heq]
    exact hbelow
  · -- The first one ends before all later ones start.
    have hafter := (List.pairwise_cons.mp hturn).1 _ hlater
    have hplace : first ∈ outermost isFaulty root := hlist ▸ List.mem_cons_self
    have hspan := (everywhere_iff.mp (everywhere_at? hlaid (mem_outermost_iff.mp hplace).at?_eq)).1
    exact Nat.le_trans (Nat.le_trans (laidOut_iff.mp hspan).1 hafter) hbelow

/-- What holds of the search for syntax errors in a tree. -/
structure FaultLaws (source : Source) (root : Node) : Prop where
  /-- The faults are the marked nodes below no other marked node, each once and in pre-order, and
  the first fault is the point where the first of them starts. -/
  listed : ∃ found : List (Position × Node),
    (found.map Prod.fst).Pairwise (· < ·) ∧
    (∀ position node, (position, node) ∈ found ↔ OutermostAt isFaulty root position node) ∧
    root.faults.length = found.length ∧
    root.firstFault? source = found.head?.map fun first => source.point first.2.label.start
  /-- There is a first fault exactly when the parser says that the tree has an error, and so it says
  exactly when there is a marked node. -/
  present : (root.firstFault? source).isSome = true ↔ root.hasError = true
  marked : root.hasError = true ↔
    ∃ position node, root.at? position = some node ∧ node.isFaulty = true
  /-- If spans nest and siblings stand one after the other, no marked node of the tree starts before
  the first fault. -/
  earliest : root.everywhere laidOut = true → ∀ point, root.firstFault? source = some point →
    ∀ position node, root.at? position = some node → node.isFaulty = true →
      ¬Source.Precedes (source.point node.label.start) point

theorem faultLaws (source : Source) (htells : root.everywhere tellsErrors = true) :
    FaultLaws source root where
  listed := by
    refine ⟨outermost isFaulty root, outermost_ordered _ _, fun _ _ => mem_outermost_iff, ?_,
      firstFault?_eq source htells⟩
    rw [faults_eq htells, List.length_map]
  present := firstFault?_isSome_iff htells
  marked := hasError_iff htells
  earliest := by
    intro hlaid point hpoint position node hat hnode
    rw [firstFault?_eq source htells, Option.map_eq_some_iff] at hpoint
    obtain ⟨first, hfirst, rfl⟩ := hpoint
    exact source.not_precedes_point (start_le_of_head? hlaid hfirst hat hnode)

end Node

/-! ## Refused files -/

namespace ParsedFile

variable {path place detail : String} {limit : Int} {line column : Option Int}

/-- A file that is small enough and decodes is refused for its syntax exactly when the parser says that
it has errors, with the number of the faults that are found and the point of the first one, if one
is found. -/
theorem ofContent_eq_parse_iff {content : FileContent} :
    ofContent path limit content = .error (.parse place detail line column) ↔
      (content.bytes.length : Int) ≤ limit ∧ (∃ text, Text.Utf8.decode content.bytes = .ok text) ∧
        content.root.hasError = true ∧
        place = path ∧ detail = s!"{content.root.faults.length} syntax error node(s)" ∧
        line = (content.root.firstFault? content.bytes).map (fun point => (point.1 : Int)) ∧
        column = (content.root.firstFault? content.bytes).map (fun point => (point.2 : Int)) := by
  unfold ofContent
  split
  next hlarge =>
    constructor
    · intro h
      cases h
    · rintro ⟨hle, -⟩
      exact absurd hlarge (Int.not_lt.mpr hle)
  next hfits =>
    have hle : (content.bytes.length : Int) ≤ limit := Int.not_lt.mp hfits
    split
    next hdecode => simp [hdecode]
    next text hdecode =>
      rw [hdecode]
      split
      next herror => simp [hle, herror, eq_comm]
      next herror => simp [herror]

/-- A file is refused for its syntax exactly when it can be read, is small enough, decodes, and the
parser says that it has errors. -/
theorem read_eq_parse_iff {top : FileTree} :
    read top path limit = .error (.file (.parse place detail line column)) ↔
      ∃ content, top.fileAt path = .ok content ∧
        ofContent path limit content = .error (.parse place detail line column) := by
  unfold read
  cases hfile : top.fileAt path with
  | error error => cases error <;> simp
  | ok content =>
      simp only [Except.ok.injEq, exists_eq_left']
      cases ofContent path limit content <;> simp [Except.mapError]

/-- The search for syntax errors obeys its laws in every tree of a parser that tells of errors from
node to node.  A file with such a tree is refused for its syntax exactly when it can be read, is small
enough, decodes and has errors, and then always with a line and a column, those of the first
error. -/
theorem read_faultLaws (top : FileTree) (path : String) (limit : Int)
    (htells : ∀ content, top.fileAt path = .ok content →
      content.root.everywhere Node.tellsErrors = true) :
    (∀ source (root : Node), root.everywhere Node.tellsErrors = true →
      Node.FaultLaws source root) ∧
    ∀ place detail line column,
      read top path limit = .error (.file (.parse place detail line column)) ↔
        ∃ content, top.fileAt path = .ok content ∧ (content.bytes.length : Int) ≤ limit ∧
          (∃ text, Text.Utf8.decode content.bytes = .ok text) ∧ content.root.hasError = true ∧
          ∃ row col : Nat, content.root.firstFault? content.bytes = some (row, col) ∧
            place = path ∧ detail = s!"{content.root.faults.length} syntax error node(s)" ∧
            line = some (row : Int) ∧ column = some (col : Int) := by
  refine ⟨fun source _ hroot => Node.faultLaws source hroot, ?_⟩
  intro place detail line column
  rw [read_eq_parse_iff]
  apply exists_congr
  intro content
  apply and_congr_right
  intro hfile
  rw [ofContent_eq_parse_iff]
  apply and_congr_right
  intro _
  apply and_congr_right
  intro _
  apply and_congr_right
  intro herror
  -- The parser says that there is an error, and so the search comes to a first one.
  have hsome : (content.root.firstFault? content.bytes).isSome = true :=
    (Node.firstFault?_isSome_iff (htells content hfile)).mpr herror
  obtain ⟨⟨row, col⟩, hpoint⟩ := Option.isSome_iff_exists.mp hsome
  simp [hpoint]

end ParsedFile

/-! ## A file with a mark below another one -/

namespace Sample

/-- A function with a stray sign on its second line and no semicolon. -/
def brokenText : String :=
  "fn f()\x7b\n@1\x7d\n"

/-- A named node at or below which there is an error. -/
def faultyNode (kind field : String) (start stop : Nat) (children : List Node) : Node :=
  .mk ⟨kind, true, false, false, start, stop, field, true⟩ children

/-- The tree of that text: the sign and the node around it are marked, and a semicolon is put in. -/
def brokenRoot : Node :=
  faultyNode "source_file" "" 0 12
    [faultyNode "function_item" "" 0 11
      [node "identifier" "name" 3 4 [],
        faultyNode "block" "body" 6 11
          [.mk ⟨"ERROR", true, false, true, 8, 9, "", true⟩
              [.mk ⟨"ERROR", false, false, true, 8, 9, "", true⟩ []],
            node "integer_literal" "" 9 10 [],
            .mk ⟨";", false, true, false, 10, 10, "", true⟩ []]]]

/-- The text as the only file of a tree. -/
def brokenTop : FileTree :=
  .directory [("a.rs", .file ⟨brokenText.toUTF8.toList, brokenRoot, none, false⟩)]

end Sample

/-- The file is refused for two errors, the first of them at the start of the second line; the tree
is laid out over the text, and the mark below the first error is not earlier. -/
theorem ParsedFile.read_faultLaws_sample :
    ParsedFile.read Sample.brokenTop "/a.rs" 100 =
        .error (.file (.parse "/a.rs" "2 syntax error node(s)" (some 2) (some 0))) ∧
      Sample.brokenRoot.everywhere Node.tellsErrors = true ∧
      Sample.brokenRoot.everywhere Node.laidOut = true ∧
      ¬Source.Precedes (Source.point Sample.brokenText.toUTF8.toList 8) (2, 0) := by
  have hread : ParsedFile.read Sample.brokenTop "/a.rs" 100 =
      .error (.file (.parse "/a.rs" "2 syntax error node(s)" (some 2) (some 0))) := by
    rw [← Outcome.map_eq_error_iff (f := ParsedFile.path)]
    decide +kernel
  have htells : Sample.brokenRoot.everywhere Node.tellsErrors = true := by
    decide +kernel
  have hlaid : Sample.brokenRoot.everywhere Node.laidOut = true := by
    decide +kernel
  have hfile : Sample.brokenTop.fileAt "/a.rs" =
      .ok ⟨Sample.brokenText.toUTF8.toList, Sample.brokenRoot, none, false⟩ := by
    rfl
  have hlaws := ParsedFile.read_faultLaws Sample.brokenTop "/a.rs" 100 fun content hcontent =>
    Except.ok.inj (hfile.symm.trans hcontent) ▸ htells
  obtain ⟨content, hcontent, -, -, -, row, col, hpoint, -, -, hline, hcolumn⟩ :=
    (hlaws.2 _ _ _ _).mp hread
  obtain rfl := Except.ok.inj (hfile.symm.trans hcontent)
  obtain rfl : row = 2 := Int.ofNat.inj (Option.some.inj hline).symm
  obtain rfl : col = 0 := Int.ofNat.inj (Option.some.inj hcolumn).symm
  exact ⟨hread, htells, hlaid, (hlaws.1 _ _ htells).earliest hlaid _ hpoint [0, 1, 0, 0] _ rfl rfl⟩

end CrateAtlas
