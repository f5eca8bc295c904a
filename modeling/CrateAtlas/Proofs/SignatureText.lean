import CrateAtlas.Proofs.HeaderComments
import CrateAtlas.Proofs.Utf8Cuts
import Mathlib.Data.List.DropRight

/-!
# The text of a signature

A signature is made from the bytes of its header, from the start of the declaration to its body, value
or name.  Each comment in the header becomes one space; the words of what is left are written one
space apart, without the signs at the end.

Main results:

- Theorem {lit}`Text.trimChars_collapseChars`: collapsing and trimming leaves the words.
- Theorem {lit}`Signature.intercalate_piecesFrom`: the pieces between the comments are the header
  without its comments.
- Theorem {lit}`Signature.headerEnd_iff`: a signature stops where its header ends.
- Theorem {lit}`Signature.render_signatureLaws`: what a signature says, that no byte of a comment is in it,
  and that it does not depend on anything but its header.
-/

namespace CrateAtlas

/-! ## Words -/

namespace Text

variable {c : Char} {cs word : List Char}

/-- The words of a text: its longest stretches without a blank. -/
def words (cs : List Char) : List (List Char) :=
  (cs.splitOnP isBlank).filter fun word => !word.isEmpty

/-- A stretch without a blank, up to a blank, is a word. -/
theorem words_append_cons (hne : word ≠ []) (hword : ∀ d ∈ word, isBlank d = false)
    (hc : isBlank c = true) : words (word ++ c :: cs) = word :: words cs := by
  rw [words, List.splitOnP_append_cons_of_forall_mem hword c hc, List.filter_cons, if_pos]
  · rfl
  · simpa using hne

theorem words_cons_of_isBlank (hc : isBlank c = true) : words (c :: cs) = words cs := by
  rw [words, List.splitOnP_cons_eq_if_modifyHead, if_pos hc]
  rfl

theorem words_eq_singleton (hne : word ≠ []) (hword : ∀ d ∈ word, isBlank d = false) :
    words word = [word] := by
  rw [words, List.splitOnP_eq_singleton hword, List.filter_cons, if_pos (by simpa using hne)]
  rfl

theorem trimEndChars_append_of_forall (hcs : ∀ d ∈ cs, isBlank d = true) :
    trimEndChars (word ++ cs) = trimEndChars word := by
  rw [trimEndChars, List.reverse_append,
    List.dropWhile_append_of_pos fun d hd => hcs d (List.mem_reverse.mp hd)]
  rfl

theorem trimEndChars_append_of_ne_nil (hcs : trimEndChars cs ≠ []) :
    trimEndChars (word ++ cs) = word ++ trimEndChars cs := by
  have hne : (cs.reverse.dropWhile isBlank).isEmpty = false := by
    simpa [trimEndChars] using hcs
  rw [trimEndChars, trimEndChars, List.reverse_append, List.dropWhile_append, hne,
    if_neg Bool.false_ne_true, List.reverse_append, List.reverse_reverse]

theorem trimEndChars_eq_self (hword : ∀ d ∈ word, isBlank d = false) : trimEndChars word = word := by
  have hkeep : word.reverse.dropWhile isBlank = word.reverse := by
    cases hrev : word.reverse with
    | nil => rfl
    | cons d rest =>
        have hd := hword d (List.mem_reverse.mp (hrev ▸ List.mem_cons_self))
        rw [List.dropWhile_cons, hd, if_neg Bool.false_ne_true]
  rw [trimEndChars, hkeep, List.reverse_reverse]

theorem forall_isBlank_of_trimEndChars_eq_nil (h : trimEndChars cs = []) :
    ∀ d ∈ cs, isBlank d = true := by
  intro d hd
  rw [trimEndChars, List.reverse_eq_nil_iff, List.dropWhile_eq_nil_iff] at h
  exact h d (List.mem_reverse.mpr hd)

theorem intercalate_words_ne_nil (hne : words cs ≠ []) : [' '].intercalate (words cs) ≠ [] := by
  cases hwords : words cs with
  | nil => exact (hne hwords).elim
  | cons first rest =>
      have hfirst : first ∈ words cs := hwords ▸ List.mem_cons_self
      have hfilled : first ≠ [] := by
        simpa using (List.mem_filter.mp hfirst).2
      cases rest with
      | nil => simpa using hfilled
      | cons second later =>
          rw [List.intercalate_cons_cons]
          simp [hfilled]

/-- After a blank, a collapsed text is its words, one space apart; behind the start of a word, that
word goes on. -/
theorem trimEndChars_collapseFrom (cs : List Char) :
    trimEndChars (collapseFrom true cs) = [' '].intercalate (words cs) ∧
      ∀ word, word ≠ [] → (∀ d ∈ word, isBlank d = false) →
        trimEndChars (word ++ collapseFrom false cs) = [' '].intercalate (words (word ++ cs)) := by
  induction cs with
  | nil =>
      refine ⟨rfl, ?_⟩
      intro word hne hword
      rw [collapseFrom, List.append_nil, trimEndChars_eq_self hword, words_eq_singleton hne hword,
        List.intercalate_singleton]
  | cons c cs ih =>
      obtain ⟨ihAfter, ihWord⟩ := ih
      cases hc : isBlank c with
      | true =>
          constructor
          · rw [collapseFrom, hc, if_pos rfl, if_pos rfl, words_cons_of_isBlank hc, ihAfter]
          · intro word hne hword
            rw [collapseFrom, hc, if_pos rfl, if_neg Bool.false_ne_true,
              words_append_cons hne hword hc]
            by_cases hlast : words cs = []
            · -- Only blanks are left.
              rw [hlast, List.intercalate_nil] at ihAfter
              rw [hlast, List.intercalate_singleton, trimEndChars_append_of_forall,
                trimEndChars_eq_self hword]
              exact List.forall_mem_cons.mpr
                ⟨isBlank_space, forall_isBlank_of_trimEndChars_eq_nil ihAfter⟩
            · obtain ⟨next, later, hnext⟩ := List.exists_cons_of_ne_nil hlast
              have hmore : trimEndChars (collapseFrom true cs) ≠ [] :=
                ihAfter ▸ intercalate_words_ne_nil hlast
              rw [List.append_cons, trimEndChars_append_of_ne_nil hmore, ihAfter, hnext,
                List.intercalate_cons_cons]
      | false =>
          have hgrow : ∀ word, (∀ d ∈ word, isBlank d = false) →
              trimEndChars (word ++ c :: collapseFrom false cs) =
                [' '].intercalate (words (word ++ c :: cs)) := by
            intro word hword
            rw [List.append_cons, List.append_cons word c cs]
            refine ihWord _ (by simp) ?_
            intro d hd
            rcases List.mem_append.mp hd with hmem | hlast
            · exact hword d hmem
            · rw [List.mem_singleton.mp hlast]
              exact hc
          constructor
          · rw [collapseFrom, hc, if_neg Bool.false_ne_true]
            exact hgrow [] (by simp)
          · intro word _ hword
            rw [collapseFrom, hc, if_neg Bool.false_ne_true]
            exact hgrow word hword

theorem trimStartChars_collapseFrom (afterBlank : Bool) (cs : List Char) :
    trimStartChars (collapseFrom afterBlank cs) = collapseFrom true cs := by
  induction cs generalizing afterBlank with
  | nil => rfl
  | cons c cs ih =>
      cases hc : isBlank c with
      | true =>
          cases afterBlank with
          | true => simpa [collapseFrom, hc] using ih true
          | false => simpa [collapseFrom, hc, trimStartChars] using ih true
      | false => simp [collapseFrom, hc, trimStartChars]

/-- A text that is collapsed and trimmed has its words, one space apart. -/
theorem trimChars_collapseChars (cs : List Char) :
    trimChars (collapseChars cs) = [' '].intercalate (words cs) := by
  rw [trimChars, collapseChars, trimStartChars_collapseFrom]
  exact (trimEndChars_collapseFrom cs).1

/-- The words have all characters that are not blank. -/
theorem flatten_words (cs : List Char) : (words cs).flatten = cs.filter fun c => !isBlank c := by
  rw [words, List.flatten_filter_not_isEmpty]
  induction cs with
  | nil => rfl
  | cons c cs ih =>
      rw [List.splitOnP_cons_eq_if_modifyHead, List.filter_cons]
      cases hc : isBlank c with
      | true => exact ih
      | false =>
          obtain ⟨first, rest, hsplit⟩ := List.exists_cons_of_ne_nil
            (List.splitOnP_ne_nil isBlank cs)
          rw [hsplit] at ih ⊢
          rw [← ih]
          rfl

/-- Without anything between them, texts are one behind the other. -/
theorem intercalate_of_nil (texts : List (List Char)) : [].intercalate texts = texts.flatten := by
  induction texts with
  | nil => rfl
  | cons first rest ih =>
      cases rest with
      | nil => simp
      | cons second later =>
          rw [List.intercalate_cons_cons, ih, List.append_nil]
          rfl

/-- Spaces between texts add no character that is not blank. -/
theorem filter_intercalate_space (texts : List (List Char)) :
    ([' '].intercalate texts).filter (fun c => !isBlank c) =
      texts.flatten.filter fun c => !isBlank c := by
  induction texts with
  | nil => rfl
  | cons first rest ih =>
      cases rest with
      | nil => simp
      | cons second later =>
          rw [List.intercalate_cons_cons, List.filter_append, ih, List.filter_append,
            List.flatten_cons, List.filter_append]
          simp

end Text

namespace Source

variable {source : Source} {first middle last : Nat}

theorem slice_append (source : Source) (hfirst : first ≤ middle) (hlast : middle ≤ last) :
    source.slice first last = source.slice first middle ++ source.slice middle last := by
  have hcut := List.take_append_drop (middle - first) (source.slice first last)
  unfold slice at hcut ⊢
  rw [List.take_drop, List.take_take, List.drop_drop, Nat.add_sub_cancel' hfirst,
    Nat.min_eq_left hlast] at hcut
  exact hcut.symm

theorem length_slice (h : last ≤ source.length) : (source.slice first last).length = last - first := by
  rw [slice, List.length_drop, List.length_take, Nat.min_eq_left h]

end Source

namespace Signature

open Node

variable {source : Source} {node : Node} {filler bytes : List UInt8} {spans rest : List (Nat × Nat)}
  {first last offset place stop : Nat} {byte : UInt8}

/-! ## Cutting stretches out -/

/-- What is left of a byte when some stretches are cut out: the filler for each stretch that starts
there, and the byte, unless it lies in one of the stretches. -/
def leftAt (filler : List UInt8) (spans : List (Nat × Nat)) (byte : UInt8) (place : Nat) :
    List UInt8 :=
  ((spans.filter fun span => span.1 == place).flatMap fun _ => filler) ++
    if spans.any fun span => decide (span.1 ≤ place) && decide (place < span.2) then [] else [byte]

/-- Bytes, the first of which stands at {lit}`offset`, with some stretches cut out and the filler in
their places. -/
def cutOut (filler : List UInt8) (spans : List (Nat × Nat)) (offset : Nat) (bytes : List UInt8) :
    List UInt8 :=
  (bytes.zipIdx offset).flatMap fun (byte, place) => leftAt filler spans byte place

theorem cutOut_cons : cutOut filler spans offset (byte :: bytes) =
    leftAt filler spans byte offset ++ cutOut filler spans (offset + 1) bytes :=
  rfl

theorem cutOut_append (xs ys : List UInt8) : cutOut filler spans offset (xs ++ ys) =
    cutOut filler spans offset xs ++ cutOut filler spans (offset + xs.length) ys := by
  rw [cutOut, List.zipIdx_append, List.flatMap_append]
  rfl

/-- What is left depends on what is left of each byte. -/
theorem cutOut_congr {spans' : List (Nat × Nat)} (h : ∀ byte place, offset ≤ place →
      place < offset + bytes.length → leftAt filler spans byte place = leftAt filler spans' byte place) :
    cutOut filler spans offset bytes = cutOut filler spans' offset bytes := by
  refine List.flatMap_congr ?_
  rintro ⟨byte, place⟩ hmem
  have hplace := List.mem_zipIdx hmem
  exact h byte place (by omega) (by omega)

theorem cutOut_of_nil : cutOut filler [] offset bytes = bytes := by
  induction bytes generalizing offset with
  | nil => rfl
  | cons byte bytes ih =>
      rw [cutOut_cons, ih]
      rfl

/-- A stretch makes no difference before and behind it. -/
theorem leftAt_cons_of_outside (h : place < first ∨ last ≤ place ∧ first ≠ place) :
    leftAt filler ((first, last) :: rest) byte place = leftAt filler rest byte place := by
  have hstart : ¬(first == place) = true := by
    rw [beq_iff_eq]
    omega
  have hcover : (decide (first ≤ place) && decide (place < last)) = false := by
    rw [Bool.and_eq_false_iff, decide_eq_false_iff_not, decide_eq_false_iff_not]
    omega
  rw [leftAt, leftAt, List.filter_cons, if_neg hstart, List.any_cons, hcover, Bool.false_or]

theorem leftAt_of_before (h : ∀ span ∈ spans, place < span.1) :
    leftAt filler spans byte place = [byte] := by
  induction spans with
  | nil => rfl
  | cons span rest ih =>
      obtain ⟨hspan, hrest⟩ := List.forall_mem_cons.mp h
      rw [leftAt_cons_of_outside (.inl hspan), ih hrest]

/-- In a stretch nothing is left, and its filler stands at its start. -/
theorem leftAt_cons_of_inside (hfirst : first ≤ place) (hlast : place < last)
    (hrest : ∀ span ∈ rest, place < span.1) :
    leftAt filler ((first, last) :: rest) byte place = if first = place then filler else [] := by
  have hnone : (rest.filter fun span => span.1 == place) = [] := by
    refine List.filter_eq_nil_iff.mpr ?_
    intro span hspan heq
    exact Nat.ne_of_gt (hrest span hspan) (beq_iff_eq.mp heq)
  have hcover : (decide (first ≤ place) && decide (place < last)) = true := by
    rw [decide_eq_true hfirst, decide_eq_true hlast, Bool.and_self]
  rw [leftAt, List.any_cons, hcover, Bool.true_or, if_pos rfl, List.append_nil, List.filter_cons,
    hnone]
  by_cases hstart : first = place
  · simp [hstart]
  · simp [hstart]

/-- At an empty stretch its filler is put in. -/
theorem leftAt_cons_of_empty :
    leftAt filler ((first, first) :: rest) byte first = filler ++ leftAt filler rest byte first := by
  have hcover : (decide (first ≤ first) && decide (first < first)) = false := by simp
  rw [leftAt, leftAt, List.any_cons, hcover, Bool.false_or, List.filter_cons, if_pos (beq_self_eq_true _),
    List.flatMap_cons, List.append_assoc]

/-- The place of a stretch is taken by its filler. -/
theorem cutOut_cons_span (hwidth : first ≤ last) (hfirst : first < stop) (hlast : last ≤ stop)
    (hstop : stop ≤ source.length) (hrest : ∀ span ∈ rest, last ≤ span.1) :
    cutOut filler ((first, last) :: rest) first (source.slice first stop) =
      filler ++ cutOut filler rest last (source.slice last stop) := by
  rcases Nat.eq_or_lt_of_le hwidth with rfl | hlt
  · have hlen : (source.slice first stop).length = stop - first := source.length_slice hstop
    cases hbytes : source.slice first stop with
    | nil =>
        rw [hbytes, List.length_nil] at hlen
        omega
    | cons byte bytes =>
        rw [cutOut_cons, cutOut_cons, leftAt_cons_of_empty, List.append_assoc]
        congr 2
        refine cutOut_congr ?_
        intro byte place hplace _
        exact leftAt_cons_of_outside (.inr (by omega))
  · have hinside : cutOut filler ((first, last) :: rest) first (source.slice first last) = filler := by
      have hlen : (source.slice first last).length = last - first :=
        source.length_slice (Nat.le_trans hlast hstop)
      cases hbytes : source.slice first last with
      | nil =>
          rw [hbytes, List.length_nil] at hlen
          omega
      | cons byte bytes =>
          rw [hbytes, List.length_cons] at hlen
          rw [cutOut_cons, leftAt_cons_of_inside (Nat.le_refl _) hlt
            fun span hspan => Nat.lt_of_lt_of_le hlt (hrest span hspan), if_pos rfl,
            List.append_right_eq_self]
          refine List.flatMap_eq_nil_iff.mpr ?_
          rintro ⟨byte, place⟩ hmem
          have hplace := List.mem_zipIdx hmem
          have hnone : leftAt filler ((first, last) :: rest) byte place =
              if first = place then filler else [] :=
            leftAt_cons_of_inside (by omega) (by omega)
              fun span hspan => Nat.lt_of_lt_of_le (by omega) (hrest span hspan)
          exact hnone.trans (if_neg (by omega))
    have hbehind : cutOut filler ((first, last) :: rest) last (source.slice last stop) =
        cutOut filler rest last (source.slice last stop) := by
      refine cutOut_congr ?_
      intro byte place hplace _
      exact leftAt_cons_of_outside (.inr (by omega))
    rw [source.slice_append hwidth hlast, cutOut_append, hinside,
      source.length_slice (Nat.le_trans hlast hstop), Nat.add_sub_cancel' hwidth, hbehind]

/-! ## The pieces between the comments -/

/-- Stretches that lie between a position and the end of a header, one after the other. -/
structure InTurn (position stop : Nat) (spans : List (Nat × Nat)) : Prop where
  ordered : spans.Pairwise fun a b => a.2 ≤ b.1
  within : ∀ span ∈ spans, position ≤ span.1 ∧ span.1 ≤ span.2 ∧ span.1 < stop ∧ span.2 ≤ stop

theorem InTurn.tail {position : Nat} (h : InTurn position stop ((first, last) :: rest)) :
    InTurn last stop rest where
  ordered := (List.pairwise_cons.mp h.ordered).2
  within := by
    intro span hspan
    have hafter := (List.pairwise_cons.mp h.ordered).1 span hspan
    exact ⟨hafter, (h.within span (List.mem_cons_of_mem _ hspan)).2⟩

theorem piecesFrom_ne_nil (position : Nat) : piecesFrom source stop position spans ≠ [] := by
  cases spans with
  | nil => exact List.cons_ne_nil _ _
  | cons span rest => exact List.cons_ne_nil _ _

/-- Between the stretches that are cut out lie the pieces. -/
theorem intercalate_piecesFrom (filler : List UInt8) (hstop : stop ≤ source.length) {position : Nat}
    (h : InTurn position stop spans) :
    filler.intercalate (piecesFrom source stop position spans) =
      cutOut filler spans position (source.slice position stop) := by
  induction spans generalizing position with
  | nil => rw [piecesFrom, List.intercalate_singleton, cutOut_of_nil]
  | cons span rest ih =>
      obtain ⟨first, last⟩ := span
      obtain ⟨hposition, hwidth, hfirst, hlast⟩ := h.within _ List.mem_cons_self
      have hmove : max position last = last := Nat.max_eq_right (Nat.le_trans hposition hwidth)
      have hrest : ∀ span ∈ rest, last ≤ span.1 := (List.pairwise_cons.mp h.ordered).1
      -- Before the first stretch all bytes are left.
      have hbefore : cutOut filler ((first, last) :: rest) position (source.slice position first) =
          source.slice position first := by
        refine (cutOut_congr ?_).trans cutOut_of_nil
        intro byte place _ hplace
        rw [source.length_slice (by omega)] at hplace
        refine leftAt_of_before (List.forall_mem_cons.mpr ⟨by omega, ?_⟩)
        intro span hspan
        have hafter := hrest span hspan
        omega
      rw [piecesFrom, hmove, List.intercalate_cons_of_ne_nil (piecesFrom_ne_nil last), ih h.tail,
        source.slice_append hposition (Nat.le_of_lt hfirst), cutOut_append, hbefore,
        source.length_slice (by omega), Nat.add_sub_cancel' hposition,
        cutOut_cons_span hwidth hfirst hlast hstop hrest, List.append_assoc]

/-! ## Decoding the pieces -/

open Text.Utf8

theorem spells_intercalate {fill : List Char} {pieces : List (List UInt8)} {texts : List (List Char)}
    (hfill : Spells filler fill) (h : List.Forall₂ Spells pieces texts) :
    Spells (filler.intercalate pieces) (fill.intercalate texts) := by
  induction h with
  | nil => exact spells_nil
  | cons hhere hrest ih =>
      cases hrest with
      | nil =>
          rw [List.intercalate_singleton, List.intercalate_singleton]
          exact hhere
      | cons _ _ =>
          rw [List.intercalate_cons_cons, List.intercalate_cons_cons]
          exact (hhere.append hfill).append ih

/-- The pieces between stretches spell texts, if each stretch starts and stops between two
characters. -/
theorem exists_texts_of_borders {position : Nat} (hposition : source.isBorder position = true)
    (hstop : source.isBorder stop = true)
    (hspans : ∀ span ∈ spans, source.isBorder span.1 = true ∧ source.isBorder span.2 = true) :
    ∃ texts, List.Forall₂ Spells (piecesFrom source stop position spans) texts := by
  induction spans generalizing position with
  | nil =>
      obtain ⟨cs, hcs⟩ := Source.exists_spells_slice hposition hstop
      exact ⟨[cs], .cons hcs .nil⟩
  | cons span rest ih =>
      obtain ⟨⟨hfirst, hlast⟩, hrest⟩ := List.forall_mem_cons.mp hspans
      obtain ⟨cs, hcs⟩ := Source.exists_spells_slice hposition hfirst
      have hmove : source.isBorder (max position span.2) = true := by
        rcases Nat.le_total position span.2 with hle | hle
        · rwa [Nat.max_eq_right hle]
        · rwa [Nat.max_eq_left hle]
      obtain ⟨texts, htexts⟩ := ih hmove hrest
      exact ⟨cs :: texts, .cons hcs htexts⟩

end Signature

/-! ## Headers -/

/-- Whether a node starts and stops between two characters of a source. -/
def Node.atBorders (source : Source) (node : Node) : Bool :=
  source.isBorder node.label.start && source.isBorder node.label.stop

/-- A tree that is laid out over a source, with nodes that start and stop between characters. -/
structure Node.SpelledIn (source : Source) (root : Node) : Prop where
  laidOut : root.everywhere Node.laidOut = true
  borders : root.everywhere (Node.atBorders source) = true

theorem Node.SpelledIn.at? {source : Source} {root node : Node} {position : Position}
    (h : root.SpelledIn source) (hat : root.at? position = some node) : node.SpelledIn source where
  laidOut := everywhere_at? h.laidOut hat
  borders := everywhere_at? h.borders hat

theorem Node.SpelledIn.isBorder {source : Source} {node : Node} (h : node.SpelledIn source) :
    source.isBorder node.label.start = true ∧ source.isBorder node.label.stop = true :=
  Bool.and_eq_true_iff.mp (everywhere_iff.mp h.borders).1

namespace Signature

open Node Text.Utf8

/-! ### Where a header ends -/

/-- What a header ends at: the name of a macro, the value of a constant, or a body, as far as bodies
are no part of a signature. -/
inductive Boundary (node : Node) : Nat → Prop where
  | name {name : Node} : node.kind = "macro_definition" → node.child? "name" = some name →
      Boundary node name.label.stop
  | value {value : Node} : node.kind ∈ ["const_item", "static_item"] →
      node.child? "value" = some value → Boundary node value.label.start
  | body {body : Node} : node.kind ∉ ["macro_definition", "const_item", "static_item"] →
      node.child? "body" = some body →
      body.kind ∈ ["block", "declaration_list", "field_declaration_list", "enum_variant_list"] →
      Boundary node body.label.start

/-- A header ends at its boundary; without one it is the whole declaration. -/
inductive HeaderEnd (node : Node) : Nat → Prop where
  | boundary {last : Nat} : Boundary node last → HeaderEnd node last
  | whole : (∀ last, ¬Boundary node last) → HeaderEnd node node.label.stop

theorem Boundary.eq_stop {node : Node} {last : Nat} (h : Boundary node last) :
    last = stop node := by
  cases h with
  | name hkind hname => simp [stop, hkind, hname]
  | value hkind hvalue =>
      rcases (by simpa using hkind : node.kind = "const_item" ∨ node.kind = "static_item")
        with hkind | hkind <;> simp [stop, hkind, hvalue]
  | body hkind hbody hleft =>
      simp only [List.mem_cons, List.not_mem_nil, or_false, not_or] at hkind
      simp [stop, isBody, hkind, hbody, hleft]

/-- Without a boundary a signature stops with its declaration. -/
theorem stop_of_not_boundary {node : Node} (h : ∀ last, ¬Boundary node last) :
    stop node = node.label.stop := by
  unfold stop
  split <;> rename_i hdefines
  · split
    · rename_i hname
      exact absurd (.name (by simpa using hdefines) hname) (h _)
    · rfl
  · split <;> rename_i hconstant
    · split
      · rename_i hvalue
        exact absurd (.value (by simpa using hconstant) hvalue) (h _)
      · rfl
    · split
      · rename_i body hbody
        split
        · rename_i hleft
          simp only [Bool.or_eq_true, beq_iff_eq, not_or] at hdefines hconstant
          exact absurd (.body (by simp [hdefines, hconstant]) hbody (by simpa [isBody] using hleft))
            (h _)
        · rfl
      · rfl

/-- The header of a declaration ends in one place, and there the signature stops. -/
theorem headerEnd_iff {node : Node} {last : Nat} : HeaderEnd node last ↔ last = stop node := by
  constructor
  · intro h
    cases h with
    | boundary hlast => exact hlast.eq_stop
    | whole hnone => exact (stop_of_not_boundary hnone).symm
  · rintro rfl
    by_cases hbound : ∃ last, Boundary node last
    · obtain ⟨last, hlast⟩ := hbound
      exact .boundary (hlast.eq_stop ▸ hlast)
    · have hnone := not_exists.mp hbound
      exact stop_of_not_boundary hnone ▸ .whole hnone

/-- The bytes of a declaration before a place. -/
def header (source : Source) (last : Nat) (node : Node) : List UInt8 :=
  source.slice node.label.start last

/-- The stretches of a header that are its outermost comments, counted from its start. -/
def headerComments (last : Nat) (node : Node) : List (Nat × Nat) :=
  (comments last node).map fun comment =>
    (comment.label.start - node.label.start, comment.label.stop - node.label.start)

/-- A header with the filler in the place of each comment. -/
def cleared (filler : List UInt8) (source : Source) (last : Nat) (node : Node) : List UInt8 :=
  cutOut filler (headerComments last node) 0 (header source last node)

/-- The signs that a signature does not end with. -/
def isTail (c : Char) : Bool :=
  c == ';' || c == '=' || Text.isBlank c

variable {source : Source} {node comment : Node} {filler bytes : List UInt8}
  {spans : List (Nat × Nat)} {offset : Nat}

/-! ### Counting from the start of a header -/

theorem leftAt_shift (n : Nat) (h : ∀ span ∈ spans, n ≤ span.1) (byte : UInt8) (place : Nat) :
    leftAt filler (spans.map fun span => (span.1 - n, span.2 - n)) byte place =
      leftAt filler spans byte (place + n) := by
  have hstarts : (spans.filter fun span => span.1 - n == place) =
      spans.filter fun span => span.1 == place + n := by
    refine List.filter_congr ?_
    intro span hspan
    have hle := h span hspan
    rw [Bool.eq_iff_iff, beq_iff_eq, beq_iff_eq]
    omega
  have hcovers : (spans.any fun span => decide (span.1 - n ≤ place) && decide (place < span.2 - n)) =
      spans.any fun span => decide (span.1 ≤ place + n) && decide (place + n < span.2) := by
    congr 1
    funext span
    rw [Bool.eq_iff_iff, Bool.and_eq_true, Bool.and_eq_true, decide_eq_true_eq, decide_eq_true_eq,
      decide_eq_true_eq, decide_eq_true_eq]
    omega
  rw [leftAt, leftAt, List.any_map, List.filter_map, List.flatMap_map]
  simp only [Function.comp_def, hstarts, hcovers]

theorem cutOut_shift (n : Nat) (h : ∀ span ∈ spans, n ≤ span.1) (bytes : List UInt8) :
    cutOut filler (spans.map fun span => (span.1 - n, span.2 - n)) offset bytes =
      cutOut filler spans (offset + n) bytes := by
  induction bytes generalizing offset with
  | nil => rfl
  | cons byte bytes ih => rw [cutOut_cons, cutOut_cons, leftAt_shift n h, ih, Nat.add_right_comm]

/-! ### The comments of a header -/

theorem exists_at?_of_mem_comments (h : comment ∈ comments (stop node) node) :
    ∃ position, node.at? position = some comment := by
  obtain ⟨⟨position, comment⟩, hmem, rfl⟩ := List.mem_map.mp (List.mem_filter.mp h).1
  exact ⟨position, (mem_outermost_iff.mp hmem).at?_eq⟩

/-- A header ends between two characters. -/
theorem isBorder_stop (h : node.SpelledIn source) : source.isBorder (stop node) = true := by
  rcases stop_cases node with hend | ⟨child, hchild, hend⟩
  · rw [hend]
    exact h.isBorder.2
  · have hborders := Bool.and_eq_true_iff.mp
      (everywhere_iff.mp ((everywhere_iff.mp h.borders).2 child hchild)).1
    rcases hend with hend | hend
    · rw [hend]
      exact hborders.1
    · rw [hend]
      exact hborders.2

/-- The comments of a header lie in it, one after the other. -/
theorem inTurn_comments (h : node.SpelledIn source) (hnode : node.isComment = false) :
    InTurn node.label.start (stop node)
      ((comments (stop node) node).map fun comment => (comment.label.start, comment.label.stop)) where
  ordered := List.pairwise_map.mpr (comments_inTurn _ h.laidOut)
  within := by
    intro span hspan
    obtain ⟨comment, hcomment, rfl⟩ := List.mem_map.mp hspan
    obtain ⟨position, hat⟩ := exists_at?_of_mem_comments hcomment
    have hwidth := (laidOut_iff.mp (everywhere_iff.mp (h.at? hat).laidOut).1).1
    have hinside := (span_at? (holdsChildren_of_laidOut h.laidOut) hat).1
    have hbefore := of_decide_eq_true (List.mem_filter.mp hcomment).2
    rw [comments_eq _ hnode] at hcomment
    exact ⟨hinside, hwidth, hbefore, stop_le_stop h.laidOut hcomment⟩

/-- The pieces of a header around its comments spell texts.  Joined by spaces, they are the text that
the signature is made from. -/
theorem exists_texts (h : node.SpelledIn source) (hnode : node.isComment = false) :
    ∃ texts, render source node = String.ofList
        (([' '].intercalate (Text.words ([' '].intercalate texts))).rdropWhile isTail) ∧
      ∀ filler fill, Spells filler fill →
        Spells (cleared filler source (stop node) node) (fill.intercalate texts) := by
  have hturn := inTurn_comments h hnode
  have hborders : ∀ span ∈ (comments (stop node) node).map fun comment =>
      (comment.label.start, comment.label.stop),
      source.isBorder span.1 = true ∧ source.isBorder span.2 = true := by
    intro span hspan
    obtain ⟨comment, hcomment, rfl⟩ := List.mem_map.mp hspan
    obtain ⟨position, hat⟩ := exists_at?_of_mem_comments hcomment
    exact (h.at? hat).isBorder
  obtain ⟨texts, htexts⟩ := exists_texts_of_borders h.isBorder.1 (isBorder_stop h) hborders
  refine ⟨texts, ?_, ?_⟩
  · have hbytes : Spells (Signature.bytes source node) ([' '].intercalate texts) := by
      rw [Signature.bytes, mergeSort_commentSpans h.laidOut hnode]
      exact spells_intercalate rfl htexts
    rw [render, hbytes.decodeLenient_eq, String.toList_ofList, Text.trimChars_collapseChars]
    rfl
  · intro filler fill hfill
    have hlength := (Source.isBorder_iff.mp (isBorder_stop h)).1
    have hcounted : headerComments (stop node) node = ((comments (stop node) node).map fun comment =>
        (comment.label.start, comment.label.stop)).map fun span =>
          (span.1 - node.label.start, span.2 - node.label.start) := by
      rw [List.map_map]
      rfl
    rw [cleared, hcounted, cutOut_shift _ fun span hspan => (hturn.within span hspan).1,
      Nat.zero_add, header, ← intercalate_piecesFrom filler hlength hturn]
    exact spells_intercalate hfill htexts

/-! ## The laws of signatures -/

/-- What holds of the signature of a declaration whose header ends at a place. -/
structure SignatureLaws (source : Source) (node : Node) (last : Nat) : Prop where
  /-- The signature is the text of the header with a space for each comment: its words, one space
  apart, without the semicolons, equality signs and blanks at the end. -/
  written : ∃ text, decode (cleared [0x20] source last node) = .ok text ∧
    render source node = String.ofList
      (([' '].intercalate (Text.words text.toList)).rdropWhile isTail)
  /-- The characters of a signature are those outside the comments of its header, in turn; only
  semicolons and equality signs at the end are missing, and blanks. -/
  commentFree : ∃ text ending, decode (cleared [] source last node) = .ok text ∧
    (∀ c ∈ ending, c = ';' ∨ c = '=') ∧
    ((render source node).toList.filter fun c => !Text.isBlank c) ++ ending =
      text.toList.filter fun c => !Text.isBlank c
  /-- Declarations whose headers have the same bytes and the same comments have the same
  signature. -/
  ofHeader : ∀ (source' : Source) (node' : Node) (last' : Nat), node'.SpelledIn source' →
    node'.itemKind?.isSome = true → HeaderEnd node' last' →
    header source' last' node' = header source last node →
    headerComments last' node' = headerComments last node → render source' node' = render source node

theorem isComment_eq_false_of_itemKind? (h : node.itemKind?.isSome = true) :
    node.isComment = false := by
  obtain ⟨kind, hkind⟩ := Option.isSome_iff_exists.mp h
  rw [isComment, beq_false_of_ne (kind_ne_of_itemKind? hkind rfl),
    beq_false_of_ne (kind_ne_of_itemKind? hkind rfl), Bool.or_false]

theorem written_of_spelledIn (h : node.SpelledIn source) (hnode : node.isComment = false) :
    ∃ text, decode (cleared [0x20] source (stop node) node) = .ok text ∧
      render source node = String.ofList
        (([' '].intercalate (Text.words text.toList)).rdropWhile isTail) := by
  obtain ⟨texts, hrender, hspells⟩ := exists_texts h hnode
  refine ⟨String.ofList ([' '].intercalate texts), decode_eq_ok_iff.mpr ?_, ?_⟩
  · rw [String.toList_ofList]
    exact hspells [0x20] [' '] rfl
  · rw [String.toList_ofList]
    exact hrender

theorem commentFree_of_spelledIn (h : node.SpelledIn source) (hnode : node.isComment = false) :
    ∃ text ending, decode (cleared [] source (stop node) node) = .ok text ∧
      (∀ c ∈ ending, c = ';' ∨ c = '=') ∧
      ((render source node).toList.filter fun c => !Text.isBlank c) ++ ending =
        text.toList.filter fun c => !Text.isBlank c := by
  obtain ⟨texts, hrender, hspells⟩ := exists_texts h hnode
  have hcut := List.rdropWhile_append_rtakeWhile (p := isTail)
    (l := [' '].intercalate (Text.words ([' '].intercalate texts)))
  refine ⟨String.ofList texts.flatten,
    (([' '].intercalate (Text.words ([' '].intercalate texts))).rtakeWhile isTail).filter
      fun c => !Text.isBlank c, decode_eq_ok_iff.mpr ?_, ?_, ?_⟩
  · rw [String.toList_ofList, ← Text.intercalate_of_nil]
    exact hspells [] [] rfl
  · intro c hc
    obtain ⟨hmem, hblank⟩ := List.mem_filter.mp hc
    have htail := List.mem_rtakeWhile_imp hmem
    rw [Bool.not_eq_true'] at hblank
    simpa [isTail, hblank] using htail
  · -- Neither the joins nor the spaces between words count.
    rw [hrender, String.toList_ofList, String.toList_ofList, ← List.filter_append, hcut,
      Text.filter_intercalate_space, Text.flatten_words, List.filter_filter,
      ← Text.filter_intercalate_space texts]
    simp only [Bool.and_self]

/-- A declaration in a tree that is laid out over a source has a header that ends at one place, and
its signature obeys the laws of signatures there. -/
theorem render_signatureLaws {root : Node} {position : Position} (hroot : root.SpelledIn source)
    (hat : root.at? position = some node) (hdeclares : node.itemKind?.isSome = true) :
    (∃ last, HeaderEnd node last) ∧
      ∀ last, HeaderEnd node last → SignatureLaws source node last := by
  have h := hroot.at? hat
  have hnode := isComment_eq_false_of_itemKind? hdeclares
  have hwritten := written_of_spelledIn h hnode
  refine ⟨⟨stop node, headerEnd_iff.mpr rfl⟩, ?_⟩
  intro last hlast
  obtain rfl := headerEnd_iff.mp hlast
  refine ⟨hwritten, commentFree_of_spelledIn h hnode, ?_⟩
  intro source' node' last' h' hdeclares' hlast' hheader hcomments
  obtain rfl := headerEnd_iff.mp hlast'
  obtain ⟨text, htext, hrender⟩ := hwritten
  obtain ⟨text', htext', hrender'⟩ :=
    written_of_spelledIn h' (isComment_eq_false_of_itemKind? hdeclares')
  rw [cleared, hheader, hcomments, ← cleared, htext] at htext'
  obtain rfl := Except.ok.inj htext'
  rw [hrender, hrender']

end Signature

/-! ## A header with comments in it -/

namespace Sample

/-- A function with two comments behind its keyword and one among its parameters. -/
def commentedText : String :=
  "\nfn/*é*//**/ f(x:A,// b\n)->B\x7bx\x7d"

/-- That function. -/
def commentedFunction : Node :=
  node "function_item" "" 1 32
    [node "block_comment" "" 3 9 [], node "block_comment" "" 9 13 [],
      node "identifier" "name" 14 15 [],
      node "parameters" "parameters" 15 26
        [node "parameter" "" 16 19 [], node "line_comment" "" 20 24 []],
      node "type_identifier" "return_type" 28 29 [],
      node "block" "body" 29 32 [node "identifier" "" 30 31 []]]

/-- The tree of the text. -/
def commentedRoot : Node :=
  node "source_file" "" 0 32 [commentedFunction]

end Sample

/-- The header of the sample ends at its body, and its comments are no part of the signature. -/
theorem Signature.render_signatureLaws_sample :
    Sample.commentedRoot.SpelledIn Sample.commentedText.toUTF8.toList ∧
      Sample.commentedRoot.at? [0] = some Sample.commentedFunction ∧
      HeaderEnd Sample.commentedFunction 29 ∧
      Signature.headerComments 29 Sample.commentedFunction = [(2, 8), (8, 12), (19, 23)] ∧
      Signature.render Sample.commentedText.toUTF8.toList Sample.commentedFunction =
        "fn f(x:A, )->B" ∧
      SignatureLaws Sample.commentedText.toUTF8.toList Sample.commentedFunction 29 := by
  have hroot : Sample.commentedRoot.SpelledIn Sample.commentedText.toUTF8.toList :=
    ⟨by decide +kernel, by decide +kernel⟩
  have hat : Sample.commentedRoot.at? [0] = some Sample.commentedFunction := rfl
  have hend : HeaderEnd Sample.commentedFunction 29 := headerEnd_iff.mpr (by decide +kernel)
  have hrender : Signature.render Sample.commentedText.toUTF8.toList Sample.commentedFunction =
      "fn f(x:A, )->B" := by
    rw [Signature.render, Signature.bytes,
      Signature.mergeSort_commentSpans (hroot.at? hat).laidOut (by decide)]
    decide +kernel
  exact ⟨hroot, hat, hend, by decide +kernel, hrender,
    (Signature.render_signatureLaws hroot hat (by decide)).2 29 hend⟩

end CrateAtlas
