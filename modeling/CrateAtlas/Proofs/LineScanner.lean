import CrateAtlas.Measure.Metrics
import Mathlib.Data.List.Infix

/-!
# Reading lines from left to right

Lines are classified by where the marks of block comments stand last.  A scanner instead reads each
line from left to right: it enters a block at an opening mark when it is outside, leaves it at a
closing mark when it is inside, and passes over all other marks.  As long as no two marks share a
character, every mark tells by itself whether the scanner is inside behind it, so that the last one
decides.

Main results:

- Theorem {lit}`leavesOpen_eq_atMarks`: the last mark decides whether a block is left open.
- Theorem {lit}`scan_eq_atMarks`: so it does for the scanner.
- Theorem {lit}`ofText_eq_scanned`: lines are classified as the scanner does it.
- Theorem {lit}`FileMetrics.measure_scanned`: the numbers of lines in terms of the scanner.
-/

namespace CrateAtlas

namespace LineClass

variable {inside : Bool} {c : Char} {cs line : List Char} {i j : Nat}

/-! ## A scanner -/

/-- Read a stretch of a line and say whether it ends inside a block. -/
def scan : (inside : Bool) → List Char → Bool
  | inside, [] => inside
  | false, '/' :: '*' :: rest => scan true rest
  | true, '*' :: '/' :: rest => scan false rest
  | inside, _ :: rest => scan inside rest

/-- Classify a trimmed line by reading it, given whether it starts inside a block; the second
component says whether it ends inside one.  Marks behind a line comment do not count. -/
def scanLine (inside : Bool) (line : List Char) : LineClass × Bool :=
  if line = [] then (blank, inside)
  else if inside then (comment, scan true line)
  else if ['/', '/'] <+: line then (comment, false)
  else if ['/', '*'] <+: line then (comment, scan false line)
  else (code, scan false line)

/-- Classify lines one after the other. -/
def scanLines : (inside : Bool) → List (List Char) → List LineClass
  | _, [] => []
  | inside, line :: rest =>
      let (here, after) := scanLine inside (Text.trimChars line)
      here :: scanLines after rest

/-- The classes of the lines of a text by reading them from the top. -/
def scanned (text : String) : List LineClass :=
  scanLines false (Text.lines text)

/-- No two marks of block comments share a character. -/
def MarksApart (line : List Char) : Prop :=
  ¬['/', '*', '/'] <:+: line ∧ ¬['*', '/', '*'] <:+: line

instance (line : List Char) : Decidable (MarksApart line) :=
  inferInstanceAs (Decidable (_ ∧ _))

theorem MarksApart.of_part (h : MarksApart line) (hpart : cs <:+: line) : MarksApart cs :=
  ⟨fun hmark => h.1 (hmark.trans hpart), fun hmark => h.2 (hmark.trans hpart)⟩

theorem MarksApart.tail (h : MarksApart (c :: cs)) : MarksApart cs :=
  h.of_part (List.infix_cons List.infix_rfl)

/-! ## Every mark by itself -/

/-- Take every mark for what it says, whether it counts or not. -/
def atMarks : (inside : Bool) → List Char → Bool
  | inside, [] => inside
  | inside, c :: cs =>
      if blockOpen.isPrefixOf (c :: cs) then atMarks true cs
      else if blockClose.isPrefixOf (c :: cs) then atMarks false cs
      else atMarks inside cs

theorem not_blockClose_of_blockOpen (h : blockOpen <+: cs) : ¬blockClose <+: cs := by
  obtain ⟨_, rfl⟩ := h
  simp [blockOpen, blockClose]

theorem atMarks_open (inside : Bool) (h : blockOpen <+: c :: cs) :
    atMarks inside (c :: cs) = atMarks true cs := by
  rw [atMarks, if_pos (List.isPrefixOf_iff_prefix.mpr h)]

theorem atMarks_close (inside : Bool) (h : blockClose <+: c :: cs) :
    atMarks inside (c :: cs) = atMarks false cs := by
  have hopen : ¬blockOpen <+: c :: cs := fun hopen => not_blockClose_of_blockOpen hopen h
  rw [atMarks, if_neg (List.isPrefixOf_iff_prefix.not.mpr hopen),
    if_pos (List.isPrefixOf_iff_prefix.mpr h)]

theorem atMarks_plain (inside : Bool) (hopen : ¬blockOpen <+: c :: cs)
    (hclose : ¬blockClose <+: c :: cs) : atMarks inside (c :: cs) = atMarks inside cs := by
  rw [atMarks, if_neg (List.isPrefixOf_iff_prefix.not.mpr hopen),
    if_neg (List.isPrefixOf_iff_prefix.not.mpr hclose)]

/-- As long as no two marks share a character, the scanner is behind each mark where the mark says. -/
theorem scan_eq_atMarks (h : MarksApart cs) : scan inside cs = atMarks inside cs := by
  fun_induction scan inside cs with
  | case1 inside => rfl
  | case2 rest ih =>
      have hopen : blockOpen <+: '/' :: '*' :: rest := ⟨rest, rfl⟩
      have hclose : ¬blockClose <+: '*' :: rest := by
        intro hclose
        exact h.1 (List.cons_prefix_cons.mpr ⟨rfl, hclose⟩).isInfix
      rw [ih h.tail.tail, atMarks_open _ hopen, atMarks_plain _ (by simp [blockOpen]) hclose]
  | case3 rest ih =>
      have hclose : blockClose <+: '*' :: '/' :: rest := ⟨rest, rfl⟩
      have hopen : ¬blockOpen <+: '/' :: rest := by
        intro hopen
        exact h.2 (List.cons_prefix_cons.mpr ⟨rfl, hopen⟩).isInfix
      rw [ih h.tail.tail, atMarks_close _ hclose, atMarks_plain _ hopen (by simp [blockClose])]
  | case4 inside c rest hopen hclose ih =>
      -- A mark that the scanner passes over says where the scanner is anyway.
      rw [ih h.tail]
      by_cases hisOpen : blockOpen <+: c :: rest
      · rw [atMarks_open _ hisOpen]
        obtain ⟨behind, heq⟩ := hisOpen
        obtain ⟨rfl, rfl⟩ := List.cons.inj heq
        cases inside with
        | false => exact absurd rfl (hopen behind rfl rfl)
        | true => rfl
      · by_cases hisClose : blockClose <+: c :: rest
        · rw [atMarks_close _ hisClose]
          obtain ⟨behind, heq⟩ := hisClose
          obtain ⟨rfl, rfl⟩ := List.cons.inj heq
          cases inside with
          | false => rfl
          | true => exact absurd rfl (hclose behind rfl rfl)
        · rw [atMarks_plain _ hisOpen hisClose]

/-! ## The last mark -/

/-- Where the last marks of both sorts leave a line, given their positions. -/
def lastDecides (inside : Bool) : (opened closed : Option Nat) → Bool
  | some opened, some closed => closed < opened
  | some _, none => true
  | none, some _ => false
  | none, none => inside

/-- The first position counts if there is no later one. -/
theorem lastIndexFrom_cons (pat : List Char) (i : Nat) (c : Char) (cs : List Char) :
    Text.lastIndexFrom pat i (c :: cs) =
      (Text.lastIndexFrom pat (i + 1) cs).or (if pat <+: c :: cs then some i else none) := by
  rw [Text.lastIndexFrom]
  simp only [List.isPrefixOf_iff_prefix]
  cases Text.lastIndexFrom pat (i + 1) cs with
  | none => rfl
  | some j => rfl

theorem le_of_lastIndexFrom {pat : List Char} (h : Text.lastIndexFrom pat i cs = some j) :
    i ≤ j := by
  induction cs generalizing i j with
  | nil => simp [Text.lastIndexFrom] at h
  | cons c cs ih =>
      rw [lastIndexFrom_cons, Option.or_eq_some_iff] at h
      rcases h with h | ⟨-, h⟩
      · have hle := ih h
        omega
      · split_ifs at h
        rw [Option.some.injEq] at h
        omega

/-- An opening mark in front of all closing ones decides like a stretch that starts inside. -/
theorem lastDecides_open (inside : Bool) {opened closed : Option Nat}
    (h : ∀ j, closed = some j → i < j) :
    lastDecides inside (opened.or (some i)) closed = lastDecides true opened closed := by
  cases opened with
  | some j => cases closed <;> rfl
  | none =>
      cases closed with
      | none => rfl
      | some j =>
          have hlt := h j rfl
          exact decide_eq_false (by omega)

/-- A closing mark in front of all opening ones decides like a stretch that starts outside. -/
theorem lastDecides_close (inside : Bool) {opened closed : Option Nat}
    (h : ∀ j, opened = some j → i < j) :
    lastDecides inside opened (closed.or (some i)) = lastDecides false opened closed := by
  cases closed with
  | some j => cases opened <;> rfl
  | none =>
      cases opened with
      | none => rfl
      | some j => exact decide_eq_true (h j rfl)

/-- If every mark is taken for what it says, then the last one decides. -/
theorem atMarks_eq_lastDecides (inside : Bool) (cs : List Char) (i : Nat) :
    atMarks inside cs =
      lastDecides inside (Text.lastIndexFrom blockOpen i cs)
        (Text.lastIndexFrom blockClose i cs) := by
  induction cs generalizing inside i with
  | nil => rfl
  | cons c cs ih =>
      rw [lastIndexFrom_cons, lastIndexFrom_cons]
      by_cases hopen : blockOpen <+: c :: cs
      · have hclose := not_blockClose_of_blockOpen hopen
        rw [atMarks_open inside hopen, ih true (i + 1), if_pos hopen, if_neg hclose, Option.or_none,
          lastDecides_open inside fun _ => le_of_lastIndexFrom]
      · by_cases hclose : blockClose <+: c :: cs
        · rw [atMarks_close inside hclose, ih false (i + 1), if_neg hopen, if_pos hclose,
            Option.or_none, lastDecides_close inside fun _ => le_of_lastIndexFrom]
        · rw [atMarks_plain inside hopen hclose, ih inside (i + 1), if_neg hopen, if_neg hclose,
            Option.or_none, Option.or_none]

/-- A stretch leaves a block open if its last mark is an opening one. -/
theorem leavesOpen_eq_atMarks (cs : List Char) : leavesOpen cs = atMarks false cs := by
  rw [atMarks_eq_lastDecides false cs 0, leavesOpen, Text.lastIndex?, Text.lastIndex?]
  cases Text.lastIndexFrom blockOpen 0 cs with
  | none => cases Text.lastIndexFrom blockClose 0 cs <;> rfl
  | some opened => cases Text.lastIndexFrom blockClose 0 cs <;> rfl

theorem leavesOpen_eq_scan (h : MarksApart cs) : leavesOpen cs = scan false cs := by
  rw [leavesOpen_eq_atMarks, scan_eq_atMarks h]

/-! ## Lines -/

/-- Inside a block, the scanner goes on behind the first closing mark as it does outside. -/
theorem scan_true (cs : List Char) :
    scan true cs =
      match Text.afterFirst blockClose cs with
      | some rest => scan false rest
      | none => true := by
  induction cs with
  | nil => rfl
  | cons c rest ih =>
      rw [Text.afterFirst]
      by_cases hclose : blockClose <+: c :: rest
      · rw [if_pos (List.isPrefixOf_iff_prefix.mpr hclose)]
        obtain ⟨behind, heq⟩ := hclose
        rw [← heq]
        rfl
      · have hnext : scan true (c :: rest) = scan true rest := by
          rw [scan]
          · simp
          · rintro behind - rfl rfl
            exact hclose ⟨behind, rfl⟩
        rw [if_neg (List.isPrefixOf_iff_prefix.not.mpr hclose), hnext, ih]

theorem infix_of_afterFirst {pat : List Char} {rest : List Char}
    (h : Text.afterFirst pat cs = some rest) : rest <:+: cs := by
  induction cs with
  | nil =>
      rw [Text.afterFirst] at h
      split_ifs at h
      obtain rfl := Option.some.inj h
      exact List.infix_rfl
  | cons c cs ih =>
      rw [Text.afterFirst] at h
      split_ifs at h
      · obtain rfl := Option.some.inj h
        exact (List.drop_suffix _ _).isInfix
      · exact List.infix_cons (ih h)

/-- A trimmed line on which no two marks share a character is classified as the scanner does it. -/
theorem ofLine_eq_scanLine (h : MarksApart line) : ofLine inside line = scanLine inside line := by
  unfold ofLine scanLine
  by_cases hnil : line = []
  · simp [hnil]
  rw [if_neg (by simpa using hnil), if_neg hnil]
  cases inside with
  | true =>
      rw [if_pos rfl, if_pos rfl, scan_true]
      cases hrest : Text.afterFirst blockClose line with
      | none => rfl
      | some rest =>
          have hapart := h.of_part (infix_of_afterFirst hrest)
          simp only [leavesOpen_eq_scan hapart]
  | false =>
      rw [if_neg Bool.false_ne_true, if_neg Bool.false_ne_true, leavesOpen_eq_scan h]
      simp only [List.isPrefixOf_iff_prefix, blockOpen]

theorem infix_trimChars (line : List Char) : Text.trimChars line <:+: line := by
  have hstart : Text.trimStartChars line <:+ line := List.dropWhile_suffix _
  have hend : Text.trimChars line <+: Text.trimStartChars line := by
    unfold Text.trimChars Text.trimEndChars
    conv_rhs => rw [← List.reverse_reverse (Text.trimStartChars line)]
    exact List.reverse_prefix.mpr (List.dropWhile_suffix _)
  exact hend.isInfix.trans hstart.isInfix

/-- Lines on which no two marks share a character are classified as the scanner does it. -/
theorem ofLines_eq_scanLines {lines : List (List Char)} (h : ∀ line ∈ lines, MarksApart line)
    (inside : Bool) : ofLines inside lines = scanLines inside lines := by
  induction lines generalizing inside with
  | nil => rfl
  | cons line rest ih =>
      obtain ⟨hline, hrest⟩ := List.forall_mem_cons.mp h
      have htrimmed := hline.of_part (infix_trimChars line)
      rw [ofLines, scanLines, ofLine_eq_scanLine htrimmed]
      simp only [ih hrest]

theorem ofText_eq_scanned {text : String} (h : ∀ line ∈ Text.lines text, MarksApart line) :
    ofText text = scanned text :=
  ofLines_eq_scanLines h false

/-- Marks that share a character are read in different ways. -/
example : ofText "/*/\na" = [.comment, .code] ∧ scanned "/*/\na" = [.comment, .comment] := by
  decide +kernel

theorem length_ofLines (lines : List (List Char)) (inside : Bool) :
    (ofLines inside lines).length = lines.length := by
  induction lines generalizing inside with
  | nil => rfl
  | cons line rest ih => rw [ofLines, List.length_cons, ih, List.length_cons]

/-- Every line of a text has a class. -/
theorem length_ofText (text : String) : (ofText text).length = (Text.lines text).length :=
  length_ofLines (Text.lines text) false

/-- Every line is of one class. -/
theorem length_eq_counts (classes : List LineClass) :
    classes.length = classes.count .blank + classes.count .comment + classes.count .code := by
  induction classes with
  | nil => rfl
  | cons first rest ih =>
      cases first with
      | blank => simp [ih]; omega
      | comment => simp [ih]; omega
      | code => simp [ih]; omega

end LineClass

/-- The lines of every text are blank, comments or code.  If no two marks of block comments share a
character on a line, they are as many of each class as the scanner finds. -/
theorem FileMetrics.measure_scanned (text : String) (elements : List Element) :
    let metrics := measure text elements
    metrics.totalLines = metrics.blankLines + metrics.linesOfComments + metrics.linesOfCode ∧
    ((∀ line ∈ Text.lines text, LineClass.MarksApart line) →
      metrics.totalLines = (LineClass.scanned text).length ∧
      metrics.blankLines = (LineClass.scanned text).count .blank ∧
      metrics.linesOfComments = (LineClass.scanned text).count .comment ∧
      metrics.linesOfCode = (LineClass.scanned text).count .code) := by
  intro metrics
  constructor
  · have hcounts := LineClass.length_eq_counts (LineClass.ofText text)
    show ((LineClass.ofText text).length : Int) = _ + _ + _
    rw [hcounts]
    rfl
  · intro hapart
    rw [← LineClass.ofText_eq_scanned hapart]
    exact ⟨rfl, rfl, rfl, rfl⟩

namespace Sample

/-- Block comments that go on over lines, end and start again, and marks behind a line comment. -/
def markedText : String :=
  "let a = 1; /* b\n*/ /* c\n\nd */ e\n// /* f\n/* g */ h\n"

end Sample

/-- In the sample, one of six lines is code and one is blank. -/
theorem FileMetrics.measure_scanned_sample :
    (∀ line ∈ Text.lines Sample.markedText, LineClass.MarksApart line) ∧
      LineClass.scanned Sample.markedText =
        [.code, .comment, .blank, .comment, .comment, .comment] ∧
      (measure Sample.markedText []).linesOfComments = 4 := by
  have hapart : ∀ line ∈ Text.lines Sample.markedText, LineClass.MarksApart line := by
    decide +kernel
  have hscanned : LineClass.scanned Sample.markedText =
      [.code, .comment, .blank, .comment, .comment, .comment] := by
    decide +kernel
  obtain ⟨-, hlines⟩ := measure_scanned Sample.markedText []
  obtain ⟨-, -, hcomments, -⟩ := hlines hapart
  refine ⟨hapart, hscanned, ?_⟩
  rw [hcomments, hscanned]
  rfl

end CrateAtlas
