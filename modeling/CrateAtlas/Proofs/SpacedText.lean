import CrateAtlas.Proofs.SignatureText
import CrateAtlas.ScopePath.Normal

/-!
# Texts with single spaces

A text without blanks at its ends, in which every run of blanks is written as one space, is given by
its other characters and by the gaps behind them.  Dropping the blanks around a token then changes
gaps only, and whether a gap stays is told by the characters beside it, except that a separator
takes two characters and is read from left to right.

Main results:

- Theorem {lit}`exists_spell_collapseChars`: a trimmed and collapsed text is given by its gaps.
- Theorem {lit}`tighten_spell`: dropping the blanks around a token of one character.
- Theorem {lit}`tighten_separator_spell`: dropping the blanks around separators.
- Theorem {lit}`trimChars_spell`: trimming closes the last gap.
-/

namespace CrateAtlas.Text

open ScopePath (separator tighten tightenFrom)

/-! ## Characters and gaps -/

/-- The gap behind a character: a space or nothing. -/
def gapChars (gap : Bool) : List Char :=
  if gap then [' '] else []

/-- The text of characters, each with whether there is a gap behind it. -/
def spell : List (Char × Bool) → List Char
  | [] => []
  | (c, gap) :: rest => c :: (gapChars gap ++ spell rest)

/-- Characters that are not blank. -/
def Solid (l : List (Char × Bool)) : Prop :=
  ∀ x ∈ l, isBlank x.1 = false

/-- Characters that are not blank, without a gap behind the last one. -/
def Closed : List (Char × Bool) → Prop
  | [] => True
  | (c, gap) :: rest => isBlank c = false ∧ (rest = [] → gap = false) ∧ Closed rest

variable {l rest : List (Char × Bool)} {c : Char} {gap : Bool} {cs token : List Char}

theorem solid_cons_iff : Solid ((c, gap) :: rest) ↔ isBlank c = false ∧ Solid rest := by
  simp [Solid]

theorem Closed.solid (h : Closed l) : Solid l := by
  induction l with
  | nil => simp [Solid]
  | cons x rest ih => exact solid_cons_iff.mpr ⟨h.1, ih h.2.2⟩

/-! ## Texts that start without a blank -/

/-- A text that does not start with a blank. -/
def StartsSolid (cs : List Char) : Prop :=
  ∀ c ∈ cs.head?, isBlank c = false

theorem Solid.startsSolid (h : Solid l) : StartsSolid (spell l) := by
  cases l with
  | nil => simp [StartsSolid, spell]
  | cons x rest =>
      have hx := h x List.mem_cons_self
      simpa [StartsSolid, spell] using hx

theorem not_startsSolid_space (cs : List Char) : ¬StartsSolid (' ' :: cs) := by
  intro h
  exact absurd (h ' ' rfl) (by decide)

theorem startsSolid_dropWhile (cs : List Char) : StartsSolid (cs.dropWhile isBlank) := by
  intro c hc
  have hhead := List.head?_dropWhile_not isBlank cs
  rw [Option.mem_def.mp hc] at hhead
  exact hhead

theorem gapChars_append_inj {gap' : Bool} {cs' : List Char} (hcs : StartsSolid cs)
    (hcs' : StartsSolid cs') (h : gapChars gap ++ cs = gapChars gap' ++ cs') :
    gap = gap' ∧ cs = cs' := by
  cases gap with
  | false =>
      cases gap' with
      | false => exact ⟨rfl, h⟩
      | true =>
          obtain rfl : cs = ' ' :: cs' := h
          exact (not_startsSolid_space cs' hcs).elim
  | true =>
      cases gap' with
      | false =>
          obtain rfl : ' ' :: cs = cs' := h
          exact (not_startsSolid_space cs hcs').elim
      | true => exact ⟨rfl, (List.cons.inj h).2⟩

/-- Characters and gaps are told by their text. -/
theorem spell_inj {l' : List (Char × Bool)} (h : Solid l) (h' : Solid l')
    (hspell : spell l = spell l') : l = l' := by
  induction l generalizing l' with
  | nil =>
      cases l' with
      | nil => rfl
      | cons y rest' => cases hspell
  | cons x rest ih =>
      cases l' with
      | nil => cases hspell
      | cons y rest' =>
          obtain ⟨-, hrest⟩ := solid_cons_iff.mp h
          obtain ⟨-, hrest'⟩ := solid_cons_iff.mp h'
          obtain ⟨hchar, hbehind⟩ := List.cons.inj hspell
          obtain ⟨hgap, htext⟩ :=
            gapChars_append_inj hrest.startsSolid hrest'.startsSolid hbehind
          rw [ih hrest hrest' htext, Prod.ext hchar hgap]

/-! ## Collapsing -/

theorem collapseFrom_false (cs : List Char) :
    collapseFrom false cs = gapChars (cs.head?.any isBlank) ++ collapseFrom true cs := by
  cases cs with
  | nil => rfl
  | cons c rest => cases hc : isBlank c <;> simp [collapseFrom, gapChars, hc]

theorem StartsSolid.collapseChars (h : StartsSolid cs) :
    collapseChars cs = collapseFrom true cs := by
  have hhead : cs.head?.any isBlank = false := by
    cases cs with
    | nil => rfl
    | cons c rest => exact h c rfl
  rw [Text.collapseChars, collapseFrom_false, hhead]
  rfl

theorem head?_collapseFrom (cs : List Char) :
    (collapseFrom true cs).head? = (cs.dropWhile isBlank).head? := by
  induction cs with
  | nil => rfl
  | cons c rest ih => cases hc : isBlank c <;> simp [collapseFrom, hc, ih]

theorem startsSolid_collapseFrom (cs : List Char) : StartsSolid (collapseFrom true cs) := by
  rw [StartsSolid, head?_collapseFrom]
  exact startsSolid_dropWhile cs

/-- A gap comes from blanks in front of the next character. -/
theorem exists_blanks_of_head? (hblank : cs.head?.any isBlank = true)
    (hnext : (collapseFrom true cs).head? = some c) :
    ∃ blanks back, cs = blanks ++ c :: back ∧ blanks ≠ [] ∧ ∀ b ∈ blanks, isBlank b = true := by
  rw [head?_collapseFrom] at hnext
  obtain ⟨back, hback⟩ := List.head?_eq_some_iff.mp hnext
  have hsplit := List.takeWhile_append_dropWhile (p := isBlank) (l := cs)
  refine ⟨cs.takeWhile isBlank, back, ?_, ?_, fun b hb => List.mem_takeWhile_imp hb⟩
  · rw [← hback, hsplit]
  · cases cs with
    | nil => cases hblank
    | cons b rest =>
        have hb : isBlank b = true := hblank
        simp [hb]

/-- A text that does not end in a blank is given by its gaps once it is collapsed. -/
theorem exists_spell_collapseFrom (h : ∀ c ∈ cs.getLast?, isBlank c = false) :
    ∃ l, Closed l ∧ (l = [] → cs = []) ∧ collapseFrom true cs = spell l := by
  induction cs with
  | nil => exact ⟨[], trivial, fun _ => rfl, rfl⟩
  | cons c rest ih =>
      have hrest : ∀ d ∈ rest.getLast?, isBlank d = false := by
        intro d hd
        refine h d ?_
        rw [List.getLast?_cons, hd]
        rfl
      obtain ⟨l, hclosed, hnil, hspell⟩ := ih hrest
      cases hc : isBlank c with
      | true =>
          have hne : rest ≠ [] := by
            rintro rfl
            exact absurd (h c rfl) (by simp [hc])
          refine ⟨l, hclosed, fun hl => (hne (hnil hl)).elim, ?_⟩
          simpa [collapseFrom, hc] using hspell
      | false =>
          refine ⟨(c, rest.head?.any isBlank) :: l, ⟨hc, ?_, hclosed⟩, by simp, ?_⟩
          · intro hl
            simp [hnil hl]
          · simp [collapseFrom, hc, collapseFrom_false, spell, hspell]

theorem collapseFrom_spell (h : Solid l) : collapseFrom true (spell l) = spell l := by
  induction l with
  | nil => rfl
  | cons x rest ih =>
      obtain ⟨c, gap⟩ := x
      obtain ⟨hc, hrest⟩ := solid_cons_iff.mp h
      rw [spell, collapseFrom, if_neg (by simp [hc])]
      cases gap with
      | false =>
          rw [gapChars, if_neg Bool.false_ne_true, List.nil_append,
            ← Text.collapseChars, hrest.startsSolid.collapseChars, ih hrest]
      | true =>
          rw [gapChars, if_pos rfl, List.singleton_append, collapseFrom, if_pos isBlank_space,
            if_neg Bool.false_ne_true, ih hrest]

/-! ## Trimming -/

/-- The characters without a gap behind the last one. -/
def sealed : List (Char × Bool) → List (Char × Bool)
  | [] => []
  | [(c, _)] => [(c, false)]
  | x :: y :: rest => x :: sealed (y :: rest)

theorem Closed.sealed (h : Closed l) : sealed l = l := by
  fun_induction Text.sealed l with
  | case1 => rfl
  | case2 c gap => rw [h.2.1 rfl]
  | case3 x y rest ih => rw [ih h.2.2]

theorem trimEndChars_spell (h : Solid l) : trimEndChars (spell l) = spell (Text.sealed l) := by
  fun_induction Text.sealed l with
  | case1 => rfl
  | case2 c gap =>
      obtain ⟨hc, -⟩ := solid_cons_iff.mp h
      cases gap <;> simp [spell, gapChars, trimEndChars, hc]
  | case3 x y rest ih =>
      obtain ⟨hx, hrest⟩ := solid_cons_iff.mp h
      have hne : trimEndChars (spell (y :: rest)) ≠ [] := by
        rw [ih hrest]
        cases rest <;> simp [Text.sealed, spell]
      rw [spell, ← List.cons_append, trimEndChars_append_of_ne_nil hne, ih hrest]
      rfl

theorem StartsSolid.trimStartChars (h : StartsSolid cs) : trimStartChars cs = cs := by
  cases cs with
  | nil => rfl
  | cons c rest =>
      have hc : isBlank c = false := h c rfl
      rw [Text.trimStartChars, List.dropWhile_cons, hc, if_neg Bool.false_ne_true]

/-- Trimming closes the last gap. -/
theorem trimChars_spell (h : Solid l) : trimChars (spell l) = spell (Text.sealed l) := by
  rw [trimChars, h.startsSolid.trimStartChars, trimEndChars_spell h]

/-- What is left of a text at its ends is not blank. -/
theorem trimChars_ends (cs : List Char) :
    StartsSolid (trimChars cs) ∧ ∀ c ∈ (trimChars cs).getLast?, isBlank c = false := by
  constructor
  · intro c hc
    have hfront : trimChars cs <+: trimStartChars cs := by
      rw [← List.reverse_suffix, trimChars, trimEndChars, List.reverse_reverse]
      exact List.dropWhile_suffix isBlank
    obtain ⟨rest, hrest⟩ := List.head?_eq_some_iff.mp hc
    obtain ⟨later, hlater⟩ := hfront
    rw [hrest] at hlater
    exact startsSolid_dropWhile cs c (by rw [← trimStartChars, ← hlater]; rfl)
  · intro c hc
    rw [trimChars, trimEndChars, List.getLast?_reverse] at hc
    exact startsSolid_dropWhile _ c hc

/-- A trimmed and collapsed text is given by its gaps. -/
theorem exists_spell_collapseChars (cs : List Char) :
    ∃ l, Closed l ∧ collapseChars (trimChars cs) = spell l := by
  obtain ⟨hstart, hend⟩ := trimChars_ends cs
  obtain ⟨l, hclosed, -, hspell⟩ := exists_spell_collapseFrom hend
  exact ⟨l, hclosed, hstart.collapseChars.trans hspell⟩

/-- A text that is given by its gaps is trimmed and collapsed. -/
theorem Closed.collapseChars_spell (h : Closed l) :
    collapseChars (trimChars (spell l)) = spell l := by
  rw [trimChars_spell h.solid, h.sealed, h.solid.startsSolid.collapseChars,
    collapseFrom_spell h.solid]

/-! ## Dropping blanks around tokens -/

/-- A gap goes when a token follows. -/
theorem tightenFrom_gap (written : List Char) (eat : Bool) (htoken : token ≠ [])
    (hcs : StartsSolid cs) (gap : Bool) :
    tightenFrom token written eat [] 0 false (gapChars gap ++ cs) =
      gapChars (gap && !token.isPrefixOf cs) ++ tightenFrom token written eat [] 0 false cs := by
  cases gap with
  | false => rfl
  | true =>
      obtain ⟨first, later, rfl⟩ := List.exists_cons_of_ne_nil htoken
      cases cs with
      | nil => rfl
      | cons c rest =>
          have hc : isBlank c = false := hcs c rfl
          by_cases hstart : (first :: later).isPrefixOf (c :: rest) = true
          · simp [gapChars, tightenFrom, hc, hstart]
          · simp [gapChars, tightenFrom, hc, hstart]

/-- A gap goes when blanks are dropped. -/
theorem tightenFrom_eating (token written : List Char) (eat : Bool) (hcs : StartsSolid cs)
    (gap : Bool) :
    tightenFrom token written eat [] 0 true (gapChars gap ++ cs) =
      tightenFrom token written eat [] 0 false cs := by
  have heating : tightenFrom token written eat [] 0 true cs =
      tightenFrom token written eat [] 0 false cs := by
    cases cs with
    | nil => rfl
    | cons c rest =>
        have hc : isBlank c = false := hcs c rfl
        simp [tightenFrom, hc]
  cases gap with
  | false => exact heating
  | true => simpa [gapChars, tightenFrom] using heating

/-! ### One character -/

/-- Whether a character comes first. -/
def startsWithChar (t : Char) (l : List (Char × Bool)) : Bool :=
  l.head?.any fun x => x.1 == t

/-- Close the gaps before the character {lit}`t`; the gap behind it becomes {lit}`behind`, or is
treated like any other if that is not given. -/
def tightened (t : Char) (behind : Option Bool) : List (Char × Bool) → List (Char × Bool)
  | [] => []
  | (c, gap) :: rest =>
      let kept := gap && !startsWithChar t rest
      (c, if c = t then behind.getD kept else kept) :: tightened t behind rest

theorem isPrefixOf_spell (t : Char) (l : List (Char × Bool)) :
    [t].isPrefixOf (spell l) = startsWithChar t l := by
  cases l with
  | nil => rfl
  | cons x rest => simp [spell, startsWithChar, List.isPrefixOf, eq_comm]

theorem Solid.tightened (h : Solid l) (t : Char) (behind : Option Bool) :
    Solid (tightened t behind l) := by
  induction l with
  | nil => exact h
  | cons x rest ih =>
      obtain ⟨hx, hrest⟩ := solid_cons_iff.mp h
      exact solid_cons_iff.mpr ⟨hx, ih hrest⟩

/-- Dropping the blanks around a token of one character. -/
theorem tighten_spell (h : Solid l) (t : Char) (behind : Option Bool) :
    tighten [t] (t :: gapChars (behind.getD false)) behind.isSome (spell l) =
      spell (Text.tightened t behind l) := by
  unfold tighten
  induction l with
  | nil => rfl
  | cons x rest ih =>
      obtain ⟨c, gap⟩ := x
      obtain ⟨hc, hrest⟩ := solid_cons_iff.mp h
      have htoken : [t] ≠ [] := List.cons_ne_nil t []
      have hgap := tightenFrom_gap (t :: gapChars (behind.getD false)) behind.isSome htoken
        hrest.startsSolid gap
      rw [isPrefixOf_spell, ih hrest] at hgap
      by_cases hct : c = t
      · subst hct
        rw [spell, tightenFrom, if_neg (by simp [hc]), if_pos (by simp [List.isPrefixOf])]
        cases behind with
        | none =>
            rw [Option.isSome_none] at hgap
            rw [List.length_singleton, Option.isSome_none, hgap]
            simp [Text.tightened, spell, gapChars]
        | some space =>
            rw [Option.isSome_some] at ih
            rw [List.length_singleton, Option.isSome_some,
              tightenFrom_eating _ _ _ hrest.startsSolid, ih hrest]
            simp [Text.tightened, spell]
      · have hstart : [t].isPrefixOf (c :: (gapChars gap ++ spell rest)) = false := by
          simp [List.isPrefixOf, Ne.symm hct]
        rw [spell, tightenFrom, if_neg (by simp [hc]), if_neg (by simp [hstart]), hgap]
        simp [Text.tightened, spell, hct]

/-! ### Separators -/

/-- Whether a separator comes first. -/
def startsSeparator : List (Char × Bool) → Bool
  | (c, gap) :: (d, _) :: _ => c == ':' && !gap && d == ':'
  | _ => false

/-- Close the gaps before and behind separators, which are read from left to right. -/
def joined : List (Char × Bool) → List (Char × Bool)
  | [] => []
  | [x] => [x]
  | x :: y :: rest =>
      if startsSeparator (x :: y :: rest) then x :: (y.1, false) :: joined rest
      else (x.1, x.2 && !startsSeparator (y :: rest)) :: joined (y :: rest)

theorem isPrefixOf_separator_spell (l : List (Char × Bool)) :
    separator.isPrefixOf (spell l) = startsSeparator l := by
  match l with
  | [] => rfl
  | [(c, gap)] =>
      cases gap <;> simp [spell, startsSeparator, separator, gapChars, List.isPrefixOf]
  | (c, gap) :: (d, gap') :: rest =>
      cases gap <;>
        simp [spell, startsSeparator, separator, gapChars, List.isPrefixOf, BEq.comm (a := ':')]

theorem startsSeparator_iff {x y : Char × Bool} :
    startsSeparator (x :: y :: rest) = true ↔ x = (':', false) ∧ ∃ gap, y = (':', gap) := by
  obtain ⟨c, gap⟩ := x
  obtain ⟨d, gap'⟩ := y
  cases gap <;> simp [startsSeparator]

theorem Solid.joined (h : Solid l) : Solid (joined l) := by
  fun_induction Text.joined l with
  | case1 => exact h
  | case2 x => exact h
  | case3 x y rest hstart ih =>
      obtain ⟨hx, hy, hrest⟩ : _ ∧ _ ∧ Solid rest := by
        simpa only [Solid, List.forall_mem_cons] using h
      exact solid_cons_iff.mpr ⟨hx, solid_cons_iff.mpr ⟨hy, ih hrest⟩⟩
  | case4 x y rest hstart ih =>
      obtain ⟨hx, hrest⟩ := solid_cons_iff.mp h
      exact solid_cons_iff.mpr ⟨hx, ih hrest⟩

/-- A character that starts no separator is kept, and the gap behind it stays unless a separator
follows. -/
theorem tightenFrom_spell_cons (h : Solid ((c, gap) :: rest))
    (hstart : startsSeparator ((c, gap) :: rest) = false) :
    tightenFrom separator separator true [] 0 false (spell ((c, gap) :: rest)) =
      c :: (gapChars (gap && !startsSeparator rest) ++
        tightenFrom separator separator true [] 0 false (spell rest)) := by
  obtain ⟨hc, hrest⟩ := solid_cons_iff.mp h
  rw [← isPrefixOf_separator_spell, spell] at hstart
  rw [spell, tightenFrom, if_neg (by simp [hc]), if_neg (by simp [hstart]),
    tightenFrom_gap separator true (by decide) hrest.startsSolid, isPrefixOf_separator_spell]
  rfl

/-- Dropping the blanks around separators. -/
theorem tighten_separator_spell (h : Solid l) :
    tighten separator separator true (spell l) = spell (Text.joined l) := by
  unfold tighten
  fun_induction Text.joined l with
  | case1 => rfl
  | case2 x =>
      rw [tightenFrom_spell_cons h rfl]
      simp [spell, startsSeparator, tightenFrom]
  | case3 x y rest hstart ih =>
      obtain ⟨hx, hy, hrest⟩ : _ ∧ _ ∧ Solid rest := by
        simpa only [Solid, List.forall_mem_cons] using h
      obtain ⟨rfl, gap, rfl⟩ := startsSeparator_iff.mp hstart
      have hread : tightenFrom separator separator true [] 0 false
          (spell ((':', false) :: (':', gap) :: rest)) =
          ':' :: ':' :: tightenFrom separator separator true [] 0 true
            (gapChars gap ++ spell rest) := rfl
      rw [hread, tightenFrom_eating _ _ _ hrest.startsSolid, ih hrest]
      rfl
  | case4 x y rest hstart ih =>
      rw [tightenFrom_spell_cons h (by simpa using hstart), ih (solid_cons_iff.mp h).2]
      rfl

end CrateAtlas.Text
