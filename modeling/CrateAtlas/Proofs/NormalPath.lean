import CrateAtlas.Proofs.LineScanner
import CrateAtlas.Proofs.SeparatorCuts
import CrateAtlas.Proofs.SpacedText
import Mathlib.Data.List.Chain

/-!
# Normal forms of written paths

Bringing a path into its normal form changes gaps only.  Whether a gap stays is told by the two
characters beside it, and this does not change when it is asked again, except for the separators:
once the gaps before them are closed, the colons of a run are paired anew.  A blank is then left
beside a separator, and is dropped when the normal form is taken once more.

Main results:

- Theorem {lit}`normalizeChars_spell`: the gaps of a normal form.
- Theorem {lit}`settled_joined_iff`: the gaps that taking a normal form again leaves alone.
- Theorem {lit}`loose_spell_iff`: what the other gaps look like in the text.
- Theorem {lit}`normalize_normalize_iff`: which normal forms are stable.
-/

namespace CrateAtlas.ScopePath

open Text (spell gapChars Solid Closed StartsSolid tightened sealed joined startsSeparator
  startsWithChar solid_cons_iff)

variable {l rest : List (Char × Bool)} {c : Char} {gap : Bool} {cs front back further : List Char}

/-! ## The gaps of a normal form -/

/-- The character that comes first. -/
def firstChar? (l : List (Char × Bool)) : Option Char :=
  (l.map Prod.fst).head?

/-- Whether brackets and commas leave a gap behind {lit}`c` and before {lit}`next`, given whether
there was one before. -/
def keepsGap (c : Char) (gap : Bool) (next : Option Char) : Bool :=
  c == ',' || (gap && (c != '<' && next != some '<' && next != some '>' && next != some ','))

/-- The gaps that brackets, commas and the end of a text leave. -/
def settled : List (Char × Bool) → List (Char × Bool)
  | [] => []
  | [(c, _)] => [(c, false)]
  | (c, gap) :: y :: rest => (c, keepsGap c gap (some y.1)) :: settled (y :: rest)

theorem map_fst_settled (l : List (Char × Bool)) :
    (settled l).map Prod.fst = l.map Prod.fst := by
  fun_induction settled l with
  | case1 => rfl
  | case2 c gap => rfl
  | case3 c gap y rest ih => simp only [List.map_cons, ih]

theorem map_fst_joined (l : List (Char × Bool)) : (joined l).map Prod.fst = l.map Prod.fst := by
  fun_induction joined l with
  | case1 => rfl
  | case2 x => rfl
  | case3 x y rest hstart ih => simp only [List.map_cons, ih]
  | case4 x y rest hstart ih => simp only [List.map_cons, ih]

theorem firstChar?_joined (l : List (Char × Bool)) : firstChar? (joined l) = firstChar? l :=
  congrArg List.head? (map_fst_joined l)

theorem settled_ne_nil (h : l ≠ []) : settled l ≠ [] := fun hnil =>
  h (List.map_eq_nil_iff.mp ((map_fst_settled l).symm.trans (congrArg _ hnil)))

theorem joined_ne_nil (h : l ≠ []) : joined l ≠ [] := fun hnil =>
  h (List.map_eq_nil_iff.mp ((map_fst_joined l).symm.trans (congrArg _ hnil)))

theorem firstChar?_tightened (t : Char) (behind : Option Bool) (l : List (Char × Bool)) :
    firstChar? (tightened t behind l) = firstChar? l := by
  cases l <;> rfl

theorem startsWithChar_eq (t : Char) (l : List (Char × Bool)) :
    startsWithChar t l = (firstChar? l == some t) := by
  cases l <;> simp [startsWithChar, firstChar?]

theorem settled_cons (c : Char) (gap : Bool) (hrest : rest ≠ []) :
    settled ((c, gap) :: rest) = (c, keepsGap c gap (firstChar? rest)) :: settled rest := by
  obtain ⟨y, later, rfl⟩ := List.exists_cons_of_ne_nil hrest
  rfl

theorem closed_settled (h : Solid l) : Closed (settled l) := by
  fun_induction settled l with
  | case1 => trivial
  | case2 c gap => exact ⟨(solid_cons_iff.mp h).1, fun _ => rfl, trivial⟩
  | case3 c gap y rest ih =>
      obtain ⟨hc, hrest⟩ := solid_cons_iff.mp h
      exact ⟨hc, fun hnil => (settled_ne_nil (List.cons_ne_nil y rest) hnil).elim, ih hrest⟩

theorem keepsGap_keepsGap (c : Char) (gap : Bool) (next : Option Char) :
    keepsGap c (keepsGap c gap next) next = keepsGap c gap next := by
  cases hcomma : c == ',' <;> simp [keepsGap, hcomma]

theorem settled_settled (l : List (Char × Bool)) : settled (settled l) = settled l := by
  fun_induction settled l with
  | case1 => rfl
  | case2 c gap => rfl
  | case3 c gap y rest ih =>
      rw [settled_cons _ _ (settled_ne_nil (List.cons_ne_nil y rest)), ih, firstChar?,
        map_fst_settled]
      exact congrArg (fun kept => (c, kept) :: settled (y :: rest)) (keepsGap_keepsGap c gap _)

/-- Three tokens, one after the other, close what {lit}`keepsGap` closes. -/
theorem tightened_cons (c : Char) (gap : Bool) (l : List (Char × Bool)) :
    tightened ',' (some true) (tightened '>' none (tightened '<' (some false) ((c, gap) :: l))) =
      (c, keepsGap c gap (firstChar? l)) ::
        tightened ',' (some true) (tightened '>' none (tightened '<' (some false) l)) := by
  simp only [tightened, startsWithChar_eq, firstChar?_tightened, keepsGap, bne]
  by_cases hcomma : c = ','
  · simp [hcomma]
  · have hcomma' : (c == ',') = false := beq_false_of_ne hcomma
    by_cases hopen : c = '<'
    · simp [hopen]
    · have hopen' : (c == '<') = false := beq_false_of_ne hopen
      simp [hcomma, hopen, hcomma', hopen', Bool.and_assoc]

/-- The last three tokens and the end of the text. -/
theorem sealed_tightened (l : List (Char × Bool)) :
    sealed (tightened ',' (some true) (tightened '>' none (tightened '<' (some false) l))) =
      settled l := by
  fun_induction settled l with
  | case1 => rfl
  | case2 c gap => rfl
  | case3 c gap y rest ih =>
      rw [tightened_cons]
      rw [tightened_cons] at ih ⊢
      rw [sealed, ih]
      rfl

/-- The gaps of a normal form. -/
theorem normalizeChars_spell (h : Closed l) :
    normalizeChars (spell l) = spell (settled (joined l)) := by
  have hjoined := h.solid.joined
  have hopened := hjoined.tightened '<' (some false)
  have hclosed := hopened.tightened '>' none
  rw [normalizeChars, h.collapseChars_spell, ← separator, Text.tighten_separator_spell h.solid]
  have htrim := Text.trimChars_spell (hclosed.tightened ',' (some true))
  rw [sealed_tightened, ← Text.tighten_spell hclosed, ← Text.tighten_spell hopened,
    ← Text.tighten_spell hjoined] at htrim
  exact htrim

/-! ## Taking a normal form again -/

/-- Whether the separators close a gap that brackets and commas leave. -/
def loose : List (Char × Bool) → Bool
  | [] => false
  | [_] => false
  | x :: y :: rest =>
      if startsSeparator (x :: y :: rest) then y.2 || loose rest
      else (x.2 && x.1 != ',' && startsSeparator (y :: rest)) || loose (y :: rest)

theorem loose_separator (gap : Bool) (l : List (Char × Bool)) :
    loose ((':', false) :: (':', gap) :: l) = (gap || loose l) := by
  rfl

theorem loose_cons {x y : Char × Bool} (hstart : startsSeparator (x :: y :: rest) = false) :
    loose (x :: y :: rest) =
      ((x.2 && x.1 != ',' && startsSeparator (y :: rest)) || loose (y :: rest)) := by
  rw [loose, hstart, if_neg Bool.false_ne_true]

theorem settled_cons_eq_iff (hrest : rest ≠ []) :
    settled ((c, gap) :: rest) = (c, gap) :: rest ↔
      keepsGap c gap (firstChar? rest) = gap ∧ settled rest = rest := by
  rw [settled_cons c gap hrest, List.cons.injEq, Prod.mk.injEq]
  simp

/-- A gap that brackets and commas leave is left alone by the separator behind it only after a
comma. -/
theorem keepsGap_and_eq_iff {next : Option Char} (h : keepsGap c gap next = gap) (close : Bool) :
    keepsGap c (gap && !close) next = gap ↔ (gap && c != ',' && close) = false := by
  cases close with
  | false => simpa using h
  | true =>
      cases hcomma : c == ',' with
      | false => simp [keepsGap, hcomma, bne]
      | true => simpa [keepsGap, hcomma, bne] using h

/-- Gaps that brackets and commas leave are left alone exactly if the separators close none. -/
theorem settled_joined_iff (h : settled l = l) : settled (joined l) = l ↔ loose l = false := by
  fun_induction joined l with
  | case1 => simp [settled, loose]
  | case2 x => simpa [loose] using h
  | case3 x y rest hstart ih =>
      obtain ⟨rfl, gap, rfl⟩ := Text.startsSeparator_iff.mp hstart
      obtain ⟨-, hbehind⟩ := (settled_cons_eq_iff (List.cons_ne_nil _ _)).mp h
      rw [loose_separator, Bool.or_eq_false_iff]
      cases rest with
      | nil =>
          have hgap : gap = false := by simpa [settled, eq_comm] using hbehind
          simp [joined, settled, keepsGap, loose, hgap]
      | cons z later =>
          obtain ⟨-, hrest⟩ := (settled_cons_eq_iff (List.cons_ne_nil _ _)).mp hbehind
          have hjoined := joined_ne_nil (List.cons_ne_nil z later)
          rw [← ih hrest, settled_cons _ _ (List.cons_ne_nil _ _), settled_cons _ _ hjoined]
          simp [keepsGap, eq_comm]
  | case4 x y rest hstart ih =>
      obtain ⟨c, gap⟩ := x
      obtain ⟨hkept, hrest⟩ := (settled_cons_eq_iff (List.cons_ne_nil _ _)).mp h
      rw [loose_cons (by simpa using hstart), Bool.or_eq_false_iff, ← ih hrest,
        ← keepsGap_and_eq_iff hkept, settled_cons _ _ (joined_ne_nil (List.cons_ne_nil y rest)),
        firstChar?_joined]
      simp

/-! ## Loose gaps in the text -/

/-- A gap that a separator closes: one comes next, unless there is a comma before the gap, or one
has just ended.  The separators in a run of colons are read from its first colon on. -/
def LooseAt (front back : List Char) : Prop :=
  (separator <+: back ∧ front.getLast? ≠ some ',') ∨
    (front.getLast? = some ':' ∧ Even (trailingColons front))

/-- A text with a gap that a separator closes. -/
def Loose (cs : List Char) : Prop :=
  ∃ front back, cs = front ++ ' ' :: back ∧ LooseAt front back

/-- What stands further in front does not matter if it leaves the run of colons even or odd. -/
theorem looseAt_append (hne : front ≠ []) (further : List Char)
    (heven : Even (trailingColons (further ++ front)) ↔ Even (trailingColons front)) :
    LooseAt (further ++ front) back ↔ LooseAt front back := by
  rw [LooseAt, LooseAt, List.getLast?_append_of_ne_nil _ hne, heven]

theorem front_ne_nil_of_startsSolid (h : StartsSolid (front ++ ' ' :: back)) : front ≠ [] := by
  rintro rfl
  exact Text.not_startsSolid_space back h

theorem not_loose_nil : ¬Loose [] := by
  rintro ⟨front, back, h, -⟩
  simp at h

/-- The gaps of a text stand behind what has none. -/
theorem exists_front_of_append (hfurther : ' ' ∉ further) (h : further ++ cs = front ++ ' ' :: back) :
    ∃ later, front = further ++ later ∧ cs = later ++ ' ' :: back := by
  obtain ⟨later, hfront, hcs⟩ | ⟨later, rfl, hback⟩ := List.append_eq_append_iff.mp h
  · exact ⟨later, hfront, hcs⟩
  · cases later with
    | nil => exact ⟨[], by simp, hback.symm⟩
    | cons d rest =>
        obtain rfl : ' ' = d := (List.cons.inj hback).1
        simp at hfurther

/-- In front of a text that does not start with a blank there is no further gap. -/
theorem loose_append_iff (hfurther : ' ' ∉ further) (hcs : StartsSolid cs)
    (heven : ∀ front, front ≠ [] → front <+: cs →
      (Even (trailingColons (further ++ front)) ↔ Even (trailingColons front))) :
    Loose (further ++ cs) ↔ Loose cs := by
  have hat : ∀ {front back}, cs = front ++ ' ' :: back →
      (LooseAt (further ++ front) back ↔ LooseAt front back) := by
    rintro front back rfl
    have hne := front_ne_nil_of_startsSolid hcs
    exact looseAt_append hne further (heven front hne (List.prefix_append _ _))
  constructor
  · rintro ⟨front, back, h, hloose⟩
    obtain ⟨later, rfl, hsplit⟩ := exists_front_of_append hfurther h
    exact ⟨later, back, hsplit, (hat hsplit).mp hloose⟩
  · rintro ⟨front, back, hsplit, hloose⟩
    exact ⟨further ++ front, back, by simp [hsplit], (hat hsplit).mpr hloose⟩

/-- The first gap of a text is loose, or a later one. -/
theorem loose_append_space_iff (hfurther : ' ' ∉ further) (hcs : StartsSolid cs) :
    Loose (further ++ ' ' :: cs) ↔ LooseAt further cs ∨ Loose cs := by
  have hat : ∀ {front back}, cs = front ++ ' ' :: back →
      (LooseAt (further ++ ' ' :: front) back ↔ LooseAt front back) := by
    rintro front back rfl
    have heven := trailingColons_append_cons (c := ' ') (by decide) further front
    rw [List.append_cons] at heven ⊢
    exact looseAt_append (front_ne_nil_of_startsSolid hcs) _ (by rw [heven])
  constructor
  · rintro ⟨front, back, h, hloose⟩
    obtain ⟨later, rfl, hsplit⟩ := exists_front_of_append hfurther h
    cases later with
    | nil =>
        obtain rfl : cs = back := by simpa using hsplit
        exact .inl (by simpa using hloose)
    | cons d rest =>
        obtain ⟨rfl, hrest⟩ := List.cons.inj hsplit
        exact .inr ⟨rest, back, hrest, (hat hrest).mp hloose⟩
  · rintro (hloose | ⟨front, back, hsplit, hloose⟩)
    · exact ⟨further, cs, rfl, hloose⟩
    · exact ⟨further ++ ' ' :: front, back, by simp [hsplit], (hat hsplit).mpr hloose⟩

/-- Behind a separator every gap is loose. -/
theorem loose_separator_iff (hcs : StartsSolid cs) (gap : Bool) :
    Loose (separator ++ (gapChars gap ++ cs)) ↔ gap = true ∨ Loose cs := by
  have hspace : ' ' ∉ separator := by decide
  cases gap with
  | false =>
      simpa [gapChars] using loose_append_iff hspace hcs
        fun front _ _ => even_trailingColons_separator front
  | true =>
      have hat : LooseAt separator cs := .inr ⟨rfl, by decide⟩
      simpa [gapChars, hat] using loose_append_space_iff hspace hcs

theorem separator_prefix_spell_iff (l : List (Char × Bool)) :
    separator <+: spell l ↔ startsSeparator l = true := by
  rw [← Text.isPrefixOf_separator_spell, List.isPrefixOf_iff_prefix]

/-- Behind a character that starts no separator a gap is loose if a separator follows, except behind
a comma. -/
theorem loose_spell_cons_iff (h : Solid ((c, gap) :: rest))
    (hstart : ¬startsSeparator ((c, gap) :: rest) = true) :
    Loose (spell ((c, gap) :: rest)) ↔
      (gap && c != ',' && startsSeparator rest) = true ∨ Loose (spell rest) := by
  obtain ⟨hc, hrest⟩ := solid_cons_iff.mp h
  have hspace : ' ' ∉ [c] := by
    rintro (_ | ⟨_, ⟨⟩⟩)
    exact absurd hc (by decide)
  rw [← separator_prefix_spell_iff] at hstart
  cases gap with
  | false =>
      have hkeep : Loose ([c] ++ spell rest) ↔ Loose (spell rest) :=
        loose_append_iff hspace hrest.startsSolid fun front hne hfront => by
          have hstart' : ¬separator <+: c :: front := fun h =>
            hstart (h.trans (List.cons_prefix_cons.mpr ⟨rfl, hfront⟩))
          rw [List.singleton_append, trailingColons_cons_of_not_start hne hstart']
      simpa [spell, gapChars] using hkeep
  | true =>
      have hodd : ¬([c].getLast? = some ':' ∧ Even (trailingColons [c])) := by
        rintro ⟨hlast, heven⟩
        obtain rfl : c = ':' := by simpa using hlast
        exact absurd heven (by decide)
      have hat : LooseAt [c] (spell rest) ↔ c ≠ ',' ∧ startsSeparator rest = true := by
        rw [LooseAt, or_iff_left hodd, separator_prefix_spell_iff, and_comm]
        simp
      simpa [spell, gapChars, hat] using loose_append_space_iff hspace hrest.startsSolid

/-- The separators close a gap exactly if one in the text is loose. -/
theorem loose_spell_iff (h : Solid l) : loose l = true ↔ Loose (spell l) := by
  fun_induction loose l with
  | case1 => simp [spell, not_loose_nil]
  | case2 x =>
      rw [loose_spell_cons_iff h (by simp [startsSeparator])]
      simp [spell, startsSeparator, not_loose_nil]
  | case3 x y rest hstart ih =>
      obtain ⟨hx, hy, hrest⟩ : _ ∧ _ ∧ Solid rest := by
        simpa only [Solid, List.forall_mem_cons] using h
      obtain ⟨rfl, gap, rfl⟩ := Text.startsSeparator_iff.mp hstart
      rw [Bool.or_eq_true, ih hrest]
      exact (loose_separator_iff hrest.startsSolid gap).symm
  | case4 x y rest hstart ih =>
      rw [Bool.or_eq_true, ih (solid_cons_iff.mp h).2]
      exact (loose_spell_cons_iff h hstart).symm

/-! ## Texts with stable normal forms -/

/-- A normal form is told by the gaps of the text without superfluous blanks. -/
theorem exists_spell_normalizeChars (cs : List Char) :
    ∃ l, Closed l ∧ Text.collapseChars (Text.trimChars cs) = spell l ∧
      normalizeChars cs = spell (settled (joined l)) := by
  obtain ⟨l, hclosed, hspell⟩ := Text.exists_spell_collapseChars cs
  refine ⟨l, hclosed, hspell, ?_⟩
  rw [← normalizeChars_spell hclosed, normalizeChars, normalizeChars, hspell,
    hclosed.collapseChars_spell]

theorem normalizeChars_stable_iff (cs : List Char) :
    normalizeChars (normalizeChars cs) = normalizeChars cs ↔ ¬Loose (normalizeChars cs) := by
  obtain ⟨l, hclosed, -, hnormal⟩ := exists_spell_normalizeChars cs
  have hsettled := closed_settled hclosed.solid.joined
  have hagain := closed_settled hsettled.solid.joined
  rw [hnormal, normalizeChars_spell hsettled, ← loose_spell_iff hsettled.solid,
    Bool.not_eq_true, ← settled_joined_iff (settled_settled _)]
  exact ⟨Text.spell_inj hagain.solid hsettled.solid, congrArg spell⟩

/-- No colon is followed by blanks and another colon. -/
def ColonsApart (cs : List Char) : Prop :=
  ∀ blanks, blanks ≠ [] → (∀ c ∈ blanks, Text.isBlank c = true) →
    ¬(':' :: (blanks ++ [':'])) <:+: cs

theorem ColonsApart.of_infix (h : ColonsApart cs) {part : List Char} (hpart : part <:+: cs) :
    ColonsApart part :=
  fun blanks hne hblanks hfound => h blanks hne hblanks (hfound.trans hpart)

/-- Two colons in a row have no gap between them. -/
def ColonsClose (l : List (Char × Bool)) : Prop :=
  l.IsChain fun x y => ¬(x.1 = ':' ∧ x.2 = true ∧ y.1 = ':')

theorem ColonsApart.colonsClose (h : ColonsApart cs) (hsolid : Solid l)
    (hspell : Text.collapseFrom true cs = spell l) : ColonsClose l := by
  induction cs generalizing l with
  | nil =>
      cases l with
      | nil => exact .nil
      | cons x later => cases hspell
  | cons c rest ih =>
      have hrest := h.of_infix (List.suffix_cons c rest).isInfix
      cases hc : Text.isBlank c with
      | true => exact ih hrest hsolid (by simpa [Text.collapseFrom, hc] using hspell)
      | false =>
          rw [Text.collapseFrom, hc, if_neg Bool.false_ne_true, Text.collapseFrom_false] at hspell
          cases l with
          | nil => cases hspell
          | cons x later =>
              obtain ⟨d, gap⟩ := x
              obtain ⟨-, hlater⟩ := solid_cons_iff.mp hsolid
              obtain ⟨rfl, hbehind⟩ := List.cons.inj hspell
              obtain ⟨rfl, hnext⟩ := Text.gapChars_append_inj (Text.startsSolid_collapseFrom rest)
                hlater.startsSolid hbehind
              refine List.isChain_cons.mpr ⟨?_, ih hrest hlater hnext⟩
              rintro y hy ⟨hcolon, hgap, hcolon'⟩
              obtain ⟨later', rfl⟩ := List.head?_eq_some_iff.mp hy
              have hhead : (Text.collapseFrom true rest).head? = some ':' := by
                rw [hnext, ← hcolon']
                rfl
              obtain ⟨blanks, back, rfl, hne, hblanks⟩ := Text.exists_blanks_of_head? hgap hhead
              obtain rfl : c = ':' := hcolon
              exact h blanks hne hblanks ⟨[], back, by simp⟩

theorem separator_prefix_of_startsSeparator (h : startsSeparator l = true) :
    separator <+: l.map Prod.fst := by
  match l with
  | x :: y :: rest =>
      obtain ⟨rfl, gap, rfl⟩ := Text.startsSeparator_iff.mp h
      simp [separator]

/-- If colons in a row have no gaps, there are separators wherever there are in any spacing. -/
theorem ColonsClose.startsSeparator_of_chars (h : ColonsClose l) {l' : List (Char × Bool)}
    (hchars : l'.map Prod.fst = l.map Prod.fst) (hstart : startsSeparator l' = true) :
    startsSeparator l = true := by
  have hprefix := separator_prefix_of_startsSeparator hstart
  rw [hchars] at hprefix
  match l with
  | [x] => simp [separator] at hprefix
  | (c, gap) :: (d, gap') :: rest =>
      obtain ⟨hnear, -⟩ := List.isChain_cons_cons.mp h
      obtain ⟨rfl, rfl⟩ : ':' = c ∧ ':' = d := by simpa [separator] using hprefix
      cases gap with
      | false => exact Text.startsSeparator_iff.mpr ⟨rfl, gap', rfl⟩
      | true => exact (hnear ⟨rfl, rfl, rfl⟩).elim

/-- If colons in a row have no gaps, one pass closes the gaps of all separators. -/
theorem ColonsClose.not_loose (h : ColonsClose l) : loose (settled (joined l)) = false := by
  fun_induction joined l with
  | case1 => rfl
  | case2 x => rfl
  | case3 x y rest hstart ih =>
      obtain ⟨rfl, gap, rfl⟩ := Text.startsSeparator_iff.mp hstart
      cases rest with
      | nil => rfl
      | cons z later =>
          have hkept : ∀ next, keepsGap ':' false next = false := fun next => by
            simp [keepsGap]
          rw [settled_cons _ _ (List.cons_ne_nil _ _),
            settled_cons _ _ (joined_ne_nil (List.cons_ne_nil z later)), hkept, hkept,
            loose_separator, ih h.tail.tail]
          rfl
  | case4 x y rest hstart ih =>
      obtain ⟨c, gap⟩ := x
      have hrest : ColonsClose (y :: rest) := h.tail
      have hchars := (map_fst_settled (joined (y :: rest))).trans (map_fst_joined (y :: rest))
      have hloose := ih hrest
      rw [settled_cons _ _ (joined_ne_nil (List.cons_ne_nil y rest)), firstChar?_joined]
      obtain ⟨z, later, hnext⟩ :=
        List.exists_cons_of_ne_nil (settled_ne_nil (joined_ne_nil (List.cons_ne_nil y rest)))
      rw [hnext] at hchars hloose ⊢
      have hstart' : startsSeparator
          ((c, keepsGap c (gap && !startsSeparator (y :: rest)) (firstChar? (y :: rest))) ::
            z :: later) = false := by
        rw [← Bool.not_eq_true]
        exact fun hfound => hstart (h.startsSeparator_of_chars (by simpa using hchars) hfound)
      rw [loose_cons hstart', hloose, Bool.or_false, ← Bool.not_eq_true]
      intro hfound
      simp only [Bool.and_eq_true, bne_iff_ne] at hfound
      obtain ⟨⟨hkept, hcomma⟩, hsep⟩ := hfound
      rw [hrest.startsSeparator_of_chars hchars hsep] at hkept
      simp [keepsGap, hcomma] at hkept

theorem not_loose_of_colonsApart (h : ColonsApart cs) :
    ¬Loose (normalizeChars cs) := by
  obtain ⟨l, hclosed, hspell, hnormal⟩ := exists_spell_normalizeChars cs
  rw [(Text.trimChars_ends cs).1.collapseChars] at hspell
  have hclose := (h.of_infix (LineClass.infix_trimChars cs)).colonsClose hclosed.solid hspell
  have hsettled := closed_settled hclosed.solid.joined
  rw [hnormal, ← loose_spell_iff hsettled.solid, hclose.not_loose]
  exact Bool.false_ne_true

/-- A normal form is stable exactly if no gap in it is loose, and none is if no two colons of the
path are separated by blanks alone. -/
theorem normalize_normalize_iff (path : String) :
    (normalize (normalize path) = normalize path ↔ ¬Loose (normalize path).toList) ∧
      (ColonsApart path.toList → normalize (normalize path) = normalize path) := by
  have hstable : normalize (normalize path) = normalize path ↔ ¬Loose (normalize path).toList := by
    rw [normalize, normalize, String.toList_ofList, ← normalizeChars_stable_iff]
    exact String.ofList_inj
  refine ⟨hstable, fun h => hstable.mpr ?_⟩
  rw [normalize, String.toList_ofList]
  exact not_loose_of_colonsApart h

theorem normalize_normalize_iff_sample :
    ColonsApart " Vec < std :: T >".toList ∧
      normalize " Vec < std :: T >" = "Vec<std::T>" ∧
      normalize (normalize " Vec < std :: T >") = normalize " Vec < std :: T >" := by
  have hapart : ColonsApart " Vec < std :: T >".toList := by
    intro blanks hne hblanks hfound
    obtain ⟨b, rest, rfl⟩ := List.exists_cons_of_ne_nil hne
    obtain ⟨rfl, -⟩ | ⟨rfl, hbehind⟩ :
        b = ':' ∧ _ ∨ b = ' ' ∧ rest ++ [':'] <+: ['T', ' ', '>'] := by
      simpa [List.infix_cons_iff, List.cons_prefix_cons] using hfound
    · exact absurd (hblanks ':' List.mem_cons_self) (by decide)
    · exact absurd (hbehind.subset (List.mem_append_right rest (List.mem_singleton_self ':')))
        (by decide)
  exact ⟨hapart, by decide +kernel, (normalize_normalize_iff _).2 hapart⟩

/-- The single colon in front of a path from the root takes the first colon of its separator. -/
theorem normalize_normalize_strays :
    normalize "T : ::std::fmt::Debug" = "T :::std::fmt::Debug" ∧
      normalize (normalize "T : ::std::fmt::Debug") ≠ normalize "T : ::std::fmt::Debug" := by
  decide +kernel

end CrateAtlas.ScopePath
