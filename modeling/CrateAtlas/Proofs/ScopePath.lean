import CrateAtlas.ScopePath.Candidate
import Mathlib.Data.List.Basic

/-!
# Segments of scope paths

Joining segments and splitting the path again gives the segments back as long as each of them
closes its brackets and does not end in a colon.  All segments that splitting yields do, except
perhaps the last one.

Main results:

- Theorem {lit}`splitChars_cases`: the segments of a path, in terms of how they are read.
- Theorem {lit}`withoutGenerics_words`: dropping generic arguments after leading words.
- Theorem {lit}`extends_of_key`: a name qualified by leading segments of a path starts with those
  words with which the path starts.
-/

namespace CrateAtlas.ScopePath

variable {a b p w x : List Char} {words front back : List (List Char)}

/-! ## Joining -/

@[simp]
theorem joinChars_nil_left (b : List Char) : joinChars [[], b] = b := by
  cases b <;> simp [joinChars]

@[simp]
theorem joinChars_nil_right (a : List Char) : joinChars [a, []] = a := by
  cases a <;> simp [joinChars]

@[simp]
theorem joinChars_singleton (a : List Char) : joinChars [a] = a := by
  cases a <;> simp [joinChars]

theorem joinChars_pair (ha : a ≠ []) (hb : b ≠ []) : joinChars [a, b] = a ++ separator ++ b := by
  simp [joinChars, ha, hb, List.intercalate]

theorem joinChars_pair_eq_nil : joinChars [a, b] = [] ↔ a = [] ∧ b = [] := by
  by_cases ha : a = []
  · simp [ha]
  · by_cases hb : b = []
    · simp [hb]
    · simp [joinChars_pair ha hb, ha]

/-- The first segment is joined with all others joined. -/
theorem joinChars_cons (a : List Char) (rest : List (List Char)) :
    joinChars (a :: rest) = joinChars [a, joinChars rest] := by
  by_cases ha : a = []
  · rw [ha, joinChars_nil_left]
    rfl
  · unfold joinChars
    rw [List.filter_cons_of_pos (by simpa using ha)]
    cases hrest : rest.filter fun segment => !segment.isEmpty with
    | nil => simp [ha]
    | cons first later =>
        have hfirst : first ≠ [] := by
          have hmem : first ∈ rest.filter fun segment => !segment.isEmpty := by simp [hrest]
          simpa using (List.mem_filter.mp hmem).2
        have hjoined : separator.intercalate (first :: later) ≠ [] := by
          cases later with
          | nil => simpa using hfirst
          | cons second last => simp [List.intercalate_cons_cons, hfirst]
        simp [ha, hjoined, List.intercalate_cons_cons]

theorem joinChars_assoc (a b c : List Char) :
    joinChars [joinChars [a, b], c] = joinChars [a, joinChars [b, c]] := by
  by_cases ha : a = []
  · simp [ha]
  · by_cases hb : b = []
    · simp [hb]
    · by_cases hc : c = []
      · simp [hc]
      · have hab : a ++ separator ++ b ≠ [] := by simp [ha]
        have hbc : b ++ separator ++ c ≠ [] := by simp [hb]
        rw [joinChars_pair ha hb, joinChars_pair hb hc, joinChars_pair hab hc,
          joinChars_pair ha hbc]
        simp

theorem joinChars_append (front back : List (List Char)) :
    joinChars (front ++ back) = joinChars [joinChars front, joinChars back] := by
  induction front with
  | nil =>
      rw [List.nil_append, show joinChars [] = [] from rfl, joinChars_nil_left]
  | cons first rest ih =>
      rw [List.cons_append, joinChars_cons, ih, joinChars_cons first rest, joinChars_assoc]

/-! ## Paths that start with others -/

/-- A path starts with another one, and with whole segments of it. -/
def Extends (path root : List Char) : Prop :=
  root ++ separator <+: path ++ separator

instance (path root : List Char) : Decidable (Extends path root) :=
  inferInstanceAs (Decidable (_ <+: _))

theorem Extends.length_le {path root : List Char} (h : Extends path root) :
    root.length ≤ path.length := by
  have hlength := List.IsPrefix.length_le h
  simp only [List.length_append] at hlength
  omega

theorem Extends.trans {path middle root : List Char} (h : Extends path middle)
    (h' : Extends middle root) : Extends path root :=
  List.IsPrefix.trans h' h

theorem extends_append (a b : List Char) : Extends (a ++ separator ++ b) a :=
  ⟨b ++ separator, by simp⟩

theorem extends_joinChars (ha : a ≠ []) (b : List Char) : Extends (joinChars [a, b]) a := by
  by_cases hb : b = []
  · rw [hb, joinChars_nil_right]
    exact List.prefix_rfl
  · rw [joinChars_pair ha hb]
    exact extends_append a b

/-- Two ways to cut a path after which no colon follows. -/
theorem extends_of_append_eq {r : List Char} (hx : ':' ∉ x)
    (h : a ++ separator ++ x = b ++ separator ++ r) : Extends a b := by
  rcases List.append_eq_append_iff.mp h with ⟨between, hb, hrest⟩ | ⟨between, ha, -⟩
  · cases hlast : between.getLast? with
    | none =>
        rw [List.getLast?_eq_none_iff] at hlast
        rw [hlast, List.append_nil] at hb
        exact ⟨[], by rw [hb, List.append_nil]⟩
    | some c =>
        -- What stands between the two cuts ends with the second separator.
        have hcolon : c = ':' := by
          have hend := congrArg List.getLast? hb
          rw [List.getLast?_append, List.getLast?_append, hlast] at hend
          simpa [separator] using hend.symm
        have hmem : c ∈ between := List.mem_of_getLast? hlast
        exact absurd (hrest ▸ List.mem_append_left r (hcolon ▸ hmem)) hx
  · exact ⟨between, ha.symm⟩

/-- A path that does not end in a colon is equal to a path with which it starts, or goes on after a
separator. -/
theorem Extends.cases (h : Extends a b) (ha : a.getLast? ≠ some ':') :
    a = b ∨ ∃ rest, rest ≠ [] ∧ a = b ++ separator ++ rest := by
  obtain ⟨rest, hrest⟩ := h
  rw [List.append_assoc] at hrest
  rcases List.append_eq_append_iff.mp hrest with ⟨between, rfl, hsep⟩ | ⟨between, hb, hsep⟩
  · match between, hsep with
    | [], _ => exact .inl (List.append_nil b)
    | [c], hsep =>
        simp only [separator, List.cons_append, List.nil_append, List.cons.injEq] at hsep
        exact absurd (by simp [← hsep.1]) ha
    | c :: d :: later, hsep =>
        simp only [separator, List.cons_append, List.nil_append, List.cons.injEq] at hsep
        obtain ⟨rfl, rfl, -⟩ := hsep
        cases later with
        | nil => exact absurd (by simp) ha
        | cons first last => exact .inr ⟨first :: last, by simp, by simp [separator]⟩
  · have hlength := congrArg List.length hsep
    simp only [List.length_append] at hlength
    have hempty : between = [] := List.length_eq_zero_iff.mp (by omega)
    rw [hempty, List.append_nil] at hb
    exact .inl hb.symm

/-! ## Reading a segment -/

theorem segmentsFrom_cut (previous : Char) (segment cs : List Char) :
    segmentsFrom previous 0 segment (separator ++ cs) =
      segment.reverse :: segmentsFrom ':' 0 [] cs := by
  simp [separator, segmentsFrom]

/-- Unless a separator begins, a character is added to the segment. -/
theorem segmentsFrom_cons {previous c : Char} {depth : Nat} {segment cs : List Char}
    (h : ¬(depth = 0 ∧ c = ':' ∧ cs.head? = some ':')) :
    segmentsFrom previous depth segment (c :: cs) =
      segmentsFrom c (depthAfter previous depth c) (c :: segment) cs := by
  rw [segmentsFrom]
  rintro rest rfl rfl rfl
  exact h ⟨rfl, rfl, rfl⟩

theorem depthAfter_zero_congr (previous previous' c : Char) :
    depthAfter previous 0 c = depthAfter previous' 0 c := by
  unfold depthAfter
  split
  · rfl
  · split <;> split <;> rfl

/-- Outside brackets the character before does not matter. -/
theorem segmentsFrom_previous (previous previous' : Char) (segment cs : List Char) :
    segmentsFrom previous 0 segment cs = segmentsFrom previous' 0 segment cs := by
  cases cs with
  | nil => simp [segmentsFrom]
  | cons c rest =>
      by_cases hcut : c = ':' ∧ rest.head? = some ':'
      · obtain ⟨rfl, hrest⟩ := hcut
        obtain ⟨rest, rfl⟩ := List.head?_eq_some_iff.mp hrest
        exact (segmentsFrom_cut previous segment rest).trans
          (segmentsFrom_cut previous' segment rest).symm
      · rw [segmentsFrom_cons fun h => hcut h.2, segmentsFrom_cons fun h => hcut h.2,
          depthAfter_zero_congr previous previous']

theorem outsideFrom_cons (previous c : Char) (depth : Nat) (cs : List Char) :
    outsideFrom previous depth (c :: cs) =
      outsideFrom previous depth [c] ++ outsideFrom c (depthAfter previous depth c) cs := by
  simp only [outsideFrom]
  split <;> rfl

/-- Reading a segment, given in reverse, ends after a character at a bracket depth, whatever
follows; only a colon at depth zero must not meet another one. -/
structure Reads (segment : List Char) (previous : Char) (depth : Nat) : Prop where
  segments : ∀ cs, ¬(depth = 0 ∧ segment.head? = some ':' ∧ cs.head? = some ':') →
    segmentsFrom ' ' 0 [] (segment.reverse ++ cs) = segmentsFrom previous depth segment cs
  outside : ∀ cs, outsideFrom ' ' 0 (segment.reverse ++ cs) =
    outsideFrom ' ' 0 segment.reverse ++ outsideFrom previous depth cs

theorem Reads.start (previous : Char) : Reads [] previous 0 := by
  refine ⟨fun cs _ => segmentsFrom_previous _ _ _ _, fun cs => ?_⟩
  cases cs with
  | nil => rfl
  | cons c rest =>
      simp only [List.reverse_nil, List.nil_append, outsideFrom]
      rw [depthAfter_zero_congr ' ' previous]

theorem Reads.cons {segment : List Char} {previous c : Char} {depth : Nat}
    (h : Reads segment previous depth)
    (hc : ¬(depth = 0 ∧ segment.head? = some ':' ∧ c = ':')) :
    Reads (c :: segment) c (depthAfter previous depth c) := by
  constructor
  · intro cs hcs
    rw [List.reverse_cons, List.append_assoc, List.singleton_append,
      h.segments (c :: cs) (by simpa using hc), segmentsFrom_cons]
    rintro ⟨rfl, rfl, hhead⟩
    exact hcs ⟨rfl, rfl, hhead⟩
  · intro cs
    rw [List.reverse_cons, List.append_assoc, List.singleton_append, h.outside (c :: cs),
      h.outside [c], outsideFrom_cons, List.append_assoc]

/-- A segment after which a separator is recognised. -/
def Settles (segment : List Char) : Prop :=
  segment.getLast? ≠ some ':' ∧ ∃ previous, Reads segment.reverse previous 0

theorem Reads.segmentsFrom_self {segment : List Char} {previous : Char} {depth : Nat}
    (h : Reads segment.reverse previous depth) : segmentsFrom ' ' 0 [] segment = [segment] := by
  have hsegments := h.segments [] (by simp)
  simpa [segmentsFrom] using hsegments

theorem Settles.segmentsFrom_append (h : Settles p) (cs : List Char) :
    segmentsFrom ' ' 0 [] (p ++ separator ++ cs) = p :: segmentsFrom ' ' 0 [] cs := by
  obtain ⟨hlast, previous, hreads⟩ := h
  have hsegments := hreads.segments (separator ++ cs) (by
    rintro ⟨-, hhead, -⟩
    exact hlast (by simpa using hhead))
  rw [List.reverse_reverse, segmentsFrom_cut, List.reverse_reverse,
    segmentsFrom_previous ':' ' '] at hsegments
  rw [List.append_assoc, hsegments]

/-- The segments of a path: all but the last one settle, and the last one is the end of the path. -/
theorem segmentsFrom_cases {previous : Char} {depth : Nat} {segment cs : List Char}
    (hreads : Reads segment previous depth)
    (hcs : ¬(depth = 0 ∧ segment.head? = some ':' ∧ cs.head? = some ':')) :
    ∃ front last, segmentsFrom previous depth segment cs = front ++ [last] ∧
      (∀ p ∈ front, Settles p) ∧ (∃ previous depth, Reads last.reverse previous depth) ∧
      last <:+ segment.reverse ++ cs := by
  fun_induction segmentsFrom previous depth segment cs with
  | case1 previous depth segment =>
      refine ⟨[], segment.reverse, rfl, by simp, ⟨previous, depth, ?_⟩, by simp⟩
      rw [List.reverse_reverse]
      exact hreads
  | case2 previous segment rest ih =>
      -- A separator: the segment settles, since no colon stands before it.
      obtain ⟨front, last, hsegments, hfront, hlast, hsuffix⟩ := ih (.start ':') (by simp)
      have hsettles : Settles segment.reverse := by
        refine ⟨?_, previous, by simpa using hreads⟩
        intro hcolon
        exact hcs ⟨rfl, by simpa using hcolon, rfl⟩
      refine ⟨segment.reverse :: front, last, by rw [hsegments]; rfl, ?_, hlast, ?_⟩
      · intro p hp
        rcases List.mem_cons.mp hp with rfl | hp
        · exact hsettles
        · exact hfront p hp
      · obtain ⟨before, hbefore⟩ := hsuffix
        rw [List.reverse_nil, List.nil_append] at hbefore
        exact ⟨segment.reverse ++ separator ++ before, by simp [separator, hbefore]⟩
  | case3 previous depth segment c rest hnocut ih =>
      have hc : ¬(depth = 0 ∧ segment.head? = some ':' ∧ c = ':') := by
        rintro ⟨hdepth, hhead, rfl⟩
        exact hcs ⟨hdepth, hhead, rfl⟩
      obtain ⟨front, last, hsegments, hfront, hlast, hsuffix⟩ := ih (hreads.cons hc) (by
        rintro ⟨hdepth, hhead, hrest⟩
        obtain rfl : c = ':' := by simpa using hhead
        obtain ⟨later, hlater⟩ := List.head?_eq_some_iff.mp hrest
        exact hnocut later hdepth rfl hlater)
      exact ⟨front, last, hsegments, hfront, hlast, by simpa using hsuffix⟩

/-! ## Splitting what was joined -/

theorem Reads.splitChars_self {previous : Char} {depth : Nat}
    (h : Reads p.reverse previous depth) (hp : p ≠ []) : splitChars p = [p] := by
  rw [splitChars, h.segmentsFrom_self]
  simpa using hp

theorem Settles.splitChars_pair (h : Settles p) (hp : p ≠ []) (cs : List Char) :
    splitChars (joinChars [p, cs]) = p :: splitChars cs := by
  by_cases hcs : cs = []
  · obtain ⟨-, previous, hreads⟩ := h
    rw [hcs, joinChars_nil_right, hreads.splitChars_self hp]
    rfl
  · rw [joinChars_pair hp hcs, splitChars, h.segmentsFrom_append, List.filter_cons_of_pos]
    · rfl
    · simpa using hp

/-- Segments that settle are read back. -/
theorem splitChars_joinChars (hfront : ∀ p ∈ front, p ≠ [] ∧ Settles p) (cs : List Char) :
    splitChars (joinChars [joinChars front, cs]) = front ++ splitChars cs := by
  induction front with
  | nil =>
      rw [show joinChars [] = [] from rfl, joinChars_nil_left]
      rfl
  | cons p rest ih =>
      obtain ⟨hp, hsettles⟩ := hfront p (by simp)
      rw [joinChars_cons p rest, joinChars_assoc, hsettles.splitChars_pair hp,
        ih fun q hq => hfront q (by simp [hq])]
      rfl

/-- A segment that leaves a bracket open. -/
def LeavesOpen (segment : List Char) : Prop :=
  ∃ previous depth, Reads segment.reverse previous (depth + 1)

/-- The segments of a path that does not end in a colon all settle, except that the last one may
leave a bracket open. -/
theorem exists_settled {cs : List Char} (hcs : cs.getLast? ≠ some ':') :
    ∃ settled, (∀ p ∈ settled, p ≠ [] ∧ Settles p) ∧
      (splitChars cs = settled ∨ ∃ last, last ≠ [] ∧ last.getLast? ≠ some ':' ∧
        LeavesOpen last ∧ splitChars cs = settled ++ [last]) := by
  obtain ⟨front, last, hsegments, hfront, ⟨previous, depth, hreads⟩, before, hbefore⟩ :=
    @segmentsFrom_cases ' ' 0 [] cs (.start ' ') (by simp)
  rw [List.reverse_nil, List.nil_append] at hbefore
  have hsettled : ∀ p ∈ front.filter fun segment => !segment.isEmpty, p ≠ [] ∧ Settles p := by
    intro p hp
    obtain ⟨hmem, hne⟩ := List.mem_filter.mp hp
    exact ⟨by simpa using hne, hfront p hmem⟩
  rw [splitChars, hsegments, List.filter_append]
  by_cases hlast : last = []
  · exact ⟨_, hsettled, .inl (by simp [hlast])⟩
  · have hcolon : last.getLast? ≠ some ':' := by
      intro hcolon
      rw [← hbefore, List.getLast?_append, hcolon] at hcs
      exact hcs rfl
    have hkept : [last].filter (fun segment => !segment.isEmpty) = [last] := by simpa using hlast
    rw [hkept]
    cases depth with
    | succ depth => exact ⟨_, hsettled, .inr ⟨last, hlast, hcolon, ⟨previous, depth, hreads⟩, rfl⟩⟩
    | zero =>
        refine ⟨_, ?_, .inl rfl⟩
        intro p hp
        rcases List.mem_append.mp hp with hp | hp
        · exact hsettled p hp
        · obtain rfl : p = last := by simpa using hp
          exact ⟨hlast, hcolon, previous, hreads⟩

/-- A segment of a path and those before it. -/
theorem splitChars_cases {cs : List Char} (hcs : cs.getLast? ≠ some ':')
    (h : splitChars cs = front ++ p :: back) :
    (∀ q ∈ front, q ≠ [] ∧ Settles q) ∧ p ≠ [] ∧ p.getLast? ≠ some ':' ∧
      (Settles p ∨ LeavesOpen p) := by
  obtain ⟨settled, hsettled, hall | ⟨last, hlast, hcolon, hopen, hall⟩⟩ := exists_settled hcs
  · rw [hall] at h
    subst h
    obtain ⟨hp, hsettles⟩ := hsettled p (by simp)
    exact ⟨fun q hq => hsettled q (by simp [hq]), hp, hsettles.1, .inl hsettles⟩
  · rw [hall] at h
    rcases List.eq_nil_or_concat back with rfl | ⟨inner, final, rfl⟩
    · obtain ⟨rfl, hsame⟩ := List.append_inj' h rfl
      obtain rfl : last = p := by simpa using hsame
      exact ⟨hsettled, hlast, hcolon, .inr hopen⟩
    · rw [List.concat_eq_append, ← List.cons_append, ← List.append_assoc] at h
      obtain ⟨rfl, -⟩ := List.append_inj' h rfl
      obtain ⟨hp, hsettles⟩ := hsettled p (by simp)
      exact ⟨fun q hq => hsettled q (by simp [hq]), hp, hsettles.1, .inl hsettles⟩

/-! ## Words -/

/-- A segment like an identifier: no colon, no angle bracket, no blank at its ends. -/
structure Word (w : List Char) : Prop where
  ne_nil : w ≠ []
  colon : ':' ∉ w
  opening : '<' ∉ w
  closing : '>' ∉ w
  trim : Text.trimChars w = w

instance (w : List Char) : Decidable (Word w) :=
  decidable_of_iff (w ≠ [] ∧ ':' ∉ w ∧ '<' ∉ w ∧ '>' ∉ w ∧ Text.trimChars w = w)
    ⟨fun h => ⟨h.1, h.2.1, h.2.2.1, h.2.2.2.1, h.2.2.2.2⟩,
      fun h => ⟨h.ne_nil, h.colon, h.opening, h.closing, h.trim⟩⟩

theorem depthAfter_of_ne {previous c : Char} {depth : Nat} (hopening : c ≠ '<')
    (hclosing : c ≠ '>') : depthAfter previous depth c = depth := by
  simp [depthAfter, hopening, hclosing]

/-- Characters other than colons and brackets leave a reader at depth zero. -/
theorem Reads.append {segment : List Char} {previous : Char} (h : Reads segment previous 0)
    (hcolon : ':' ∉ w) (hopening : '<' ∉ w) (hclosing : '>' ∉ w) :
    ∃ previous', Reads (w.reverse ++ segment) previous' 0 := by
  induction w generalizing segment previous with
  | nil => exact ⟨previous, h⟩
  | cons c rest ih =>
      simp only [List.mem_cons, not_or] at hcolon hopening hclosing
      have hnext := @Reads.cons segment previous c 0 h fun hc => hcolon.1 hc.2.2.symm
      rw [depthAfter_of_ne (Ne.symm hopening.1) (Ne.symm hclosing.1)] at hnext
      obtain ⟨previous', hreads⟩ := ih hnext hcolon.2 hopening.2 hclosing.2
      exact ⟨previous', by simpa using hreads⟩

theorem Word.settles (h : Word w) : Settles w := by
  obtain ⟨previous, hreads⟩ := (Reads.start ' ').append h.colon h.opening h.closing
  refine ⟨fun hlast => h.colon (List.mem_of_getLast? hlast), previous, ?_⟩
  rwa [List.append_nil] at hreads

/-- A path of words does not end in a colon. -/
theorem getLast?_joinChars_words (hwords : ∀ w ∈ words, Word w) :
    (joinChars words).getLast? ≠ some ':' := by
  induction words with
  | nil => simp [joinChars]
  | cons w rest ih =>
      have hw := (hwords w (by simp)).settles.1
      have hrest := ih fun v hv => hwords v (by simp [hv])
      rw [joinChars_cons]
      by_cases hnil : joinChars rest = []
      · rwa [hnil, joinChars_nil_right]
      · obtain ⟨c, hc⟩ := Option.isSome_iff_exists.mp (List.getLast?_isSome.mpr hnil)
        rw [joinChars_pair (hwords w (by simp)).ne_nil hnil, List.getLast?_append, hc]
        rwa [hc] at hrest

/-- Outside brackets nothing but an opening bracket changes the depth. -/
theorem depthAfter_zero_of_ne {c : Char} (h : c ≠ '<') (previous : Char) :
    depthAfter previous 0 c = 0 := by
  simp [depthAfter, h]

theorem outsideFrom_of_notMem (hopening : '<' ∉ w) :
    ∀ previous, outsideFrom previous 0 w = w := by
  induction w with
  | nil =>
      intro previous
      rfl
  | cons c rest ih =>
      intro previous
      simp only [List.mem_cons, not_or] at hopening
      rw [outsideFrom, depthAfter_zero_of_ne (Ne.symm hopening.1)]
      simp [ih hopening.2]

theorem outsideFrom_succ_of_notMem (hopening : '<' ∉ w) (hclosing : '>' ∉ w) :
    ∀ previous depth, outsideFrom previous (depth + 1) w = [] := by
  induction w with
  | nil =>
      intro previous depth
      rfl
  | cons c rest ih =>
      intro previous depth
      simp only [List.mem_cons, not_or] at hopening hclosing
      rw [outsideFrom, depthAfter_of_ne (Ne.symm hopening.1) (Ne.symm hclosing.1)]
      simp [ih hopening.2 hclosing.2]

theorem cutFrom_of_notMem (hcolon : ':' ∉ w) :
    ∀ piece, Text.cutFrom separator 0 piece w = [piece.reverse ++ w] := by
  induction w with
  | nil =>
      intro piece
      simp [Text.cutFrom]
  | cons c rest ih =>
      intro piece
      simp only [List.mem_cons, not_or] at hcolon
      have hno : separator.isPrefixOf (c :: rest) = false := by
        simp [separator, List.isPrefixOf, hcolon.1]
      simp [Text.cutFrom, hno, ih hcolon.2]

theorem Word.plainSegment_eq (h : Word w) : plainSegment w = w := by
  have hhead : w.head? ≠ some '<' := fun hhead => h.opening (List.mem_of_mem_head? hhead)
  rw [plainSegment, if_neg hhead, withoutGenericsChars,
    outsideFrom_of_notMem h.opening, Text.cut, cutFrom_of_notMem h.colon]
  simpa using h.trim

/-- Leading words are kept when generic arguments are dropped. -/
theorem withoutGenerics_words (hwords : ∀ w ∈ words, Word w) (cs : List Char) :
    withoutSegmentGenericsChars (joinChars [joinChars words, cs]) =
      joinChars [joinChars words, withoutSegmentGenericsChars cs] := by
  have hplain : words.map plainSegment = words := by
    conv_rhs => rw [← List.map_id words]
    exact List.map_congr_left fun w hw => (hwords w hw).plainSegment_eq
  rw [withoutSegmentGenericsChars,
    splitChars_joinChars fun w hw => ⟨(hwords w hw).ne_nil, (hwords w hw).settles⟩,
    List.map_append, hplain, joinChars_append]
  rfl

/-! ## Names qualified by leading segments -/

theorem segmentsFrom_succ_of_notMem (hopening : '<' ∉ w) (hclosing : '>' ∉ w) :
    ∀ previous depth segment,
      segmentsFrom previous (depth + 1) segment w = [segment.reverse ++ w] := by
  induction w with
  | nil =>
      intro previous depth segment
      simp [segmentsFrom]
  | cons c rest ih =>
      intro previous depth segment
      simp only [List.mem_cons, not_or] at hopening hclosing
      rw [segmentsFrom_cons (by simp), depthAfter_of_ne (Ne.symm hopening.1)
        (Ne.symm hclosing.1), ih hopening.2 hclosing.2]
      simp

/-- A word after an open bracket belongs to the segment, and is dropped with the bracket unless
the whole segment stays. -/
theorem LeavesOpen.withoutGenerics_pair (h : LeavesOpen p) (hp : p ≠ []) (hx : Word x) :
    withoutSegmentGenericsChars (p ++ separator ++ x) = joinChars [plainSegment p, x] ∨
      withoutSegmentGenericsChars (p ++ separator ++ x) = plainSegment p := by
  obtain ⟨previous, depth, hreads⟩ := h
  have hopening : '<' ∉ separator ++ x := by simpa [separator] using hx.opening
  have hclosing : '>' ∉ separator ++ x := by simpa [separator] using hx.closing
  have hsplit : splitChars (p ++ separator ++ x) = [p ++ separator ++ x] := by
    have hsegments := hreads.segments (separator ++ x) (by simp)
    rw [segmentsFrom_succ_of_notMem hopening hclosing, List.reverse_reverse] at hsegments
    rw [splitChars, List.append_assoc, hsegments]
    simp [hp]
  rw [withoutSegmentGenericsChars, hsplit, List.map_singleton, joinChars_singleton, plainSegment,
    plainSegment]
  obtain ⟨c, rest, rfl⟩ := List.exists_cons_of_ne_nil hp
  by_cases hbracket : c = '<'
  · left
    simp only [List.cons_append, List.head?_cons, hbracket, if_true]
    rw [joinChars_pair (by simp) hx.ne_nil]
    rfl
  · right
    have houtside := hreads.outside (separator ++ x)
    rw [outsideFrom_succ_of_notMem hopening hclosing, List.append_nil, List.reverse_reverse]
      at houtside
    simp only [List.cons_append, List.head?_cons, Option.some.injEq, hbracket, if_false]
    rw [withoutGenericsChars, withoutGenericsChars, ← List.cons_append, ← List.cons_append,
      List.append_assoc, houtside]

theorem Word.withoutGenerics_eq (hx : Word x) : withoutSegmentGenericsChars x = x := by
  have hsplit := hx.settles.splitChars_pair hx.ne_nil []
  rw [joinChars_nil_right] at hsplit
  rw [withoutSegmentGenericsChars, hsplit, List.map_cons, hx.plainSegment_eq]
  exact joinChars_singleton x

/-- Dropping the generic arguments of a word qualified by the leading segments of a path. -/
theorem withoutGenerics_key {cs : List Char} (hcs : cs.getLast? ≠ some ':')
    (h : splitChars cs = front ++ p :: back) (hx : Word x) :
    withoutSegmentGenericsChars (joinChars (front ++ [p, x])) =
        joinChars [joinChars ((front ++ [p]).map plainSegment), x] ∨
      withoutSegmentGenericsChars (joinChars (front ++ [p, x])) =
        joinChars ((front ++ [p]).map plainSegment) := by
  obtain ⟨hfront, hp, -, hsettles | hopen⟩ := splitChars_cases hcs h
  · left
    have hall : ∀ q ∈ front ++ [p], q ≠ [] ∧ Settles q := by
      intro q hq
      rcases List.mem_append.mp hq with hq | hq
      · exact hfront q hq
      · obtain rfl : q = p := by simpa using hq
        exact ⟨hp, hsettles⟩
    rw [show front ++ [p, x] = (front ++ [p]) ++ [x] by simp, joinChars_append,
      joinChars_singleton, withoutSegmentGenericsChars, splitChars_joinChars hall,
      List.map_append, joinChars_append]
    exact congrArg (fun tail => joinChars [_, tail]) hx.withoutGenerics_eq
  · have hkey : withoutSegmentGenericsChars (joinChars (front ++ [p, x])) =
        joinChars [joinChars (front.map plainSegment),
          withoutSegmentGenericsChars (p ++ separator ++ x)] := by
      rw [joinChars_append, joinChars_pair hp hx.ne_nil, withoutSegmentGenericsChars,
        splitChars_joinChars hfront, List.map_append, joinChars_append]
      rfl
    rw [hkey, List.map_append, joinChars_append, joinChars_assoc, List.map_singleton,
      joinChars_singleton]
    rcases hopen.withoutGenerics_pair hp hx with hpair | hpair
    · exact .inl (by rw [hpair])
    · exact .inr (by rw [hpair])

theorem withoutGenerics_lead {cs : List Char} (hcs : cs.getLast? ≠ some ':')
    (h : splitChars cs = front ++ p :: back) :
    withoutSegmentGenericsChars (joinChars (front ++ [p])) =
      joinChars ((front ++ [p]).map plainSegment) := by
  obtain ⟨hfront, hp, -, hread⟩ := splitChars_cases hcs h
  have hself : splitChars p = [p] := by
    rcases hread with ⟨-, previous, hreads⟩ | ⟨previous, depth, hreads⟩
    · exact hreads.splitChars_self hp
    · exact hreads.splitChars_self hp
  rw [joinChars_append, joinChars_singleton, withoutSegmentGenericsChars,
    splitChars_joinChars hfront, hself]

/-- A word qualified by leading segments of a path, with or without generic arguments, starts with
words only if the path does. -/
theorem extends_of_key {cs r : List Char} (hcs : cs.getLast? ≠ some ':')
    (h : splitChars cs = front ++ p :: back) (hx : Word x) (hwords : ∀ w ∈ words, Word w)
    (hne : joinChars words ≠ [])
    (hkey : joinChars (front ++ [p, x]) = joinChars words ++ separator ++ r ∨
      withoutSegmentGenericsChars (joinChars (front ++ [p, x])) =
        joinChars words ++ separator ++ r) :
    Extends (withoutSegmentGenericsChars cs) (joinChars words) := by
  obtain ⟨-, hp, hcolon, -⟩ := splitChars_cases hcs h
  -- It is enough that the leading segments start with the words.
  suffices hlead : Extends (joinChars ((front ++ [p]).map plainSegment)) (joinChars words) by
    have hleadNe : joinChars ((front ++ [p]).map plainSegment) ≠ [] := by
      intro hnil
      rw [hnil] at hlead
      exact hne (List.length_eq_zero_iff.mp (Nat.le_zero.mp hlead.length_le))
    have hpath : withoutSegmentGenericsChars cs =
        joinChars [joinChars ((front ++ [p]).map plainSegment),
          joinChars (back.map plainSegment)] := by
      rw [withoutSegmentGenericsChars, h, ← joinChars_append, ← List.map_append]
      simp
    rw [hpath]
    exact (extends_joinChars hleadNe _).trans hlead
  rcases hkey with hkey | hkey
  · -- Without dropping anything: the segments themselves start with the words.
    have hjoined : joinChars (front ++ [p, x]) =
        joinChars (front ++ [p]) ++ separator ++ x := by
      rw [show front ++ [p, x] = (front ++ [p]) ++ [x] by simp, joinChars_append,
        joinChars_singleton, joinChars_pair _ hx.ne_nil]
      rw [joinChars_append, joinChars_singleton]
      exact fun hnil => hp (joinChars_pair_eq_nil.mp hnil).2
    rw [hjoined] at hkey
    have hlast : (joinChars (front ++ [p])).getLast? ≠ some ':' := by
      rw [joinChars_append, joinChars_singleton]
      by_cases hfront : joinChars front = []
      · rwa [hfront, joinChars_nil_left]
      · rw [joinChars_pair hfront hp, List.getLast?_append]
        cases hlast : p.getLast? with
        | none => exact absurd (List.getLast?_eq_none_iff.mp hlast) hp
        | some c => simpa [hlast] using hcolon
    rw [← withoutGenerics_lead hcs h]
    rcases (extends_of_append_eq hx.colon hkey).cases hlast with heq | ⟨rest, hrest, heq⟩
    · have hself := withoutGenerics_words hwords []
      rw [joinChars_nil_right, show withoutSegmentGenericsChars [] = [] from rfl,
        joinChars_nil_right] at hself
      rw [heq, hself]
      exact List.prefix_rfl
    · rw [heq, ← joinChars_pair hne hrest, withoutGenerics_words hwords]
      exact extends_joinChars hne _
  · rcases withoutGenerics_key hcs h hx with hstripped | hstripped
    · rw [hstripped] at hkey
      by_cases hnil : joinChars ((front ++ [p]).map plainSegment) = []
      · rw [hnil, joinChars_nil_left] at hkey
        exact absurd (by simp [hkey, separator]) hx.colon
      · rw [joinChars_pair hnil hx.ne_nil] at hkey
        exact extends_of_append_eq hx.colon hkey
    · rw [hstripped] at hkey
      rw [hkey]
      exact extends_append _ _

end CrateAtlas.ScopePath
