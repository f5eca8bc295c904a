import CrateAtlas.Proofs.Enclosure
import Mathlib.Data.List.Induction
import Mathlib.Data.List.Infix
import Mathlib.Tactic.SplitIfs

/-!
# Segments that can be read back

A path is split at the separators outside angle brackets, and empty segments are dropped.  All
segments but the last one therefore close their brackets, hold no separator outside them and do not
end in a colon.  The last one holds no separator outside its brackets either.  Lists of such
segments, and no others, come back when their path is split again.

Main results:

- Theorem {lit}`segments_splitChars`: the form of the segments of a path.
- Theorem {lit}`Segments.segmentsFrom_joinChars`: segments of this form are read back from their
  path, and no empty ones with them.
- Theorem {lit}`split_join_eq_iff`: the lists of segments that come back.
- Theorem {lit}`split_join_segments`: sealed segments come back, and so do those of any path.
-/

namespace CrateAtlas.ScopePath

variable {p a cs : List Char} {c : Char} {segments rest : List (List Char)}

/-! ## Bracket depth -/

/-- The bracket depth after a text that is read at a depth, behind a character. -/
def depthFrom : (previous : Char) → (depth : Nat) → List Char → Nat
  | _, depth, [] => depth
  | previous, depth, c :: cs => depthFrom c (depthAfter previous depth c) cs

/-- The bracket depth after a text. -/
def depthOf (cs : List Char) : Nat :=
  depthFrom ' ' 0 cs

theorem depthFrom_append (previous : Char) (depth : Nat) (a b : List Char) :
    depthFrom previous depth (a ++ b) =
      depthFrom (a.getLastD previous) (depthFrom previous depth a) b := by
  induction a generalizing previous depth with
  | nil => rfl
  | cons c rest ih => rw [List.cons_append, depthFrom, ih, List.getLastD_cons, depthFrom]

theorem depthOf_concat (cs : List Char) (c : Char) :
    depthOf (cs ++ [c]) = depthAfter (cs.getLastD ' ') (depthOf cs) c :=
  depthFrom_append ' ' 0 cs [c]

/-- A colon leaves the depth as it is. -/
theorem depthOf_concat_colon (cs : List Char) : depthOf (cs ++ [':']) = depthOf cs := by
  rw [depthOf_concat, depthAfter_of_ne (by decide) (by decide)]

/-- Behind closed brackets the depth is counted anew. -/
theorem depthOf_append (h : depthOf a = 0) (b : List Char) : depthOf (a ++ b) = depthOf b := by
  unfold depthOf at h ⊢
  rw [depthFrom_append, h]
  cases b with
  | nil => rfl
  | cons c rest => rw [depthFrom, depthFrom, depthAfter_zero_congr _ ' ']

theorem depthAfter_mono {previous : Char} {depth depth' : Nat} (h : depth ≤ depth') :
    depthAfter previous depth c ≤ depthAfter previous depth' c := by
  unfold depthAfter
  split_ifs <;> omega

/-! ## Segments -/

/-- A text without separators outside angle brackets. -/
def Unbroken (p : List Char) : Prop :=
  ∀ front back, p = front ++ separator ++ back → depthOf front ≠ 0

instance (p : List Char) : Decidable (Unbroken p) :=
  decidable_of_iff (∀ front ∈ p.inits, separator <+: p.drop front.length → depthOf front ≠ 0) (by
    constructor
    · rintro h front back rfl
      apply h front
      · rw [List.mem_inits, List.append_assoc]
        exact List.prefix_append _ _
      · rw [List.append_assoc, List.drop_left]
        exact List.prefix_append _ _
    · intro h front hfront hback
      obtain ⟨rest, rfl⟩ := (List.mem_inits _ _).mp hfront
      rw [List.drop_left] at hback
      obtain ⟨back, rfl⟩ := hback
      exact h front back (by simp))

/-- A text after which a separator ends a segment: its brackets are closed, it holds no separator
outside them, and no colon at its end joins those of the separator. -/
structure Sealed (p : List Char) : Prop where
  depth_eq : depthOf p = 0
  unbroken : Unbroken p
  last_ne : p.getLast? ≠ some ':'

instance (p : List Char) : Decidable (Sealed p) :=
  decidable_of_iff (depthOf p = 0 ∧ Unbroken p ∧ p.getLast? ≠ some ':')
    ⟨fun h => ⟨h.1, h.2.1, h.2.2⟩, fun h => ⟨h.depth_eq, h.unbroken, h.last_ne⟩⟩

/-- The form of the segments of a path: all are sealed, except that the last one may leave brackets
open or end in a colon. -/
inductive Segments : List (List Char) → Prop where
  | nil : Segments []
  | last {p : List Char} : p ≠ [] → Unbroken p → Segments [p]
  | cons {p : List Char} {rest : List (List Char)} :
      p ≠ [] → Sealed p → Segments rest → Segments (p :: rest)

theorem unbroken_nil : Unbroken [] := by
  intro front back h
  simp [separator] at h

/-- A text is unbroken until a colon outside brackets follows another one. -/
theorem unbroken_concat_iff :
    Unbroken (p ++ [c]) ↔
      Unbroken p ∧ ¬(depthOf p = 0 ∧ p.getLast? = some ':' ∧ c = ':') := by
  constructor
  · intro h
    constructor
    · rintro front back rfl
      exact h front (back ++ [c]) (by simp)
    · rintro ⟨hdepth, hlast, rfl⟩
      obtain ⟨front, rfl⟩ := List.getLast?_eq_some_iff.mp hlast
      rw [depthOf_concat_colon] at hdepth
      exact h front [] (by simp [separator]) hdepth
  · rintro ⟨h, hc⟩ front back heq hdepth
    rcases List.eq_nil_or_concat back with rfl | ⟨back, d, rfl⟩
    · -- The separator would be at the end.
      have hcut : p ++ [c] = (front ++ [':']) ++ [':'] := by simpa [separator] using heq
      obtain ⟨rfl, hcolon⟩ := List.append_inj' hcut rfl
      apply hc
      exact ⟨by rwa [depthOf_concat_colon], by simp, by simpa using hcolon⟩
    · rw [List.concat_eq_append, ← List.append_assoc] at heq
      obtain ⟨rfl, -⟩ := List.append_inj' heq rfl
      exact h front back rfl hdepth

/-- Reading an unbroken text as a segment ends at its depth. -/
theorem Unbroken.reads : Unbroken p → Reads p.reverse (p.getLastD ' ') (depthOf p) := by
  induction p using List.reverseRecOn with
  | nil =>
      intro _
      exact .start ' '
  | append_singleton p c ih =>
      intro h
      obtain ⟨hp, hc⟩ := unbroken_concat_iff.mp h
      rw [List.reverse_concat, List.getLastD_concat, depthOf_concat]
      apply (ih hp).cons
      rwa [List.head?_reverse]

theorem Sealed.settles (h : Sealed p) : Settles p := by
  refine ⟨h.last_ne, p.getLastD ' ', ?_⟩
  rw [← h.depth_eq]
  exact h.unbroken.reads

/-- What is read from a text at a depth, with the current segment in reverse: sealed segments and
the last one, which is unbroken. -/
theorem exists_sealed_segmentsFrom {previous : Char} {depth : Nat} {segment cs : List Char}
    (hunbroken : Unbroken segment.reverse) (hdepth : depthOf segment.reverse = depth)
    (hprevious : ∀ c, depthAfter previous depth c =
      depthAfter (segment.reverse.getLastD ' ') depth c)
    (hcs : ¬(depth = 0 ∧ segment.head? = some ':' ∧ cs.head? = some ':')) :
    ∃ front last, segmentsFrom previous depth segment cs = front ++ [last] ∧
      (∀ p ∈ front, Sealed p) ∧ Unbroken last := by
  fun_induction segmentsFrom previous depth segment cs with
  | case1 previous depth segment => exact ⟨[], segment.reverse, rfl, by simp, hunbroken⟩
  | case2 previous segment rest ih =>
      obtain ⟨front, last, hsegments, hfront, hlast⟩ :=
        ih unbroken_nil rfl (fun c => depthAfter_zero_congr _ _ c) (by simp)
      have hsealed : Sealed segment.reverse := by
        refine ⟨hdepth, hunbroken, fun hcolon => ?_⟩
        rw [List.getLast?_reverse] at hcolon
        exact hcs ⟨rfl, hcolon, rfl⟩
      refine ⟨segment.reverse :: front, last, by rw [hsegments]; rfl, ?_, hlast⟩
      exact List.forall_mem_cons.mpr ⟨hsealed, hfront⟩
  | case3 previous depth segment c rest hnocut ih =>
      apply ih
      · rw [List.reverse_cons, unbroken_concat_iff, List.getLast?_reverse]
        refine ⟨hunbroken, ?_⟩
        rintro ⟨hzero, hhead, rfl⟩
        exact hcs ⟨hdepth.symm.trans hzero, hhead, rfl⟩
      · rw [List.reverse_cons, depthOf_concat, hdepth, hprevious]
      · intro d
        rw [List.reverse_cons, List.getLastD_concat]
      · rintro ⟨hzero, hhead, hrest⟩
        obtain rfl : c = ':' := by simpa using hhead
        obtain ⟨later, hlater⟩ := List.head?_eq_some_iff.mp hrest
        rw [depthAfter_of_ne (by decide) (by decide)] at hzero
        exact hnocut later hzero rfl hlater

theorem Segments.of_sealed (h : ∀ p ∈ segments, p ≠ [] ∧ Sealed p) : Segments segments := by
  induction segments with
  | nil => exact .nil
  | cons p rest ih =>
      obtain ⟨hp, hrest⟩ := List.forall_mem_cons.mp h
      exact .cons hp.1 hp.2 (ih hrest)

theorem Segments.append (h : ∀ p ∈ segments, p ≠ [] ∧ Sealed p) (hrest : Segments rest) :
    Segments (segments ++ rest) := by
  induction segments with
  | nil => exact hrest
  | cons p later ih =>
      obtain ⟨hp, hlater⟩ := List.forall_mem_cons.mp h
      exact .cons hp.1 hp.2 (ih hlater)

theorem Segments.ne_nil (h : Segments segments) : ∀ p ∈ segments, p ≠ [] := by
  induction h with
  | nil => simp
  | last hp _ => simpa using hp
  | cons hp _ _ ih => exact List.forall_mem_cons.mpr ⟨hp, ih⟩

/-- The segments of a path are of the form. -/
theorem segments_splitChars (cs : List Char) : Segments (splitChars cs) := by
  obtain ⟨front, last, hsegments, hfront, hlast⟩ :=
    @exists_sealed_segmentsFrom ' ' 0 [] cs unbroken_nil rfl (fun _ => rfl) (by simp)
  rw [splitChars, hsegments, List.filter_append]
  apply Segments.append
  · intro p hp
    obtain ⟨hmem, hne⟩ := List.mem_filter.mp hp
    exact ⟨by simpa using hne, hfront p hmem⟩
  · by_cases hnil : last = []
    · simpa [hnil] using Segments.nil
    · simpa [hnil] using Segments.last hnil hlast

/-! ## Splitting what was joined -/

theorem joinChars_ne_nil (hne : segments ≠ []) (h : ∀ p ∈ segments, p ≠ []) :
    joinChars segments ≠ [] := by
  obtain ⟨p, rest, rfl⟩ := List.exists_cons_of_ne_nil hne
  rw [joinChars_cons, Ne, joinChars_pair_eq_nil]
  exact fun hnil => h p (by simp) hnil.1

/-- Segments are read back from the path they make, and nothing is read beside them. -/
theorem Segments.segmentsFrom_joinChars (h : Segments segments) (hne : segments ≠ []) :
    segmentsFrom ' ' 0 [] (joinChars segments) = segments := by
  induction h with
  | nil => exact absurd rfl hne
  | last _ hp =>
      rw [joinChars_singleton]
      exact hp.reads.segmentsFrom_self
  | @cons p rest hp hsealed hrest ih =>
      by_cases hnil : rest = []
      · rw [hnil, joinChars_singleton]
        exact hsealed.unbroken.reads.segmentsFrom_self
      · rw [joinChars_cons, joinChars_pair hp (joinChars_ne_nil hnil hrest.ne_nil),
          hsealed.settles.segmentsFrom_append, ih hnil]

theorem Segments.splitChars_joinChars (h : Segments segments) :
    splitChars (joinChars segments) = segments := by
  by_cases hne : segments = []
  · rw [hne]
    rfl
  · rw [splitChars, h.segmentsFrom_joinChars hne]
    apply List.filter_eq_self.mpr
    intro p hp
    simpa using h.ne_nil p hp

theorem map_toList_split (path : String) :
    (split path).map String.toList = splitChars path.toList := by
  simp [split, Function.comp_def]

theorem split_join_eq_map (segments : List String) :
    split (join segments) =
      (splitChars (joinChars (segments.map String.toList))).map String.ofList := by
  rw [split, toList_join]

/-- The lists of segments that come back when their path is split. -/
theorem split_join_eq_iff (segments : List String) :
    split (join segments) = segments ↔ Segments (segments.map String.toList) := by
  constructor
  · intro h
    rw [← h, map_toList_split]
    exact segments_splitChars _
  · intro h
    rw [split_join_eq_map, h.splitChars_joinChars, List.map_map]
    simp [Function.comp_def]

/-- Sealed segments that are not empty come back when their path is split, and so do the segments
of any path. -/
theorem split_join_segments :
    (∀ segments : List String, (∀ segment ∈ segments, segment ≠ "" ∧ Sealed segment.toList) →
        split (join segments) = segments) ∧
      ∀ path, split (join (split path)) = split path := by
  constructor
  · intro segments h
    rw [split_join_eq_iff]
    apply Segments.of_sealed
    intro p hp
    obtain ⟨segment, hsegment, rfl⟩ := List.mem_map.mp hp
    obtain ⟨hne, hsealed⟩ := h segment hsegment
    exact ⟨by simpa using hne, hsealed⟩
  · intro path
    rw [split_join_eq_iff, map_toList_split]
    exact segments_splitChars _

/-- Segments with a separator in brackets, an arrow, an unmatched bracket and a colon in front. -/
theorem split_join_segments_sample :
    (∀ segment ∈ ["<Fn(a::B) -> C<D> as E>", ":f", "g > h"],
        segment ≠ "" ∧ Sealed segment.toList) ∧
      split (join ["<Fn(a::B) -> C<D> as E>", ":f", "g > h"]) =
        ["<Fn(a::B) -> C<D> as E>", ":f", "g > h"] := by
  have h : ∀ segment ∈ ["<Fn(a::B) -> C<D> as E>", ":f", "g > h"],
      segment ≠ "" ∧ Sealed segment.toList := by
    decide +kernel
  exact ⟨h, split_join_segments.1 _ h⟩

/-- A segment that ends in a colon is cut in another place. -/
example : split (join ["a:", ":b"]) = ["a", "b"] := by
  decide +kernel

end CrateAtlas.ScopePath
