import CrateAtlas.Proofs.ScopePath
import CrateAtlas.Text.Search
import Mathlib.Algebra.Group.Nat.Even
import Mathlib.Data.List.DropRight

/-!
# Cutting at separators

Separators are found from left to right, so the colons of a run are taken in pairs from the first
one on.  Behind an even run the next separator is therefore read as it stands; behind an odd run the
colon that is left over takes its first half.

Main results:

- Theorem {lit}`Text.intercalate_cut`: the pieces of a text, joined again, are the text.
- Theorem {lit}`cut_append_separator`: a text is cut at a separator that follows an even run of
  colons.
-/

namespace CrateAtlas

/-! ## Joining the pieces -/

namespace Text

variable {sep : List Char}

theorem cutFrom_ne_nil (skip : Nat) (piece cs : List Char) : cutFrom sep skip piece cs ≠ [] := by
  fun_induction cutFrom sep skip piece cs with
  | case1 skip piece => simp
  | case2 skip piece c cs ih => exact ih
  | case3 piece c cs hstart ih => simp
  | case4 piece c cs hstart ih => exact ih

theorem cut_ne_nil (sep cs : List Char) : cut sep cs ≠ [] :=
  cutFrom_ne_nil 0 [] cs

/-- The pieces of what is left to be read, joined again, where {lit}`skip` characters are not. -/
theorem intercalate_cutFrom (hsep : sep ≠ []) (skip : Nat) (piece cs : List Char) :
    sep.intercalate (cutFrom sep skip piece cs) = piece.reverse ++ cs.drop skip := by
  fun_induction cutFrom sep skip piece cs with
  | case1 skip piece => simp
  | case2 skip piece c cs ih => simpa using ih
  | case3 piece c cs hstart ih =>
      obtain ⟨rest, hrest⟩ := List.isPrefixOf_iff_prefix.mp hstart
      obtain ⟨first, later, rfl⟩ := List.exists_cons_of_ne_nil hsep
      rw [List.cons_append, List.cons.injEq] at hrest
      rw [List.intercalate_cons_of_ne_nil (cutFrom_ne_nil _ _ _), ih, ← hrest.1, ← hrest.2]
      simp
  | case4 piece c cs hstart ih => simpa using ih

theorem intercalate_cut (hsep : sep ≠ []) (cs : List Char) : sep.intercalate (cut sep cs) = cs := by
  rw [cut, intercalate_cutFrom hsep]
  rfl

theorem intercalate_concat {pieces : List (List Char)} (hne : pieces ≠ []) (last : List Char) :
    sep.intercalate (pieces ++ [last]) = sep.intercalate pieces ++ sep ++ last := by
  induction pieces with
  | nil => exact (hne rfl).elim
  | cons piece rest ih =>
      by_cases hrest : rest = []
      · simp [hrest]
      · rw [List.cons_append, List.intercalate_cons_of_ne_nil (by simp), ih hrest,
          List.intercalate_cons_of_ne_nil hrest]
        simp only [List.append_assoc]

end Text

/-! ## Runs of colons -/

namespace ScopePath

variable {front cs : List Char} {c : Char}

/-- The length of the run of colons at the end of a text. -/
def trailingColons (cs : List Char) : Nat :=
  (cs.rtakeWhile (· == ':')).length

/-- A colon in front makes the run longer if all the rest belongs to it. -/
theorem trailingColons_cons (c : Char) (cs : List Char) :
    trailingColons (c :: cs) =
      if trailingColons cs = cs.length ∧ c = ':' then cs.length + 1 else trailingColons cs := by
  unfold trailingColons List.rtakeWhile
  rw [List.reverse_cons, List.takeWhile_append, List.length_reverse, List.length_reverse,
    List.length_reverse]
  by_cases hall : (cs.reverse.takeWhile (· == ':')).length = cs.length
  · by_cases hc : c = ':' <;> simp [hall, hc]
  · simp [hall]

theorem trailingColons_le (cs : List Char) : trailingColons cs ≤ cs.length :=
  (List.rtakeWhile_suffix _ _).length_le

theorem trailingColons_append_cons (hc : c ≠ ':') (front cs : List Char) :
    trailingColons (front ++ c :: cs) = trailingColons cs := by
  induction front with
  | nil =>
      rw [List.nil_append, trailingColons_cons, if_neg]
      exact fun h => hc h.2
  | cons d rest ih =>
      have hle := trailingColons_le cs
      rw [List.cons_append, trailingColons_cons, ih, if_neg]
      rintro ⟨hall, -⟩
      rw [List.length_append, List.length_cons] at hall
      omega

theorem trailingColons_of_notMem (h : ':' ∉ cs) : trailingColons cs = 0 := by
  induction cs with
  | nil => rfl
  | cons c rest ih =>
      simp only [List.mem_cons, not_or] at h
      exact (trailingColons_append_cons (Ne.symm h.1) [] rest).trans (ih h.2)

theorem trailingColons_of_getLast?_ne (h : cs.getLast? ≠ some ':') : trailingColons cs = 0 := by
  rw [trailingColons, List.length_eq_zero_iff, List.rtakeWhile_eq_nil_iff]
  intro hne hlast
  rw [List.getLast?_eq_some_getLast hne] at h
  exact h (congrArg some (by simpa using hlast))

/-- The colons of a separator in front do not change whether a run is even. -/
theorem even_trailingColons_separator (cs : List Char) :
    Even (trailingColons (':' :: ':' :: cs)) ↔ Even (trailingColons cs) := by
  have hle := trailingColons_le cs
  rw [trailingColons_cons, trailingColons_cons]
  by_cases hall : trailingColons cs = cs.length
  · simp [hall, Nat.even_add_one]
  · have hshort : trailingColons cs ≠ cs.length + 1 := by omega
    simp [hall, hshort]

/-- Behind a character that starts no separator, a run stays as it is. -/
theorem trailingColons_cons_of_not_start (hne : cs ≠ []) (hstart : ¬separator <+: c :: cs) :
    trailingColons (c :: cs) = trailingColons cs := by
  rw [trailingColons_cons, if_neg]
  rintro ⟨hall, rfl⟩
  obtain ⟨d, rest, rfl⟩ := List.exists_cons_of_ne_nil hne
  have hle := trailingColons_le rest
  rw [trailingColons_cons, List.length_cons] at hall
  split_ifs at hall with hd
  · obtain ⟨-, rfl⟩ := hd
    exact hstart ⟨rest, rfl⟩
  · omega

theorem even_trailingColons_of_cons (hstart : ¬separator <+: c :: cs)
    (h : Even (trailingColons (c :: cs))) : Even (trailingColons cs) := by
  by_cases hcs : cs = []
  · rw [hcs]
    exact Even.zero
  · rwa [trailingColons_cons_of_not_start hcs hstart] at h

/-! ## Cutting -/

theorem cutFrom_separator (piece cs : List Char) :
    Text.cutFrom separator 0 piece (':' :: ':' :: cs) = piece.reverse :: Text.cut separator cs := by
  rfl

theorem cutFrom_cons (hstart : ¬separator <+: c :: cs) (piece : List Char) :
    Text.cutFrom separator 0 piece (c :: cs) = Text.cutFrom separator 0 (c :: piece) cs := by
  rw [Text.cutFrom, if_neg]
  exact fun h => hstart (List.isPrefixOf_iff_prefix.mp h)

/-- A text without separators is one piece. -/
theorem cut_of_not_infix (h : ¬separator <:+: cs) : Text.cut separator cs = [cs] := by
  have hall : ∀ piece, Text.cutFrom separator 0 piece cs = [piece.reverse ++ cs] := by
    induction cs with
    | nil =>
        intro piece
        simp [Text.cutFrom]
    | cons c rest ih =>
        intro piece
        rw [cutFrom_cons fun hstart => h hstart.isInfix,
          ih fun hrest => h (hrest.trans (List.suffix_cons c rest).isInfix)]
        simp
  exact hall []

/-- No separator starts at the last character before a separator, unless a single colon is left
over there. -/
theorem not_prefix_append_separator (hstart : ¬separator <+: c :: cs)
    (h : Even (trailingColons (c :: cs))) (back : List Char) :
    ¬separator <+: c :: (cs ++ ':' :: ':' :: back) := by
  intro hprefix
  rw [separator, List.cons_prefix_cons] at hprefix
  obtain ⟨rfl, hnext⟩ := hprefix
  cases cs with
  | nil => exact absurd h (by decide)
  | cons d rest =>
      rw [List.cons_append, List.cons_prefix_cons] at hnext
      exact hstart (by simp [separator, ← hnext.1])

theorem cut_of_notMem (h : ':' ∉ cs) : Text.cut separator cs = [cs] :=
  cut_of_not_infix fun hpart => h (hpart.subset (by decide))

theorem cutFrom_append_separator (front : List Char) (h : Even (trailingColons front))
    (piece back : List Char) :
    Text.cutFrom separator 0 piece (front ++ ':' :: ':' :: back) =
      Text.cutFrom separator 0 piece front ++ Text.cut separator back := by
  -- The induction is on the length, since a separator is read at once.
  induction hlength : front.length using Nat.strong_induction_on generalizing front piece with
  | _ n ih =>
      cases front with
      | nil => rfl
      | cons c rest =>
          by_cases hstart : separator <+: c :: rest
          · obtain ⟨later, hlater⟩ := hstart
            obtain ⟨rfl, rfl⟩ : ':' = c ∧ ':' :: later = rest := by
              simpa [separator] using hlater
            have heven := (even_trailingColons_separator later).mp h
            have hshorter : later.length < n := by
              rw [← hlength, List.length_cons, List.length_cons]
              omega
            have hcut := ih later.length hshorter later heven [] rfl
            rw [List.cons_append, List.cons_append, cutFrom_separator, cutFrom_separator,
              Text.cut, hcut]
            rfl
          · have heven := even_trailingColons_of_cons hstart h
            have hcut := ih rest.length (by simp [← hlength]) rest heven (c :: piece) rfl
            rw [List.cons_append, cutFrom_cons (not_prefix_append_separator hstart h back), hcut,
              cutFrom_cons hstart]

/-- A text is cut at a separator that follows an even run of colons. -/
theorem cut_append_separator (h : Even (trailingColons front)) (back : List Char) :
    Text.cut separator (front ++ ':' :: ':' :: back) =
      Text.cut separator front ++ Text.cut separator back :=
  cutFrom_append_separator front h [] back

/-- After an odd run the separator starts one colon earlier. -/
example : Text.cut separator ['a', ':', ':', ':', 'b'] = [['a'], [':', 'b']] := by
  decide

end ScopePath

end CrateAtlas
