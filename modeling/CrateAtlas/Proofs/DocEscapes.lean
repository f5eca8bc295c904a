import CrateAtlas.Item.Docs
import CrateAtlas.Proofs.SignatureText
import Mathlib.Data.List.Count

/-!
# Escapes in documentation attributes

A text in an attribute is written as a string literal, with escapes for backslashes, quotes and line
feeds.  The escapes of quotes and of line feeds are read, one kind after the other, but those of
backslashes are not: every backslash of the text comes out twice, or together with an {lit}`n`
behind it as a backslash and a line feed.

Main results:

- Theorem {lit}`unescape_literalBody`: what is read from a literal.
- Theorem {lit}`count_lineChars`: the lines of a text hold all its characters that are not blank.
- Theorem {lit}`attributeLines_docAttribute_iff`: the texts whose lines are read back are those
  without backslashes.
-/

namespace CrateAtlas

/-! ## Lines -/

namespace Text

variable {c : Char} {cs : List Char}

/-- The pieces between line feeds. -/
theorem lineFeedPieces_eq_splitOn (cs : List Char) : lineFeedPieces [] cs = cs.splitOn '\n' := by
  have hpieces : ∀ piece, lineFeedPieces piece cs = cs.splitOnPPrepend (· == '\n') piece := by
    induction cs with
    | nil =>
        intro piece
        rw [lineFeedPieces, List.splitOnPPrepend_nil]
    | cons d rest ih =>
        intro piece
        rw [lineFeedPieces, List.splitOnPPrepend_cons_eq_if]
        by_cases hd : d = '\n' <;> simp [hd, ih]
  exact hpieces []

/-- The lines of a text without the blanks around them, blank ones left out. -/
def lineChars (cs : List Char) : List (List Char) :=
  ((cs.splitOn '\n').map trimChars).filter fun line => !line.isEmpty

theorem count_dropWhile_isBlank (hc : isBlank c = false) (cs : List Char) :
    (cs.dropWhile isBlank).count c = cs.count c := by
  have hblank : (cs.takeWhile isBlank).count c = 0 := by
    refine List.count_eq_zero.mpr fun hmem => ?_
    rw [List.mem_takeWhile_imp hmem] at hc
    cases hc
  conv_rhs => rw [← List.takeWhile_append_dropWhile (p := isBlank) (l := cs)]
  rw [List.count_append, hblank, Nat.zero_add]

theorem count_trimChars (hc : isBlank c = false) (cs : List Char) :
    (trimChars cs).count c = cs.count c := by
  rw [trimChars, trimEndChars, List.count_reverse, count_dropWhile_isBlank hc, List.count_reverse,
    trimStartChars, count_dropWhile_isBlank hc]

theorem count_flatten_splitOn (hc : c ≠ '\n') (cs : List Char) :
    (cs.splitOn '\n').flatten.count c = cs.count c := by
  have hpieces : ∀ piece,
      (lineFeedPieces piece cs).flatten.count c = piece.count c + cs.count c := by
    induction cs with
    | nil => simp [lineFeedPieces]
    | cons d rest ih =>
        intro piece
        rw [lineFeedPieces]
        by_cases hd : d = '\n'
        · simp [hd, ih, Ne.symm hc]
        · simp [hd, ih, List.count_cons]
          omega
  rw [← lineFeedPieces_eq_splitOn, hpieces []]
  simp

/-- The lines of a text hold all its characters that are not blank. -/
theorem count_lineChars (hc : isBlank c = false) (cs : List Char) :
    (lineChars cs).flatten.count c = cs.count c := by
  have hfeed : c ≠ '\n' := by
    rintro rfl
    exact absurd hc (by decide)
  have htrim : (List.count c ∘ trimChars) = List.count c := funext (count_trimChars hc)
  rw [lineChars, List.flatten_filter_not_isEmpty, List.count_flatten, List.map_map, htrim,
    ← List.count_flatten, count_flatten_splitOn hfeed]

end Text

/-! ## Literals -/

namespace Docs

variable {cs : List Char}

/-- A character as it is written in a literal. -/
def literalChar (c : Char) : List Char :=
  if c = '\\' ∨ c = '\x22' then ['\\', c]
  else if c = '\n' then ['\\', 'n']
  else [c]

/-- A text as it is written in a literal. -/
def literalBody (cs : List Char) : List Char :=
  cs.flatMap literalChar

/-- What stands before the literal of a {lit}`doc` attribute. -/
def opening : List Char := ['#', '[', 'd', 'o', 'c', ' ', '=', ' ', '\x22']

/-- The attribute that documents an item with a text. -/
def docAttribute (text : String) : String :=
  String.ofList (opening ++ (literalBody text.toList ++ ['\x22', ']']))

theorem afterDocQuote?_opening (cs : List Char) : afterDocQuote? (opening ++ cs) = some cs := by
  have hd : Text.isBlank 'd' = false := by decide
  have hequals : Text.isBlank '=' = false := by decide
  have hquote : Text.isBlank '\x22' = false := by decide
  simp [opening, afterDocQuote?, afterToken?, dropOne, Text.trimStartChars, List.isPrefixOf, hd,
    hequals, hquote]

theorem beforeQuote?_closing (cs : List Char) :
    beforeQuote? (cs ++ ['\x22', ']']).reverse = some cs := by
  have hquote : Text.isBlank '\x22' = false := by decide
  simp [beforeQuote?, afterToken?, List.isPrefixOf, hquote]

theorem trimChars_opening (cs : List Char) :
    Text.trimChars (opening ++ (cs ++ ['\x22', ']'])) = opening ++ (cs ++ ['\x22', ']']) := by
  have hstart : Text.isBlank '#' = false := by decide
  have hend : Text.trimEndChars ['\x22', ']'] = ['\x22', ']'] := by decide
  have hfront : Text.trimStartChars (opening ++ (cs ++ ['\x22', ']'])) =
      opening ++ (cs ++ ['\x22', ']']) := by
    simp [opening, Text.trimStartChars, hstart]
  rw [Text.trimChars, hfront, ← List.append_assoc,
    Text.trimEndChars_append_of_ne_nil (by rw [hend]; exact List.cons_ne_nil _ _), hend]

/-- The body of the literal is what stands between the quotes. -/
theorem docBody?_docAttribute (text : String) :
    docBody? (docAttribute text) = some (literalBody text.toList) := by
  rw [docBody?, docAttribute, String.toList_ofList, trimChars_opening, afterDocQuote?_opening,
    Option.bind_eq_bind, Option.bind_some, beforeQuote?_closing]

/-! ## Reading escapes -/

/-- A literal in which the escapes of quotes have been read. -/
def quotesRead (cs : List Char) : List Char :=
  cs.flatMap fun c => if c = '\x22' then [c] else literalChar c

/-- What is read from the literal of a text. -/
def misread : List Char → List Char
  | [] => []
  | '\\' :: 'n' :: cs => '\\' :: '\n' :: misread cs
  | '\\' :: cs => '\\' :: '\\' :: misread cs
  | c :: cs => c :: misread cs

/-- A character stays where the replaced pair does not start. -/
theorem substituteFrom_pair_cons {a b c : Char} (new : List Char)
    (hstart : c ≠ a ∨ cs.head? ≠ some b) :
    Text.substituteFrom [a, b] new 0 (c :: cs) = c :: Text.substituteFrom [a, b] new 0 cs := by
  rw [Text.substituteFrom, if_neg]
  intro hprefix
  obtain ⟨rest, hrest⟩ := List.isPrefixOf_iff_prefix.mp hprefix
  obtain ⟨rfl, rfl⟩ : a = c ∧ b :: rest = cs := by simpa using hrest
  simp at hstart

theorem literalBody_cons (c : Char) (cs : List Char) :
    literalBody (c :: cs) = literalChar c ++ literalBody cs := by
  rw [literalBody, List.flatMap_cons, literalBody]

theorem quotesRead_cons (c : Char) (cs : List Char) :
    quotesRead (c :: cs) = (if c = '\x22' then [c] else literalChar c) ++ quotesRead cs := by
  rw [quotesRead, List.flatMap_cons, quotesRead]

/-- No literal starts with a quote that is not escaped. -/
theorem head?_literalBody_ne (cs : List Char) : (literalBody cs).head? ≠ some '\x22' := by
  cases cs with
  | nil => simp [literalBody]
  | cons c rest =>
      rw [literalBody_cons, literalChar]
      split_ifs with hmark hfeed
      · simp
      · simp
      · simpa using fun h => hmark (.inr h)

/-- Behind a backslash only {lit}`n` starts an escape that is read last. -/
theorem head?_quotesRead (cs : List Char) (h : (quotesRead cs).head? = some 'n') :
    cs.head? = some 'n' := by
  cases cs with
  | nil => exact h
  | cons c rest =>
      rw [quotesRead_cons, literalChar] at h
      split_ifs at h <;> simp_all

theorem substituteFrom_literalBody (cs : List Char) :
    Text.substituteFrom ['\\', '\x22'] ['\x22'] 0 (literalBody cs) = quotesRead cs := by
  induction cs with
  | nil => rfl
  | cons c rest ih =>
      rw [literalBody_cons, quotesRead_cons, ← ih]
      by_cases hquote : c = '\x22'
      · subst hquote
        rfl
      · rw [if_neg hquote]
        by_cases hbackslash : c = '\\'
        · have hchar : literalChar c = ['\\', '\\'] := by simp [literalChar, hbackslash]
          have hnext := head?_literalBody_ne rest
          rw [hchar, List.cons_append, List.singleton_append,
            substituteFrom_pair_cons _ (.inr (by simp)), substituteFrom_pair_cons _ (.inr hnext)]
          rfl
        · by_cases hfeed : c = '\n'
          · have hchar : literalChar c = ['\\', 'n'] := by simp [literalChar, hfeed]
            rw [hchar, List.cons_append, List.singleton_append,
              substituteFrom_pair_cons _ (.inr (by simp)),
              substituteFrom_pair_cons _ (.inl (by decide))]
            rfl
          · have hchar : literalChar c = [c] := by simp [literalChar, hquote, hbackslash, hfeed]
            rw [hchar, List.singleton_append, substituteFrom_pair_cons _ (.inl hbackslash)]
            rfl

theorem substituteFrom_quotesRead (cs : List Char) :
    Text.substituteFrom ['\\', 'n'] ['\n'] 0 (quotesRead cs) = misread cs := by
  fun_induction misread cs with
  | case1 => rfl
  | case2 cs ih =>
      rw [quotesRead_cons, quotesRead_cons, ← ih]
      rfl
  | case3 cs hnext ih =>
      have hbehind : (quotesRead cs).head? ≠ some 'n' := fun h => by
        obtain ⟨rest, hrest⟩ := List.head?_eq_some_iff.mp (head?_quotesRead cs h)
        exact hnext rest hrest
      have hchar : (if '\\' = '\x22' then ['\\'] else literalChar '\\') = ['\\', '\\'] := by
        decide
      rw [quotesRead_cons, ← ih, hchar, List.cons_append, List.singleton_append,
        substituteFrom_pair_cons _ (.inr (by simp)), substituteFrom_pair_cons _ (.inr hbehind)]
  | case4 c cs hpair hbackslash ih =>
      rw [quotesRead_cons, ← ih]
      by_cases hfeed : c = '\n'
      · subst hfeed
        rfl
      · have hchar : (if c = '\x22' then [c] else literalChar c) = [c] := by
          have hc : c ≠ '\\' := hbackslash
          by_cases hquote : c = '\x22' <;> simp [literalChar, hquote, hc, hfeed]
        rw [hchar, List.singleton_append, substituteFrom_pair_cons _ (.inl hbackslash)]

/-- What is read from a literal. -/
theorem unescape_literalBody (cs : List Char) : unescape (literalBody cs) = misread cs := by
  rw [unescape, substituteFrom_literalBody, substituteFrom_quotesRead]

theorem misread_eq_self (h : '\\' ∉ cs) : misread cs = cs := by
  fun_induction misread cs with
  | case1 => rfl
  | case2 cs ih => simp at h
  | case3 cs hnext ih => simp at h
  | case4 c cs hpair hbackslash ih =>
      rw [ih fun hmem => h (List.mem_cons_of_mem c hmem)]

/-- Each backslash comes out twice, or an {lit}`n` is lost. -/
theorem count_misread (cs : List Char) :
    (misread cs).count '\\' + cs.count 'n' = 2 * cs.count '\\' + (misread cs).count 'n' := by
  fun_induction misread cs with
  | case1 => rfl
  | case2 cs ih =>
      simp only [List.count_cons]
      simp
      omega
  | case3 cs hnext ih =>
      simp only [List.count_cons]
      simp
      omega
  | case4 c cs hpair hbackslash ih =>
      have hc : c ≠ '\\' := hbackslash
      rw [List.count_cons_of_ne hc, List.count_cons_of_ne hc, List.count_cons, List.count_cons]
      omega

/-! ## Attributes -/

/-- The lines of a text without the blanks around them, blank ones left out. -/
def textLines (text : String) : List String :=
  (Text.lineChars text.toList).map String.ofList

theorem attributeLines_docAttribute (text : String) :
    attributeLines? (docAttribute text) =
      some ((Text.lineChars (misread text.toList)).map String.ofList) := by
  rw [attributeLines?, docBody?_docAttribute, Option.map_some, unescape_literalBody,
    Text.lineFeedPieces_eq_splitOn]
  rfl

/-- The lines of a text are read back from its attribute exactly if there is no backslash in it. -/
theorem attributeLines_docAttribute_iff (text : String) :
    attributeLines? (docAttribute text) = some (textLines text) ↔ '\\' ∉ text.toList := by
  rw [attributeLines_docAttribute, textLines, Option.some_inj]
  constructor
  · intro h
    have hlines : Text.lineChars (misread text.toList) = Text.lineChars text.toList :=
      List.map_inj_right (fun _ _ => String.ofList_inj.mp) |>.mp h
    have hcount : ∀ c, Text.isBlank c = false →
        (misread text.toList).count c = text.toList.count c := fun c hc => by
      rw [← Text.count_lineChars hc, hlines, Text.count_lineChars hc]
    have hread := count_misread text.toList
    rw [hcount '\\' (by decide), hcount 'n' (by decide)] at hread
    exact List.count_eq_zero.mp (by omega)
  · intro h
    rw [misread_eq_self h]

/-- A folder whose name starts with {lit}`n` is torn off its drive. -/
theorem attributeLines_docAttribute_strays :
    docAttribute "C:\\new" = "#[doc = \x22C:\\\\new\x22]" ∧
      textLines "C:\\new" = ["C:\\new"] ∧
      attributeLines? (docAttribute "C:\\new") = some ["C:\\", "ew"] := by
  decide +kernel

end Docs

end CrateAtlas
