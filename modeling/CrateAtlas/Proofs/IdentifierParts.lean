import CrateAtlas.Proofs.ElementId
import CrateAtlas.Proofs.Outcome
import CrateAtlas.Proofs.SeparatorCuts

/-!
# Reading identifiers back

An identifier is read by cutting it at its separators.  The first two pieces are the file and the
kind, the last one is the ordinal, and the pieces between them are joined again to the qualified
name, which may therefore hold separators of its own.  It must not end in an odd run of colons,
because the separator before the ordinal would then be read one colon early.

Main results:

- Theorem {lit}`readOrdinal_eq_ok_iff`: what a text of decimal digits is read as.
- Theorem {lit}`IsNumeral.toDigits_ofDigitChars`: a numeral is the written form of its number.
- Theorem {lit}`ofParts_cons_eq_ok_iff`: what the pieces of an identifier are read as.
- Theorem {lit}`parse_roundTrip`: written identifiers are read back, and what is read is written
  back.
-/

namespace CrateAtlas.ElementId

open ScopePath (separator trailingColons)

variable {filePath kind qualifiedName text : String} {cs : List Char} {n : Nat}

/-! ## Numerals -/

/-- The decimal digits of ASCII have the values they are written for. -/
theorem decimalValue?_of_isDigit {c : Char} (h : c.isDigit = true) :
    Text.decimalValue? c = some (c.toNat - '0'.toNat) := by
  have hrange : 48 ≤ c.toNat ∧ c.toNat ≤ 57 := Char.isDigit_iff_toNat.mp h
  have hlast : c.toNat < 58 := by omega
  rw [Text.decimalValue?, Text.zeroCodes, List.find?_cons]
  simp [hrange.1, hlast]

theorem leadingDigits_of_isDigit (h : ∀ c ∈ cs, c.isDigit = true) :
    Text.leadingDigits cs = cs.map fun c => c.toNat - '0'.toNat := by
  induction cs with
  | nil => rfl
  | cons c rest ih =>
      obtain ⟨hc, hrest⟩ := List.forall_mem_cons.mp h
      rw [Text.leadingDigits, decimalValue?_of_isDigit hc, ih hrest, List.map_cons]

theorem numberOfDigits_leadingDigits (h : ∀ c ∈ cs, c.isDigit = true) :
    Text.numberOfDigits (Text.leadingDigits cs) = Nat.ofDigitChars 10 cs 0 := by
  rw [leadingDigits_of_isDigit h, Text.numberOfDigits, List.foldl_map, Nat.ofDigitChars]
  simp only [Nat.mul_comm]

/-- A text of decimal digits is read as its number, if it is not too long. -/
theorem readOrdinal_eq_ok_iff (h : ∀ c ∈ text.toList, c.isDigit = true) :
    readOrdinal text = .ok n ↔
      text.length ≤ maxDigits ∧ Nat.ofDigitChars 10 text.toList 0 = n := by
  have hlength : (Text.leadingDigits text.toList).length = text.length := by
    rw [leadingDigits_of_isDigit h, List.length_map, String.length_toList]
  simp only [readOrdinal, numberOfDigits_leadingDigits h, hlength]
  by_cases hlong : maxDigits < text.length
  · simp [hlong]
  · simp [hlong, Nat.le_of_not_lt hlong]

/-- A number from one on as it is written with decimal digits, without zeros in front. -/
structure IsNumeral (text : String) : Prop where
  digits : ∀ c ∈ text.toList, c.isDigit = true
  head : ∃ c, text.toList.head? = some c ∧ c ≠ '0'

theorem toDigits_of_isDigit {c : Char} (h : c.isDigit = true) :
    Nat.toDigits 10 (c.toNat - '0'.toNat) = [c] := by
  have hrange : 48 ≤ c.toNat ∧ c.toNat ≤ 57 := Char.isDigit_iff_toNat.mp h
  have hlt : c.toNat - 48 < 10 := by omega
  have hchar : (c.toNat - 48).digitChar = c := by
    apply Char.toNat_inj.mp
    rw [Nat.toNat_digitChar_of_lt_ten hlt]
    omega
  have hzero : '0'.toNat = 48 := rfl
  rw [hzero, Nat.toDigits_of_lt_base hlt, hchar]

/-- Digits behind the written form of a positive number are the written form of a number. -/
theorem toDigits_ofDigitChars_append (hn : 0 < n) (h : ∀ c ∈ cs, c.isDigit = true) :
    Nat.toDigits 10 (Nat.ofDigitChars 10 cs n) = Nat.toDigits 10 n ++ cs := by
  induction cs generalizing n with
  | nil => simp
  | cons c rest ih =>
      obtain ⟨hc, hrest⟩ := List.forall_mem_cons.mp h
      have hvalue : c.toNat - '0'.toNat < 10 := by
        have hrange : 48 ≤ c.toNat ∧ c.toNat ≤ 57 := Char.isDigit_iff_toNat.mp hc
        have hzero : '0'.toNat = 48 := rfl
        omega
      calc
        Nat.toDigits 10 (Nat.ofDigitChars 10 (c :: rest) n) =
            Nat.toDigits 10 (10 * n + (c.toNat - '0'.toNat)) ++ rest := by
          rw [Nat.ofDigitChars_cons, ih (by omega) hrest]
        _ = Nat.toDigits 10 n ++ Nat.toDigits 10 (c.toNat - '0'.toNat) ++ rest := by
          rw [Nat.toDigits_append_toDigits (by decide) hn hvalue]
        _ = Nat.toDigits 10 n ++ c :: rest := by
          rw [toDigits_of_isDigit hc]
          simp

/-- A numeral is the written form of its number. -/
theorem IsNumeral.toDigits_ofDigitChars (h : IsNumeral text) :
    Nat.toDigits 10 (Nat.ofDigitChars 10 text.toList 0) = text.toList := by
  obtain ⟨c, hhead, hne⟩ := h.head
  obtain ⟨rest, hrest⟩ := List.head?_eq_some_iff.mp hhead
  have hdigits := h.digits
  rw [hrest] at hdigits ⊢
  obtain ⟨hc, hlater⟩ := List.forall_mem_cons.mp hdigits
  have hpos : 0 < c.toNat - '0'.toNat := by
    have hrange : 48 ≤ c.toNat ∧ c.toNat ≤ 57 := Char.isDigit_iff_toNat.mp hc
    have hzero : c.toNat ≠ 48 := fun heq => hne (Char.toNat_inj.mp heq)
    have hcode : '0'.toNat = 48 := rfl
    omega
  rw [Nat.ofDigitChars_cons, Nat.mul_zero, Nat.zero_add, toDigits_ofDigitChars_append hpos hlater,
    toDigits_of_isDigit hc]
  rfl

/-- The number of a numeral is positive. -/
theorem IsNumeral.ofDigitChars_pos (h : IsNumeral text) :
    0 < Nat.ofDigitChars 10 text.toList 0 := by
  by_contra hzero
  have hdigits := h.toDigits_ofDigitChars
  rw [Nat.eq_zero_of_not_pos hzero, Nat.toDigits_zero] at hdigits
  obtain ⟨c, hhead, hne⟩ := h.head
  rw [← hdigits] at hhead
  exact hne (by simpa using hhead.symm)

/-! ## The pieces of an identifier -/

/-- Pieces are read as an identifier if there are at least four of them and the last one is read as
an ordinal. -/
theorem ofParts_cons_eq_ok_iff {name last : String} {init : List String} {id : ElementId} :
    ofParts text (filePath :: kind :: name :: (init ++ [last])) = .ok id ↔
      last.toList ≠ [] ∧ (∀ c ∈ last.toList, Text.isDigit c = true) ∧
        ∃ ordinal, readOrdinal last = .ok ordinal ∧
          ⟨filePath, kind, String.ofList (separator.intercalate
            ((name :: init).map String.toList)), ordinal⟩ = id := by
  rw [ofParts, List.getLast?_concat, ← List.cons_append, List.dropLast_concat]
  by_cases hempty : last.toList = []
  · simp [hempty]
  by_cases hdigits : ∀ c ∈ last.toList, Text.isDigit c = true
  · have hread : (last.toList.isEmpty || !last.toList.all Text.isDigit) = false := by
      simpa [hempty] using hdigits
    simp only [hread, Bool.false_eq_true, if_false, Outcome.map_eq_ok_iff]
    exact ⟨fun h => ⟨hempty, hdigits, h⟩, fun h => h.2.2⟩
  · have hrefused : (last.toList.isEmpty || !last.toList.all Text.isDigit) = true := by
      simpa [hempty] using hdigits
    simp only [hrefused, if_true, reduceCtorEq, hdigits, false_and, and_false]

theorem exists_of_ofParts {parts : List String} {id : ElementId}
    (h : ofParts text parts = .ok id) :
    ∃ filePath kind name init last, parts = filePath :: kind :: name :: (init ++ [last]) := by
  match parts, h with
  | filePath :: kind :: name :: rest, h =>
      rw [ofParts] at h
      cases hlast : rest.getLast? with
      | none =>
          rw [hlast] at h
          cases h
      | some last =>
          obtain ⟨init, rfl⟩ := List.getLast?_eq_some_iff.mp hlast
          exact ⟨filePath, kind, name, init, last, rfl⟩

theorem map_splitOn (text : String) :
    (Text.splitOn "::" text).map String.toList = Text.cut separator text.toList := by
  simp [Text.splitOn, separator]

/-- What is cut at separators is the text of its pieces with separators between them. -/
theorem toList_eq_intercalate (text : String) :
    text.toList = separator.intercalate ((Text.splitOn "::" text).map String.toList) := by
  rw [map_splitOn, Text.intercalate_cut (by decide)]

/-! ## Identifiers -/

/-- An identifier whose components can be told apart in its written form. -/
structure Readable (id : ElementId) : Prop where
  filePath : Separable id.filePath
  kind : ':' ∉ id.kind.toList
  qualifiedName : Even (trailingColons id.qualifiedName.toList)
  ordinal_pos : 1 ≤ id.ordinal
  ordinal_short : (toString id.ordinal).length ≤ 4300

variable {id : ElementId}

theorem isDigit_of_mem_toString {c : Char} (h : c ∈ (toString n).toList) : c.isDigit = true := by
  rw [Nat.toString_eq_repr, Nat.toList_repr] at h
  exact Nat.isDigit_of_mem_toDigits (by decide) (by decide) h

theorem readOrdinal_toString (h : (toString n).length ≤ 4300) :
    readOrdinal (toString n) = .ok n := by
  apply (readOrdinal_eq_ok_iff fun _ => isDigit_of_mem_toString).mpr
  refine ⟨h, ?_⟩
  rw [Nat.toString_eq_repr, Nat.toList_repr, Nat.ofDigitChars_ten_toDigits]

/-- The pieces of the written form of an identifier. -/
theorem Readable.cut_render (h : Readable id) :
    Text.cut separator id.render.toList =
      id.filePath.toList :: id.kind.toList ::
        (Text.cut separator id.qualifiedName.toList ++ [(toString id.ordinal).toList]) := by
  have hpath : Even (trailingColons id.filePath.toList) := by
    rw [ScopePath.trailingColons_of_getLast?_ne h.filePath.last_ne]
    exact Even.zero
  have hkind : Even (trailingColons id.kind.toList) := by
    rw [ScopePath.trailingColons_of_notMem h.kind]
    exact Even.zero
  rw [toList_render, ScopePath.cut_append_separator hpath, ScopePath.cut_append_separator hkind,
    ScopePath.cut_append_separator h.qualifiedName,
    ScopePath.cut_of_not_infix h.filePath.no_separator, ScopePath.cut_of_notMem h.kind,
    ScopePath.cut_of_notMem (colon_notMem_toString _)]
  rfl

/-- The written form of an identifier is read as the identifier. -/
theorem Readable.parse_render (h : Readable id) : parse id.render = .ok id := by
  have hparts : Text.splitOn "::" id.render = id.filePath :: id.kind ::
      ((Text.cut separator id.qualifiedName.toList).map String.ofList ++
        [toString id.ordinal]) := by
    apply List.map_injective_iff.mpr fun _ _ => String.toList_injective
    rw [map_splitOn, h.cut_render]
    simp
  have hname : String.ofList (separator.intercalate
      (Text.cut separator id.qualifiedName.toList)) = id.qualifiedName := by
    rw [Text.intercalate_cut (by decide), String.ofList_toList]
  obtain ⟨first, later, hcut⟩ :=
    List.exists_cons_of_ne_nil (Text.cut_ne_nil separator id.qualifiedName.toList)
  rw [parse, hparts, hcut, List.map_cons, List.cons_append, ofParts_cons_eq_ok_iff]
  refine ⟨?_, ?_, id.ordinal, readOrdinal_toString h.ordinal_short, ?_⟩
  · rw [Nat.toString_eq_repr, Nat.toList_repr]
    exact Nat.toDigits_ne_nil
  · intro c hc
    rw [Text.isDigit, decimalValue?_of_isDigit (isDigit_of_mem_toString hc)]
    rfl
  · rw [← List.map_cons, ← hcut, List.map_map, String.toList_comp_ofList, List.map_id, hname]

/-- The pieces of an identifier, joined again, are its components in their order. -/
theorem intercalate_parts (filePath kind last : List Char) {names : List (List Char)}
    (hnames : names ≠ []) :
    separator.intercalate (filePath :: kind :: (names ++ [last])) =
      filePath ++ ':' :: ':' :: (kind ++ ':' :: ':' ::
        (separator.intercalate names ++ ':' :: ':' :: last)) := by
  rw [List.intercalate_cons_cons, List.intercalate_cons_of_ne_nil (by simp),
    Text.intercalate_concat hnames]
  simp [separator]

/-- What is read from an identifier that ends in a numeral is written back as the identifier. -/
theorem create_of_parse {last : String} (h : parse text = .ok id)
    (hlast : (Text.splitOn "::" text).getLast? = some last) (hnumeral : IsNumeral last) :
    create id.filePath id.kind id.qualifiedName id.ordinal = .ok text := by
  rw [parse] at h
  have htext := toList_eq_intercalate text
  obtain ⟨filePath, kind, name, init, final, hparts⟩ := exists_of_ofParts h
  rw [hparts] at h hlast htext
  obtain ⟨-, -, ordinal, hordinal, rfl⟩ := ofParts_cons_eq_ok_iff.mp h
  have hfinal : final = last := by
    simpa [List.getLast?_cons] using hlast
  subst hfinal
  obtain ⟨-, hvalue⟩ := (readOrdinal_eq_ok_iff hnumeral.digits).mp hordinal
  have hwritten : (toString ordinal).toList = final.toList := by
    rw [Nat.toString_eq_repr, Nat.toList_repr, ← hvalue, hnumeral.toDigits_ofDigitChars]
  have hmap : (filePath :: kind :: name :: (init ++ [final])).map String.toList =
      filePath.toList :: kind.toList :: ((name :: init).map String.toList ++ [final.toList]) := by
    simp
  have hrender : render ⟨filePath, kind, String.ofList (separator.intercalate
      ((name :: init).map String.toList)), ordinal⟩ = text := by
    apply String.toList_injective
    rw [toList_render, htext, hmap, intercalate_parts _ _ _ (by simp), hwritten,
      String.toList_ofList]
  obtain ⟨n, rfl⟩ := Nat.exists_eq_succ_of_ne_zero (hvalue ▸ hnumeral.ofDigitChars_pos).ne'
  rw [create_succ, hrender]

/-! ## Reading and writing -/

/-- Identifiers with separable components are written and read back; what is read from a text that
ends in a numeral is written as that text. -/
theorem parse_roundTrip :
    (∀ id, Readable id →
      ∃ text, create id.filePath id.kind id.qualifiedName id.ordinal = .ok text ∧
        parse text = .ok id) ∧
    (∀ text id last, parse text = .ok id → (Text.splitOn "::" text).getLast? = some last →
      IsNumeral last → create id.filePath id.kind id.qualifiedName id.ordinal = .ok text) := by
  refine ⟨?_, fun text id last => create_of_parse⟩
  intro id h
  obtain ⟨n, hn⟩ := Nat.exists_eq_succ_of_ne_zero (Nat.ne_of_gt h.ordinal_pos)
  refine ⟨id.render, ?_, h.parse_render⟩
  rw [hn, create_succ, ← Nat.succ_eq_add_one, ← hn]

/-- An identifier whose path holds a colon and whose qualified name holds separators, one of them at
its end. -/
def layered : ElementId :=
  ⟨"src/a:b.rs", "Function", "<T as m::Tr>::f::", 10⟩

theorem parse_roundTrip_sample :
    Readable layered ∧
      (∃ text, create "src/a:b.rs" "Function" "<T as m::Tr>::f::" 10 = .ok text ∧
        parse text = .ok layered) ∧
      parse "a:::Impl::b:::c::205" = .ok ⟨"a", ":Impl", "b:::c", 205⟩ ∧
      (Text.splitOn "::" "a:::Impl::b:::c::205").getLast? = some "205" ∧ IsNumeral "205" ∧
      create "a" ":Impl" "b:::c" 205 = .ok "a:::Impl::b:::c::205" := by
  have hreadable : Readable layered :=
    { filePath := ⟨by decide +kernel, by decide⟩
      kind := by decide
      qualifiedName := by decide
      ordinal_pos := by decide
      ordinal_short := by decide }
  have hparse : parse "a:::Impl::b:::c::205" = .ok ⟨"a", ":Impl", "b:::c", 205⟩ := by
    decide +kernel
  have hlast : (Text.splitOn "::" "a:::Impl::b:::c::205").getLast? = some "205" := by decide
  have hnumeral : IsNumeral "205" := ⟨List.all_eq_true.mp (by decide), '2', by decide, by decide⟩
  exact ⟨hreadable, parse_roundTrip.1 layered hreadable, hparse, hlast, hnumeral,
    parse_roundTrip.2 _ _ _ hparse hlast hnumeral⟩

end CrateAtlas.ElementId
