import CrateAtlas.PosixPath

/-!
# Paths below a directory

The path of an entry below a directory is the path of the directory, a slash unless that path ends
in one, and the names on the way.  Names can be read back from it, and the way from the directory to
the entry is made of the same names.

Main results:

- Theorem {lit}`pieces_joinParts`: the names that make up a path are its pieces.
- Theorem {lit}`relative_below`: the way to an entry is made of the names that lead there.
- Theorem {lit}`absolute_below`: the path of an entry below a directory in normal form is in normal
  form.
- Theorem {lit}`extension_eq_rs_iff`: which names have the extension of source files.
-/

namespace CrateAtlas

/-- Cutting at a single character is splitting at that character. -/
theorem Text.cut_singleton (c : Char) (cs : List Char) : Text.cut [c] cs = cs.splitOn c := by
  have hcut : ∀ piece, Text.cutFrom [c] 0 piece cs = cs.splitOnPPrepend (· == c) piece := by
    induction cs with
    | nil =>
        intro piece
        rw [Text.cutFrom, List.splitOnPPrepend_nil]
    | cons d ds ih =>
        intro piece
        rw [Text.cutFrom, List.splitOnPPrepend_cons_eq_if]
        by_cases hd : c = d
        · subst hd
          simp [List.isPrefixOf, ih]
        · have hne : ¬d = c := fun h => hd h.symm
          simp [List.isPrefixOf, hd, hne, ih]
  exact hcut []

namespace PosixPath

/-- A name that an entry of a directory can have. -/
structure IsName (name : String) : Prop where
  ne_empty : name ≠ ""
  ne_dot : name ≠ "."
  ne_dotdot : name ≠ ".."
  no_slash : '/' ∉ name.toList

instance (name : String) : Decidable (IsName name) :=
  decidable_of_iff (name ≠ "" ∧ name ≠ "." ∧ name ≠ ".." ∧ '/' ∉ name.toList)
    ⟨fun ⟨hempty, hdot, hdotdot, hslash⟩ => ⟨hempty, hdot, hdotdot, hslash⟩,
      fun h => ⟨h.ne_empty, h.ne_dot, h.ne_dotdot, h.no_slash⟩⟩

/-! ## Pieces -/

/-- The pieces of a path after a slash follow those before it. -/
theorem pieces_append_slash (front back : String) :
    pieces (front ++ "/" ++ back) = pieces front ++ pieces back := by
  have hslash : "/".toList = ['/'] := by decide
  unfold pieces Text.splitOn
  rw [hslash, Text.cut_singleton, Text.cut_singleton, Text.cut_singleton, String.toList_append,
    String.toList_append, hslash, List.append_assoc, List.singleton_append,
    List.splitOn_append_cons_self, List.map_append]

/-- The names that make up a path are its pieces. -/
theorem pieces_joinParts {parts : List String} (hne : parts ≠ [])
    (h : ∀ part ∈ parts, '/' ∉ part.toList) : pieces (joinParts parts) = parts := by
  have hslash : "/".toList = ['/'] := by decide
  unfold pieces Text.splitOn joinParts
  rw [hslash, String.toList_ofList, Text.cut_singleton, List.splitOn_intercalate]
  · rw [List.map_map]
    simp
  · intro cs hcs
    obtain ⟨part, hpart, rfl⟩ := List.mem_map.mp hcs
    exact h part hpart
  · simpa using hne

/-- Different lists of names make up different paths. -/
theorem joinParts_inj {parts parts' : List String} (hne : parts ≠ []) (hne' : parts' ≠ [])
    (h : ∀ part ∈ parts, IsName part) (h' : ∀ part ∈ parts', IsName part)
    (heq : joinParts parts = joinParts parts') : parts = parts' := by
  rw [← pieces_joinParts hne fun part hpart => (h part hpart).no_slash, heq,
    pieces_joinParts hne' fun part hpart => (h' part hpart).no_slash]

/-! ## The way to an entry -/

/-- Names are kept when a path is brought into normal form. -/
theorem resolveParts_names {names : List String} (h : ∀ name ∈ names, IsName name) :
    ∀ kept, resolveParts kept names = kept.reverse ++ names := by
  induction names with
  | nil =>
      intro kept
      rw [resolveParts, List.append_nil]
  | cons name rest ih =>
      intro kept
      have hname := h name (by simp)
      have hrest := ih fun name hname => h name (by simp [hname])
      rw [resolveParts, if_neg (by simp [hname.ne_empty, hname.ne_dot]), if_neg hname.ne_dotdot,
        hrest]
      simp

/-- Names at the end of a path stay there when the path is brought into normal form. -/
theorem resolveParts_append {names : List String} (h : ∀ name ∈ names, IsName name)
    (parts : List String) :
    ∀ kept, resolveParts kept (parts ++ names) = resolveParts kept parts ++ names := by
  induction parts with
  | nil =>
      intro kept
      rw [List.nil_append, resolveParts_names h, resolveParts]
  | cons part rest ih =>
      intro kept
      rw [List.cons_append, resolveParts, resolveParts]
      split
      · exact ih kept
      · split
        · exact ih kept.tail
        · exact ih (part :: kept)

/-- An empty piece at the end of a path makes no difference. -/
theorem resolveParts_empty_end (parts : List String) :
    ∀ kept, resolveParts kept (parts ++ [""]) = resolveParts kept parts := by
  induction parts with
  | nil => exact fun _ => rfl
  | cons part rest ih =>
      intro kept
      rw [List.cons_append, resolveParts, resolveParts, ih, ih, ih]

/-- A path made of names does not start at the root. -/
theorem startsWith_joinParts {parts : List String} (hne : parts ≠ [])
    (h : ∀ part ∈ parts, IsName part) : Text.startsWith "/" (joinParts parts) = false := by
  obtain ⟨first, rest, rfl⟩ := List.exists_cons_of_ne_nil hne
  have hfirst := h first (by simp)
  obtain ⟨c, cs, hchars⟩ := List.exists_cons_of_ne_nil
    fun hnil => hfirst.ne_empty (String.toList_inj.mp hnil)
  have hc : c ≠ '/' := by
    rintro rfl
    exact hfirst.no_slash (hchars ▸ List.mem_cons_self)
  have hlist : ∃ later, (joinParts (first :: rest)).toList = c :: later := by
    unfold joinParts
    rw [String.toList_ofList, List.map_cons, hchars]
    cases rest with
    | nil => exact ⟨cs, by simp⟩
    | cons next last =>
        exact ⟨cs ++ '/' :: ['/'].intercalate (next.toList :: last.map String.toList), by simp⟩
  obtain ⟨later, hlater⟩ := hlist
  rw [Text.startsWith, hlater]
  simpa [List.isPrefixOf] using hc.symm

/-- The pieces of the path of an entry below a directory are those of the directory, but for an
empty one at the end, and the names that lead there. -/
theorem exists_pieces_below (root : String) {parts : List String} (hne : parts ≠ [])
    (h : ∀ part ∈ parts, IsName part) :
    ∃ front, pieces (below root (joinParts parts)) = front ++ parts ∧
      (pieces root = front ∨ pieces root = front ++ [""]) := by
  have hparts := pieces_joinParts hne fun part hpart => (h part hpart).no_slash
  rw [below, startsWith_joinParts hne h]
  simp only [Bool.false_eq_true, if_false]
  split
  · rename_i hend
    rcases hend with hslash | rfl
    · obtain ⟨cs, hcs⟩ := List.getLast?_eq_some_iff.mp hslash
      obtain rfl : root = String.ofList cs ++ "/" := String.toList_inj.mp (by simp [hcs])
      refine ⟨pieces (String.ofList cs), ?_, .inr ?_⟩
      · rw [pieces_append_slash, hparts]
      · rw [← String.append_empty (s := String.ofList cs ++ "/"), pieces_append_slash]
        rfl
    · exact ⟨[], by rw [String.empty_append, hparts]; rfl, .inr rfl⟩
  · exact ⟨pieces root, by rw [pieces_append_slash, hparts], .inl rfl⟩

/-- The components of an entry below a directory are those of the directory and its own. -/
theorem absoluteParts_below (root : String) {parts : List String} (hne : parts ≠ [])
    (h : ∀ part ∈ parts, IsName part) :
    absoluteParts (below root (joinParts parts)) = absoluteParts root ++ parts := by
  obtain ⟨front, hpieces, hroot⟩ := exists_pieces_below root hne h
  have habsolute : absoluteParts root = resolveParts [] front := by
    unfold absoluteParts
    rcases hroot with hroot | hroot
    · rw [hroot]
    · rw [hroot, resolveParts_empty_end]
  rw [habsolute, absoluteParts, hpieces, resolveParts_append h]

theorem sharedCount_append (xs ys : List String) : sharedCount xs (xs ++ ys) = xs.length := by
  induction xs with
  | nil => cases ys <;> rfl
  | cons x xs ih => simp [sharedCount, ih]

/-- The way from a directory to an entry below it is made of the names that lead there. -/
theorem relative_below (root : String) {parts : List String} (hne : parts ≠ [])
    (h : ∀ part ∈ parts, IsName part) :
    relative (below root (joinParts parts)) root = joinParts parts := by
  have hway : relativeParts (absoluteParts root ++ parts) (absoluteParts root) = parts := by
    simp [relativeParts, sharedCount_append]
  unfold relative
  rw [absoluteParts_below root hne h, hway]
  cases parts with
  | nil => exact absurd rfl hne
  | cons part rest => rfl

/-! ## The end of a path -/

/-- A path ends in its last name. -/
theorem exists_toList_joinParts (front : List String) (name : String) :
    ∃ cs, (joinParts (front ++ [name])).toList = cs ++ name.toList := by
  unfold joinParts
  rw [String.toList_ofList]
  induction front with
  | nil => exact ⟨[], by simp⟩
  | cons part rest ih =>
      obtain ⟨cs, hcs⟩ := ih
      refine ⟨part.toList ++ '/' :: cs, ?_⟩
      rw [List.cons_append, List.map_cons, List.intercalate_cons_of_ne_nil (by simp), hcs]
      simp

/-- A path to a directory and one below it make up one path. -/
theorem joinParts_append {front back : List String} (hfront : front ≠ []) (hback : back ≠ []) :
    joinParts (front ++ back) = joinParts front ++ "/" ++ joinParts back := by
  have hlists : ∀ xs ys : List (List Char), xs ≠ [] → ys ≠ [] →
      ['/'].intercalate (xs ++ ys) = ['/'].intercalate xs ++ ['/'] ++ ['/'].intercalate ys := by
    intro xs ys hxs hys
    induction xs with
    | nil => contradiction
    | cons x xs ih =>
        cases xs with
        | nil =>
            rw [List.singleton_append, List.intercalate_cons_of_ne_nil hys,
              List.intercalate_singleton]
        | cons next rest =>
            rw [List.cons_append, List.intercalate_cons_of_ne_nil (by simp),
              ih (List.cons_ne_nil next rest),
              List.intercalate_cons_of_ne_nil (List.cons_ne_nil next rest)]
            simp only [List.append_assoc]
  have hslash : "/" = String.ofList ['/'] := by decide
  unfold joinParts
  rw [List.map_append, hlists _ _ (by simpa using hfront) (by simpa using hback),
    String.ofList_append, String.ofList_append, ← hslash]

/-! ## Normal form -/

/-- A piece of a path holds no slash. -/
theorem no_slash_of_mem_pieces {path part : String} (h : part ∈ pieces path) :
    '/' ∉ part.toList := by
  have hpieces : ∀ cs kept : List Char, '/' ∉ kept →
      ∀ piece ∈ cs.splitOnPPrepend (· == '/') kept, '/' ∉ piece := by
    intro cs
    induction cs with
    | nil =>
        intro kept hkept piece hpiece
        rw [List.splitOnPPrepend_nil, List.mem_singleton] at hpiece
        simpa [hpiece] using hkept
    | cons c cs ih =>
        intro kept hkept piece hpiece
        rw [List.splitOnPPrepend_cons_eq_if] at hpiece
        split at hpiece <;> rename_i hc
        · rcases List.mem_cons.mp hpiece with rfl | hlater
          · simpa using hkept
          · exact ih [] (by simp) piece hlater
        · refine ih (c :: kept) ?_ piece hpiece
          simpa [hkept] using fun heq => hc (by simp [← heq])
  have hslash : "/".toList = ['/'] := by decide
  rw [pieces, Text.splitOn, hslash, Text.cut_singleton] at h
  obtain ⟨piece, hpiece, rfl⟩ := List.mem_map.mp h
  rw [String.toList_ofList]
  exact hpieces path.toList [] (by simp) piece hpiece

/-- The components of a path in normal form are names. -/
theorem isName_of_mem_absoluteParts {path part : String} (h : part ∈ absoluteParts path) :
    IsName part := by
  have hresolve : ∀ parts kept : List String, (∀ part ∈ parts, '/' ∉ part.toList) →
      (∀ part ∈ kept, IsName part) → ∀ part ∈ resolveParts kept parts, IsName part := by
    intro parts
    induction parts with
    | nil =>
        intro kept _ hkept part hpart
        exact hkept part (List.mem_reverse.mp hpart)
    | cons next rest ih =>
        intro kept hparts hkept part hpart
        have hrest : ∀ part ∈ rest, '/' ∉ part.toList := fun part hmem =>
          hparts part (List.mem_cons_of_mem _ hmem)
        rw [resolveParts] at hpart
        split at hpart <;> rename_i hstay
        · exact ih kept hrest hkept part hpart
        · split at hpart <;> rename_i hup
          · exact ih kept.tail hrest (fun part hmem => hkept part (List.mem_of_mem_tail hmem)) part
              hpart
          · rw [not_or] at hstay
            have hnext : IsName next :=
              ⟨hstay.1, hstay.2, hup, hparts next List.mem_cons_self⟩
            exact ih (next :: kept) hrest (List.forall_mem_cons.mpr ⟨hnext, hkept⟩) part hpart
  exact hresolve _ [] (fun part hpart => no_slash_of_mem_pieces hpart) (by simp) part h

/-- The path of names below the root. -/
theorem absoluteParts_joinParts {root : String} (hroot : root = "/" ∨ root = "//")
    {parts : List String} (h : ∀ part ∈ parts, IsName part) :
    absoluteParts (root ++ joinParts parts) = parts := by
  by_cases hne : parts = []
  · subst hne
    rcases hroot with rfl | rfl <;> decide
  · have hbelow : below root (joinParts parts) = root ++ joinParts parts := by
      rw [below, startsWith_joinParts hne h, if_neg (by simp), if_pos]
      rcases hroot with rfl | rfl <;> decide
    rw [← hbelow, absoluteParts_below root hne h]
    rcases hroot with rfl | rfl <;> rfl


/-- The normal form of the path of names below the root is that path. -/
theorem absolute_joinParts {root : String} (hroot : root = "/" ∨ root = "//")
    {parts : List String} (h : ∀ part ∈ parts, IsName part) :
    absolute (root ++ joinParts parts) = root ++ joinParts parts := by
  have hstart : ['/'].isPrefixOf (joinParts parts).toList = false := by
    by_cases hne : parts = []
    · subst hne
      rfl
    · exact startsWith_joinParts hne h
  rw [absolute, absoluteParts_joinParts hroot h]
  rcases hroot with rfl | rfl <;> simp [Text.startsWith, List.isPrefixOf, hstart]

/-- A path in normal form is the root with names below it. -/
theorem exists_absolute (path : String) : ∃ root, (root = "/" ∨ root = "//") ∧
    absolute path = root ++ joinParts (absoluteParts path) := by
  unfold absolute
  split
  · exact ⟨"//", .inr rfl, rfl⟩
  · exact ⟨"/", .inl rfl, rfl⟩

theorem absolute_absolute (path : String) : absolute (absolute path) = absolute path := by
  obtain ⟨root, hroot, hpath⟩ := exists_absolute path
  rw [hpath, absolute_joinParts hroot fun part hpart => isName_of_mem_absoluteParts hpart]

/-- A path in normal form is the same for every working directory. -/
theorem absoluteFrom_absolute (workingDirectory path : String) :
    absoluteFrom workingDirectory (absolute path) = absolute path := by
  have hstart : Text.startsWith "/" (absolute path) = true := by
    obtain ⟨root, hroot, hpath⟩ := exists_absolute path
    rw [hpath]
    rcases hroot with rfl | rfl <;> simp [Text.startsWith, List.isPrefixOf]
  rw [absoluteFrom, below, if_pos hstart, absolute_absolute]

/-- The path of an entry below a directory in normal form is in normal form. -/
theorem absolute_below (path : String) {parts : List String} (hne : parts ≠ [])
    (h : ∀ part ∈ parts, IsName part) :
    absolute (below (absolute path) (joinParts parts)) =
      below (absolute path) (joinParts parts) := by
  obtain ⟨root, hroot, hpath⟩ := exists_absolute path
  have hfront : ∀ part ∈ absoluteParts path, IsName part :=
    fun part hpart => isName_of_mem_absoluteParts hpart
  have hbelow : below (absolute path) (joinParts parts) =
      root ++ joinParts (absoluteParts path ++ parts) := by
    rw [hpath, below, startsWith_joinParts hne h, if_neg (by simp)]
    rcases List.eq_nil_or_concat (absoluteParts path) with hnil | ⟨front, name, hconcat⟩
    · rw [hnil, List.nil_append, if_pos]
      · rw [show joinParts [] = "" from rfl, String.append_empty]
      · rcases hroot with rfl | rfl <;> decide
    · rw [List.concat_eq_append] at hconcat
      -- The last name does not end in a slash, and so a slash is put between.
      have hname := hfront name (by simp [hconcat])
      obtain ⟨start, c, hc⟩ := (List.eq_nil_or_concat name.toList).resolve_left
        fun hnil => hname.ne_empty (String.toList_inj.mp hnil)
      rw [List.concat_eq_append] at hc
      obtain ⟨cs, hcs⟩ := exists_toList_joinParts front name
      have hend : (root ++ joinParts (front ++ [name])).toList =
          root.toList ++ cs ++ start ++ [c] := by
        simp [hcs, hc]
      rw [if_neg, hconcat, joinParts_append (by simp) hne]
      · simp only [String.append_assoc]
      · rw [hconcat, hend, List.getLast?_concat, Option.some.injEq, ← String.toList_inj, hend]
        have hslash : c ≠ '/' := fun heq => hname.no_slash (by simp [hc, heq])
        simp [hslash]
  rw [hbelow, absolute_joinParts hroot fun part hpart =>
    (List.mem_append.mp hpart).elim (hfront part) (h part)]

/-! ## The extension of source files -/

/-- The last dot of a name that ends in the extension of source files. -/
theorem lastIndexFrom_dot (stem : List Char) :
    ∀ i, Text.lastIndexFrom ['.'] i (stem ++ ['.', 'r', 's']) = some (i + stem.length) := by
  induction stem with
  | nil => exact fun _ => rfl
  | cons c cs ih =>
      intro i
      rw [List.cons_append, Text.lastIndexFrom, ih, List.length_cons, Nat.add_right_comm]
      rfl

/-- A name has the extension of source files if it ends in {lit}`.rs` after something else than
dots. -/
theorem extension_eq_rs_iff {name : String} :
    extension name = ".rs" ↔
      ∃ stem, name.toList = stem ++ ['.', 'r', 's'] ∧ ∃ c ∈ stem, c ≠ '.' := by
  constructor
  · intro h
    unfold extension at h
    simp only at h
    split at h
    · rename_i i _
      split at h <;> rename_i hdots
      · exact absurd h (by decide)
      · have hdrop : name.toList.drop i = ['.', 'r', 's'] := by
          rw [← String.toList_ofList (l := name.toList.drop i), h]
          rfl
        refine ⟨name.toList.take i, ?_, by simpa using hdots⟩
        rw [← hdrop, List.take_append_drop]
    · exact absurd h (by decide)
  · rintro ⟨stem, hname, hstem⟩
    have hdots : stem.all (· == '.') ≠ true := by simpa using hstem
    rw [extension, hname, Text.lastIndex?, lastIndexFrom_dot, Nat.zero_add]
    simp only [List.take_left, List.drop_left]
    rw [if_neg hdots]

/-- A name with the extension of source files ends in its last letter. -/
theorem getLast?_of_extension {name : String} (h : extension name = ".rs") :
    name.toList.getLast? = some 's' := by
  obtain ⟨stem, hname, -⟩ := extension_eq_rs_iff.mp h
  simp [hname]

/-- So does a path whose last name has that extension. -/
theorem getLast?_joinParts_of_extension (front : List String) {name : String}
    (h : extension name = ".rs") : (joinParts (front ++ [name])).toList.getLast? = some 's' := by
  obtain ⟨cs, hcs⟩ := exists_toList_joinParts front name
  rw [hcs, List.getLast?_append, getLast?_of_extension h, Option.some_or]

end PosixPath

end CrateAtlas
