import CrateAtlas.Proofs.SettingsReading

/-!
# Settings and the documents that give them

Settings are read from documents in two layouts: the patterns stand flat beside the other keys, or
under {lit}`filters`.  Whatever is read is written in the nested layout, and is read back from there.
Where the patterns of a list stand does not matter, as long as it is one place.

Main results:

- Theorem {lit}`ofDocument_toDocument`: valid settings are read back from their document.
- Theorem {lit}`Draft.ofEntries_of_moves`: moving patterns between the layouts changes nothing.
- Theorem {lit}`ofDocument_roundTrip`: the settings read from a document, and other documents that
  give them.
-/

namespace CrateAtlas

namespace Settings

variable {list : PatternList} {source : String} {flat filters : List (String × Document)}

/-! ## Writing and reading back -/

/-- Valid settings are read back from their document. -/
theorem ofDocument_toDocument {s : Settings} (h : s.Valid) (source : String) :
    (ofDocument source s.toDocument).result = .ok s := by
  refine ofDocument_mapping_eq_ok_iff.mpr ⟨⟨s.includeDocs, s.includePrivate, s.parseDependencies,
    some (.int s.maxFileSize), some (.texts s.selected), some (.texts s.excluded),
    some (.option .int s.maxWorkers)⟩, Draft.ofEntries_eq_ok_iff.mpr ?_, ?_, h⟩
  · refine ⟨⟨[("include", .texts s.selected), ("exclude", .texts s.excluded)],
      filterEntries_eq_ok_iff.mpr ⟨rfl, ?_⟩, rfl, rfl⟩, ?_, rfl, rfl, rfl, rfl, rfl⟩
    · simp only [List.forall_mem_cons]
      exact ⟨⟨.select, rfl⟩, ⟨.exclude, rfl⟩, by simp⟩
    · simp only [List.forall_mem_cons]
      exact ⟨by simp [keys], by simp [keys], by simp [keys], by simp [keys], by simp [keys],
        by simp, by simp⟩
  · refine ⟨rfl, rfl, rfl, rfl, readPatterns_texts ?_, readPatterns_texts ?_, ?_⟩
    · exact fun pattern hpattern => h.notBlank pattern (List.mem_append_left _ hpattern)
    · exact fun pattern hpattern => h.notBlank pattern (List.mem_append_right _ hpattern)
    · cases s.maxWorkers with
      | none => rfl
      | some n => rfl

/-! ## Moving patterns -/

/-- The keys that say where patterns stand. -/
def layoutKeys : List String :=
  ["filters", PatternList.select.key, PatternList.exclude.key]

/-- One mapping gives what another one does, except that the patterns of a list may stand flat in
one of them and under {lit}`filters` in the other.  In the second one they stand in one place. -/
structure Moves (a b : List (String × Document)) : Prop where
  others : ∀ key, key ∉ layoutKeys → Document.entry? b key = Document.entry? a key
  patterns : ∃ nested nested', nested? a = some nested ∧ nested? b = some nested' ∧
    (∀ entry ∈ nested', ∃ list : PatternList, list.key = entry.1) ∧
    ∀ list : PatternList,
      (Document.entry? b list.key = none ∨ Document.entry? nested' list.key = none) ∧
      (Document.entry? nested' list.key).or (Document.entry? b list.key) =
        (Document.entry? nested list.key).or (Document.entry? a list.key)

variable {a b : List (String × Document)}

theorem flag_eq_ok_iff {key : String} {absent value : Bool} :
    flag source key absent flat = .ok value ↔
      Document.entry? flat key = none ∧ value = absent ∨
        Document.entry? flat key = some (.bool value) := by
  unfold flag
  cases Document.entry? flat key with
  | none => simp [eq_comm]
  | some document =>
      cases document with
      | bool found => simp
      | _ => simp

/-- A key of the second mapping is a key of the first one, or says where patterns stand. -/
theorem Moves.mem_keys (h : Moves a b) (ha : ∀ entry ∈ a, entry.1 ∈ "filters" :: keys) :
    ∀ entry ∈ b, entry.1 ∈ "filters" :: keys := by
  intro entry hentry
  by_cases hlayout : entry.1 ∈ layoutKeys
  · have hsub : layoutKeys ⊆ "filters" :: keys := by decide
    exact hsub hlayout
  · obtain ⟨document, hfound⟩ := Document.entry?_of_mem hentry
    rw [h.others entry.1 hlayout] at hfound
    by_contra hunknown
    have habsent : Document.entry? a entry.1 = none :=
      Document.entry?_eq_none_iff.mpr fun other hother hkey => hunknown (hkey ▸ ha other hother)
    rw [habsent] at hfound
    cases hfound

/-- Moving patterns from one place to the other gives the same draft. -/
theorem Draft.ofEntries_of_moves {draft : Draft} (h : Moves a b)
    (hdraft : Draft.ofEntries source a = .ok draft) (source' : String) :
    Draft.ofEntries source' b = .ok draft := by
  simp only [Draft.ofEntries_eq_ok_iff, filterEntries_eq_ok_iff, patternEntry_eq_ok_iff,
    flag_eq_ok_iff] at hdraft ⊢
  obtain ⟨⟨filters, ⟨hfilters, -⟩, ⟨-, hselected⟩, -, hexcluded⟩, hknown, hflags⟩ := hdraft
  obtain ⟨nested, nested', hnested, hnested', honly, hplaces⟩ := h.patterns
  obtain rfl : nested = filters := Option.some.inj (hnested.symm.trans hfilters)
  refine ⟨⟨nested', ⟨hnested', honly⟩, ⟨(hplaces .select).1, ?_⟩, (hplaces .exclude).1, ?_⟩,
    h.mem_keys hknown, ?_⟩
  · rw [hselected, (hplaces .select).2]
  · rw [hexcluded, (hplaces .exclude).2]
  · rw [h.others "include_docs" (by decide), h.others "include_private" (by decide),
      h.others "parse_dependencies" (by decide), h.others "max_file_size" (by decide),
      h.others "max_workers" (by decide)]
    exact hflags

/-! ## Every layout -/

/-- The entry of a list of patterns, if there is something to be said about it. -/
def entryOf (list : PatternList) : Option Document → List (String × Document)
  | some document => [(list.key, document)]
  | none => []

/-- What is given for those lists that are to stand in a place. -/
def placed (here : PatternList → Bool) (given : PatternList → Option Document) :
    List (String × Document) :=
  entryOf .select (if here .select then given .select else none) ++
    entryOf .exclude (if here .exclude then given .exclude else none)

/-- What a mapping gives for a list of patterns, wherever it stands. -/
def given (entries : List (String × Document)) (list : PatternList) : Option Document :=
  (Document.entry? ((nested? entries).getD []) list.key).or (Document.entry? entries list.key)

/-- A mapping with its patterns where they are wanted: under {lit}`filters` or flat. -/
def arranged (inner : PatternList → Bool) (entries : List (String × Document)) :
    List (String × Document) :=
  entries.filter (fun entry => !layoutKeys.contains entry.1) ++
    placed (fun list => !inner list) (given entries) ++
    [("filters", .mapping (placed inner (given entries)))]

theorem entry?_append (front back : List (String × Document)) (key : String) :
    Document.entry? (front ++ back) key =
      (Document.entry? front key).or (Document.entry? back key) := by
  rw [Document.entry?, List.find?_append, Option.map_or]
  rfl

theorem entry?_filter (entries : List (String × Document)) (key : String) :
    Document.entry? (entries.filter fun entry => !layoutKeys.contains entry.1) key =
      if key ∈ layoutKeys then none else Document.entry? entries key := by
  rw [Document.entry?, List.find?_filter]
  by_cases hkey : key ∈ layoutKeys
  · rw [if_pos hkey]
    simp only [Option.map_eq_none_iff, List.find?_eq_none]
    rintro entry - hentry
    simp only [decide_eq_true_eq, Bool.not_eq_true', beq_iff_eq] at hentry
    obtain ⟨hnot, rfl⟩ := hentry
    simp [hkey] at hnot
  · rw [if_neg hkey, Document.entry?]
    congr 2
    funext entry
    by_cases hentry : entry.1 = key
    · simp [hentry, hkey]
    · simp [hentry]

theorem entry?_entryOf (found : Option Document) (key : String) :
    Document.entry? (entryOf list found) key = if list.key = key then found else none := by
  cases found with
  | none => simp [entryOf, Document.entry?]
  | some document => by_cases hkey : list.key = key <;> simp [entryOf, Document.entry?, hkey]

theorem mem_entryOf_iff {found : Option Document} {entry : String × Document} :
    entry ∈ entryOf list found ↔
      ∃ document, found = some document ∧ entry = (list.key, document) := by
  cases found with
  | none => simp [entryOf]
  | some document => simp [entryOf]

theorem entry?_placed {here : PatternList → Bool} {found : PatternList → Option Document} :
    Document.entry? (placed here found) list.key = if here list then found list else none := by
  rw [placed, entry?_append, entry?_entryOf, entry?_entryOf]
  cases list with
  | select => simp [PatternList.key_inj]
  | exclude => simp [PatternList.key_inj]

theorem entry?_placed_of_notMem {here : PatternList → Bool}
    {found : PatternList → Option Document} {key : String}
    (h : ∀ list : PatternList, list.key ≠ key) :
    Document.entry? (placed here found) key = none := by
  rw [placed, entry?_append, entry?_entryOf, entry?_entryOf, if_neg (h _), if_neg (h _)]
  rfl

/-- What an arrangement has under a key: other keys are left alone, the patterns that are wanted
flat stand flat, and the others do not. -/
theorem entry?_arranged (inner : PatternList → Bool) (entries : List (String × Document))
    (key : String) :
    Document.entry? (arranged inner entries) key =
      ((if key ∈ layoutKeys then none else Document.entry? entries key).or
        (Document.entry? (placed (fun list => !inner list) (given entries)) key)).or
        (if key = "filters" then some (.mapping (placed inner (given entries))) else none) := by
  rw [arranged, entry?_append, entry?_append, entry?_filter]
  congr 1
  by_cases hkey : key = "filters"
  · simp [Document.entry?, hkey]
  · simp [Document.entry?, hkey, Ne.symm hkey]

/-- Each arrangement of the patterns of a mapping moves them. -/
theorem moves_arranged {nested : List (String × Document)} (hnested : nested? flat = some nested)
    (inner : PatternList → Bool) : Moves flat (arranged inner flat) := by
  have hne : ∀ list : PatternList, list.key ≠ "filters" := by
    intro list
    cases list <;> decide
  have hmem : ∀ list : PatternList, list.key ∈ layoutKeys := by
    intro list
    cases list <;> decide
  refine ⟨?_, nested, placed inner (given flat), hnested, ?_, ?_, ?_⟩
  · intro key hkey
    have hplaced : ∀ list : PatternList, list.key ≠ key := by
      rintro list rfl
      exact hkey (hmem list)
    have hfilters : key ≠ "filters" := by
      rintro rfl
      exact hkey (by decide)
    rw [entry?_arranged, if_neg hkey, entry?_placed_of_notMem hplaced, if_neg hfilters]
    simp
  · have hfound : Document.entry? (arranged inner flat) "filters" =
        some (.mapping (placed inner (given flat))) := by
      rw [entry?_arranged, if_pos (by decide), entry?_placed_of_notMem hne, if_pos rfl]
      rfl
    rw [nested?, hfound]
  · intro entry hentry
    simp only [placed, List.mem_append, mem_entryOf_iff] at hentry
    rcases hentry with ⟨document, -, rfl⟩ | ⟨document, -, rfl⟩
    · exact ⟨.select, rfl⟩
    · exact ⟨.exclude, rfl⟩
  · intro list
    have hgiven : given flat list =
        (Document.entry? nested list.key).or (Document.entry? flat list.key) := by
      rw [given, hnested]
      rfl
    rw [entry?_arranged, if_pos (hmem list), if_neg (hne list), entry?_placed, entry?_placed,
      ← hgiven]
    cases inner list with
    | true => simp
    | false => simp

/-- A mapping that gives a list of patterns in both places is refused. -/
theorem exists_error_of_givenTwice {nested : List (String × Document)}
    (hnested : nested? flat = some nested)
    (hflat : (Document.entry? flat list.key).isSome)
    (hinner : (Document.entry? nested list.key).isSome) :
    ∃ fault, fault ≠ .unlistedKeys ∧
      (ofDocument source (.mapping flat)).result = .error fault := by
  cases hresult : (ofDocument source (.mapping flat)).result with
  | error fault =>
      refine ⟨fault, ?_, rfl⟩
      rintro rfl
      rw [ofDocument_unlisted_iff, unlisted, oddFilters_eq_false hnested] at hresult
      cases hresult
  | ok s =>
      obtain ⟨draft, hdraft, -, -⟩ := ofDocument_mapping_eq_ok_iff.mp hresult
      simp only [Draft.ofEntries_eq_ok_iff, filterEntries_eq_ok_iff, patternEntry_eq_ok_iff]
        at hdraft
      obtain ⟨⟨filters, ⟨hfilters, -⟩, ⟨hselected, -⟩, hexcluded, -⟩, -⟩ := hdraft
      obtain rfl : nested = filters := Option.some.inj (hnested.symm.trans hfilters)
      have honce : Document.entry? flat list.key = none ∨
          Document.entry? nested list.key = none := by
        cases list with
        | select => exact hselected
        | exclude => exact hexcluded
      rcases honce with hnone | hnone
      · simp [hnone] at hflat
      · simp [hnone] at hinner

theorem exists_nested_of_ofEntries {draft : Draft}
    (h : Draft.ofEntries source flat = .ok draft) : ∃ nested, nested? flat = some nested := by
  obtain ⟨⟨filters, hfilters, -⟩, -⟩ := Draft.ofEntries_eq_ok_iff.mp h
  exact ⟨filters, (filterEntries_eq_ok_iff.mp hfilters).1⟩

/-- Settings that are read from a document are valid and are read back from the document that they
are written as.  Where the document is a mapping, its patterns may be moved between the flat and the
nested layout, in every arrangement, and give the same settings; a mapping that gives a list in both
places is refused. -/
theorem ofDocument_roundTrip {payload : Document} {s : Settings}
    (h : (ofDocument source payload).result = .ok s) :
    s.Valid ∧
      (∀ source', (ofDocument source' s.toDocument).result = .ok s) ∧
      (∀ a, payload = .mapping a → (∀ inner, Moves a (arranged inner a)) ∧
        ∀ b, Moves a b → ∀ source', (ofDocument source' (.mapping b)).result = .ok s) ∧
      ∀ source' b nested (list : PatternList), nested? b = some nested →
        (Document.entry? b list.key).isSome → (Document.entry? nested list.key).isSome →
          ∃ fault, fault ≠ .unlistedKeys ∧
            (ofDocument source' (.mapping b)).result = .error fault := by
  have hvalid := valid_of_ofDocument h
  refine ⟨hvalid, ofDocument_toDocument hvalid, ?_, ?_⟩
  · rintro a rfl
    obtain ⟨draft, hdraft, hgives, -⟩ := ofDocument_mapping_eq_ok_iff.mp h
    constructor
    · obtain ⟨nested, hnested⟩ := exists_nested_of_ofEntries hdraft
      exact moves_arranged hnested
    · intro b hmoves source'
      exact ofDocument_mapping_eq_ok_iff.mpr
        ⟨draft, Draft.ofEntries_of_moves hmoves hdraft source', hgives, hvalid⟩
  · intro source' b nested list hnested hflat hinner
    exact exists_error_of_givenTwice hnested hflat hinner

/-! ## A mapping in a mixed layout -/

namespace Sample

/-- A mapping that gives one list of patterns flat and the other one under {lit}`filters`. -/
def mixed : List (String × Document) :=
  [("include", .texts ["**/*.rs"]), ("max_workers", .int 3),
    ("filters", .mapping [("exclude", .texts ["gen/**"])])]

/-- The same with the two places changed. -/
def changed : List (String × Document) :=
  [("max_workers", .int 3), ("exclude", .texts ["gen/**"]),
    ("filters", .mapping [("include", .texts ["**/*.rs"])])]

/-- What both of them give. -/
def settings : Settings :=
  { Settings.default with selected := ["**/*.rs"], excluded := ["gen/**"], maxWorkers := some 3 }

end Sample

/-- Both layouts of the sample give the same settings, these are valid and are read back, and the
mapping that gives one list twice is refused. -/
theorem ofDocument_roundTrip_sample :
    (ofDocument "mixed" (.mapping Sample.mixed)).result = .ok Sample.settings ∧
      Sample.settings.Valid ∧
      (ofDocument "written" Sample.settings.toDocument).result = .ok Sample.settings ∧
      (ofDocument "changed" (.mapping Sample.changed)).result = .ok Sample.settings ∧
      ∃ fault, fault ≠ .unlistedKeys ∧ (ofDocument "twice"
        (.mapping (("exclude", .texts []) :: Sample.mixed))).result = .error fault := by
  have h : (ofDocument "mixed" (.mapping Sample.mixed)).result = .ok Sample.settings := by
    decide +kernel
  obtain ⟨hvalid, hwritten, hmoved, htwice⟩ := ofDocument_roundTrip h
  obtain ⟨harranged, hothers⟩ := hmoved _ rfl
  have hmoves : Moves Sample.mixed Sample.changed := harranged (· = .select)
  exact ⟨h, hvalid, hwritten _, hothers _ hmoves _, htwice _ _ _ .exclude rfl rfl rfl⟩

end Settings

end CrateAtlas
