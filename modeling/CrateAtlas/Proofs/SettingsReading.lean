import CrateAtlas.Proofs.Outcome
import CrateAtlas.Settings.Check
import Mathlib.Data.List.Dedup
import Mathlib.Data.List.TakeWhile

/-!
# Settings that are read from documents

A document gives settings, which can then drive a run, or it is refused.  Only one thing lets the
reading itself fail: unknown keys are to be named, and some of them are no texts.  Whether it comes to
that can be told from the document, since faults of the filters and patterns that are given twice are
found before.

Main results:

- Theorem {lit}`Draft.settle_eq_ok_iff`: what a draft is read as, and when it is refused.
- Theorem {lit}`Draft.ofEntries_eq_ok_iff`: what a mapping is read as, and when it is refused.
- Theorem {lit}`valid_of_ofDocument`: whatever is read can drive a run.
- Theorem {lit}`ofDocument_unlisted_iff`: the documents on which the reading fails.
-/

namespace CrateAtlas

/-! ## Entries of mappings -/

theorem Document.entry?_eq_none_iff {entries : List (String × Document)} {key : String} :
    Document.entry? entries key = none ↔ ∀ entry ∈ entries, entry.1 ≠ key := by
  simp [Document.entry?]

theorem Document.entry?_of_mem {entries : List (String × Document)}
    {entry : String × Document} (h : entry ∈ entries) :
    ∃ document, Document.entry? entries entry.1 = some document := by
  cases hfound : Document.entry? entries entry.1 with
  | none => exact absurd rfl (entry?_eq_none_iff.mp hfound entry h)
  | some document => exact ⟨document, rfl⟩

theorem PatternList.key_inj {list list' : PatternList} : list.key = list'.key ↔ list = list' := by
  cases list <;> cases list' <;> decide

namespace Settings

theorem unknownKeys_eq_nil_iff {known : List String} {entries : List (String × Document)} :
    unknownKeys known entries = [] ↔ ∀ entry ∈ entries, entry.1 ∈ known := by
  simp only [unknownKeys, List.eq_nil_iff_forall_not_mem, List.mem_mergeSort, List.mem_eraseDups,
    List.mem_filter, List.mem_map, List.contains_eq_mem]
  constructor
  · intro h entry hentry
    by_contra hknown
    exact h entry.1 ⟨⟨entry, hentry, rfl⟩, by simpa using hknown⟩
  · rintro h key ⟨⟨entry, hentry, rfl⟩, hunknown⟩
    have hknown := h entry hentry
    simp [hknown] at hunknown

/-! ## Patterns -/

/-- Nothing is left of a text without the blanks around it exactly if it is blank. -/
theorem trimChars_eq_nil_iff {cs : List Char} :
    Text.trimChars cs = [] ↔ ∀ c ∈ cs, Text.isBlank c = true := by
  rw [Text.trimChars, Text.trimEndChars, Text.trimStartChars, List.reverse_eq_nil_iff,
    List.dropWhile_eq_nil_iff]
  constructor
  · intro h c hc
    rw [← List.takeWhile_append_dropWhile (p := Text.isBlank) (l := cs)] at hc
    rcases List.mem_append.mp hc with hc | hc
    · exact List.mem_takeWhile_imp hc
    · exact h c (List.mem_reverse.mpr hc)
  · intro h c hc
    exact h c ((List.dropWhile_sublist _).subset (List.mem_reverse.mp hc))

/-- A text with a character that is not blank. -/
def NotBlank (text : String) : Prop :=
  ∃ c ∈ text.toList, Text.isBlank c = false

instance (text : String) : Decidable (NotBlank text) :=
  decidable_of_iff ((text.toList.any fun c => !Text.isBlank c) = true) (by simp [NotBlank])

theorem isPattern_text_iff {pattern : String} :
    isPattern (.text pattern) = true ↔ NotBlank pattern := by
  simp [isPattern, NotBlank, trimChars_eq_nil_iff]

variable {list : PatternList} {items : List Document} {patterns : List String}
  {document : Document}

/-- A list is read as patterns if it holds texts that are not blank, and nothing else. -/
theorem readItems_eq_ok_iff :
    readItems list items = .ok patterns ↔
      items = patterns.map .text ∧ ∀ pattern ∈ patterns, NotBlank pattern := by
  induction items generalizing patterns with
  | nil =>
      cases patterns with
      | nil => simp [readItems]
      | cons pattern rest => simp [readItems]
  | cons item rest ih =>
      cases item with
      | text pattern =>
          by_cases hpattern : NotBlank pattern
          · rw [readItems, if_pos (isPattern_text_iff.mpr hpattern), Outcome.map_eq_ok_iff]
            constructor
            · rintro ⟨later, hlater, rfl⟩
              obtain ⟨rfl, hall⟩ := ih.mp hlater
              exact ⟨rfl, by simpa [hpattern] using hall⟩
            · rintro ⟨hitems, hall⟩
              obtain ⟨later, rfl⟩ : ∃ later, patterns = pattern :: later := by
                cases patterns with
                | nil => simp at hitems
                | cons first later => exact ⟨later, by simp_all⟩
              refine ⟨later, ih.mpr ⟨by simpa using hitems, ?_⟩, rfl⟩
              exact fun other hother => hall other (List.mem_cons_of_mem _ hother)
          · rw [readItems, if_neg (fun h => hpattern (isPattern_text_iff.mp h))]
            constructor
            · intro h
              cases h
            · rintro ⟨hitems, hall⟩
              cases patterns with
              | nil => simp at hitems
              | cons first later => simp_all
      | _ =>
          constructor
          · intro h
            cases h
          · rintro ⟨hitems, -⟩
            cases patterns with
            | nil => simp at hitems
            | cons first later => simp at hitems

/-- Patterns are not blank, whatever they are read from. -/
theorem notBlank_of_readPatterns (h : readPatterns list document = .ok patterns) :
    ∀ pattern ∈ patterns, NotBlank pattern := by
  cases document with
  | list items => exact (readItems_eq_ok_iff.mp h).2
  | mapping entries => exact (readItems_eq_ok_iff.mp h).2
  | mixed front key value back => exact (readItems_eq_ok_iff.mp h).2
  | _ => cases h

theorem readPatterns_texts (h : ∀ pattern ∈ patterns, NotBlank pattern) :
    readPatterns list (.texts patterns) = .ok patterns :=
  readItems_eq_ok_iff.mpr ⟨rfl, h⟩

/-! ## Valid settings -/

/-- Settings that can drive a run. -/
structure Valid (s : Settings) : Prop where
  selected_ne_nil : s.selected ≠ []
  notBlank : ∀ pattern ∈ s.selected ++ s.excluded, NotBlank pattern
  disjoint : s.selected.Disjoint s.excluded
  size_pos : 1 ≤ s.maxFileSize
  workers_pos : ∀ n, s.maxWorkers = some n → 1 ≤ n

theorem notBlank_default :
    ∀ pattern ∈ Settings.default.selected ++ Settings.default.excluded, NotBlank pattern := by
  decide

theorem valid_default : Settings.default.Valid where
  selected_ne_nil := by decide
  notBlank := notBlank_default
  disjoint := by simp [Settings.default]
  size_pos := by decide
  workers_pos := by
    intro n h
    cases h

theorem sharedPatterns_eq_nil_iff {selected excluded : List String} :
    sharedPatterns selected excluded = [] ↔ selected.Disjoint excluded := by
  simp only [sharedPatterns, List.eq_nil_iff_forall_not_mem, List.mem_mergeSort,
    List.mem_eraseDups, List.mem_filter, List.contains_eq_mem, decide_eq_true_eq, not_and,
    List.Disjoint]

theorem checkRest_eq_ok_iff {s t : Settings} :
    s.checkRest = .ok t ↔
      s = t ∧ (∀ n, s.maxWorkers = some n → 1 ≤ n) ∧ s.selected ≠ [] ∧
        s.selected.Disjoint s.excluded := by
  constructor
  · intro h
    unfold checkRest at h
    split_ifs at h with hworkers hselected
    cases hshared : sharedPatterns s.selected s.excluded with
    | nil =>
        rw [hshared] at h
        cases h
        refine ⟨rfl, ?_, by simpa using hselected, sharedPatterns_eq_nil_iff.mp hshared⟩
        intro n hn
        have hpos : 0 < n := by simpa [hn] using hworkers
        omega
    | cons pattern later =>
        rw [hshared] at h
        cases h
  · rintro ⟨rfl, hworkers, hselected, hdisjoint⟩
    unfold checkRest
    rw [if_neg, if_neg (by simpa using hselected), sharedPatterns_eq_nil_iff.mpr hdisjoint]
    cases hmax : s.maxWorkers with
    | none => simp
    | some n =>
        have hpos := hworkers n hmax
        simp only [decide_eq_true_eq]
        omega

/-! ## Drafts -/

theorem orElse_notBlank {value : Option Document} {absent : List String}
    (habsent : ∀ pattern ∈ absent, NotBlank pattern)
    (h : orElse value absent (readPatterns list) = .ok patterns) :
    ∀ pattern ∈ patterns, NotBlank pattern := by
  cases value with
  | none =>
      cases h
      exact habsent
  | some document => exact notBlank_of_readPatterns h

/-- What a draft gives, value by value. -/
structure Draft.Gives (draft : Draft) (s : Settings) : Prop where
  includeDocs : draft.includeDocs = s.includeDocs
  includePrivate : draft.includePrivate = s.includePrivate
  parseDependencies : draft.parseDependencies = s.parseDependencies
  maxFileSize : orElse draft.maxFileSize Settings.default.maxFileSize readSize = .ok s.maxFileSize
  selected : orElse draft.selected Settings.default.selected (readPatterns .select) =
    .ok s.selected
  excluded : orElse draft.excluded Settings.default.excluded (readPatterns .exclude) =
    .ok s.excluded
  maxWorkers : orElse draft.maxWorkers Settings.default.maxWorkers readWorkers = .ok s.maxWorkers

theorem Draft.Gives.notBlank {draft : Draft} {s : Settings} (h : draft.Gives s) :
    ∀ pattern ∈ s.selected ++ s.excluded, NotBlank pattern := by
  have hselected := orElse_notBlank
    (fun pattern hpattern => notBlank_default pattern (List.mem_append_left _ hpattern)) h.selected
  have hexcluded := orElse_notBlank
    (fun pattern hpattern => notBlank_default pattern (List.mem_append_right _ hpattern)) h.excluded
  intro pattern hpattern
  rcases List.mem_append.mp hpattern with hpattern | hpattern
  · exact hselected pattern hpattern
  · exact hexcluded pattern hpattern

theorem Draft.front_eq_ok_iff {draft : Draft} {selected excluded : List String} {size : Int} :
    draft.front = .ok (selected, excluded, size) ↔
      orElse draft.selected Settings.default.selected (readPatterns .select) = .ok selected ∧
      orElse draft.excluded Settings.default.excluded (readPatterns .exclude) = .ok excluded ∧
      orElse draft.maxFileSize Settings.default.maxFileSize readSize = .ok size ∧ 1 ≤ size := by
  simp only [front, Outcome.bind_eq_ok_iff]
  constructor
  · rintro ⟨selected', hselected, excluded', hexcluded, size', hsize, h⟩
    split at h
    · cases h
    · cases h
      exact ⟨hselected, hexcluded, hsize, by omega⟩
  · rintro ⟨hselected, hexcluded, hsize, hpos⟩
    refine ⟨selected, hselected, excluded, hexcluded, size, hsize, ?_⟩
    rw [if_neg (by omega)]
    rfl

theorem Draft.finish_eq_ok_iff {draft : Draft} {selected excluded : List String} {size : Int}
    {s : Settings} :
    draft.finish selected excluded size = .ok s ↔
      orElse draft.maxWorkers Settings.default.maxWorkers readWorkers = .ok s.maxWorkers ∧
      s = ⟨draft.includeDocs, draft.includePrivate, draft.parseDependencies, size, selected,
        excluded, s.maxWorkers⟩ ∧
      (∀ n, s.maxWorkers = some n → 1 ≤ n) ∧ selected ≠ [] ∧ selected.Disjoint excluded := by
  simp only [finish, Outcome.bind_eq_ok_iff, checkRest_eq_ok_iff]
  constructor
  · rintro ⟨workers, hworkers, rfl, hpos, hne, hdisjoint⟩
    exact ⟨hworkers, rfl, hpos, hne, hdisjoint⟩
  · rintro ⟨hworkers, hs, hpos, hne, hdisjoint⟩
    exact ⟨s.maxWorkers, hworkers, hs.symm, hpos, hne, hdisjoint⟩

/-- A draft is read as the settings that it gives, if these are valid, and otherwise refused. -/
theorem Draft.settle_eq_ok_iff {draft : Draft} {s : Settings} :
    draft.settle.result = .ok s ↔ draft.Gives s ∧ s.Valid := by
  constructor
  · intro h
    unfold settle at h
    split at h
    · cases h
    · rename_i selected excluded size hfront
      obtain ⟨hselected, hexcluded, hsize, hpos⟩ := front_eq_ok_iff.mp hfront
      obtain ⟨hworkers, hs, hworkersPos, hne, hdisjoint⟩ := finish_eq_ok_iff.mp h
      have hgives : draft.Gives s := by
        rw [hs]
        exact ⟨rfl, rfl, rfl, hsize, hselected, hexcluded, hworkers⟩
      refine ⟨hgives, ?_⟩
      have hblank := hgives.notBlank
      rw [hs] at hblank ⊢
      exact ⟨hne, hblank, hdisjoint, hpos, hworkersPos⟩
  · rintro ⟨hgives, hvalid⟩
    have hfront : draft.front = .ok (s.selected, s.excluded, s.maxFileSize) :=
      front_eq_ok_iff.mpr ⟨hgives.selected, hgives.excluded, hgives.maxFileSize, hvalid.size_pos⟩
    rw [settle, hfront]
    refine finish_eq_ok_iff.mpr ⟨hgives.maxWorkers, ?_, hvalid.workers_pos,
      hvalid.selected_ne_nil, hvalid.disjoint⟩
    rw [hgives.includeDocs, hgives.includePrivate, hgives.parseDependencies]

/-! ## Mappings -/

/-- The entries under {lit}`filters`; there are none where nothing is said about them. -/
def nested? (entries : List (String × Document)) : Option (List (String × Document)) :=
  match Document.entry? entries "filters" with
  | none | some .null => some []
  | some (.mapping filters) => some filters
  | some _ => none

variable {source : String} {flat filters : List (String × Document)}

theorem mem_filterKeys_iff {key : String} :
    key ∈ [PatternList.select.key, PatternList.exclude.key] ↔
      ∃ list : PatternList, list.key = key := by
  constructor
  · intro h
    rcases List.mem_pair.mp h with h | h
    · exact ⟨.select, h.symm⟩
    · exact ⟨.exclude, h.symm⟩
  · rintro ⟨list, rfl⟩
    cases list <;> simp

theorem filterEntries_eq_ok_iff :
    filterEntries source flat = .ok filters ↔
      nested? flat = some filters ∧
        ∀ entry ∈ filters, ∃ list : PatternList, list.key = entry.1 := by
  simp only [← mem_filterKeys_iff, ← unknownKeys_eq_nil_iff]
  have hnil : unknownKeys [PatternList.select.key, PatternList.exclude.key] [] = [] :=
    unknownKeys_eq_nil_iff.mpr (by simp)
  unfold filterEntries nested?
  cases Document.entry? flat "filters" with
  | none =>
      constructor
      · rintro ⟨⟩
        exact ⟨rfl, hnil⟩
      · rintro ⟨⟨⟩, -⟩
        rfl
  | some found =>
      cases found with
      | null =>
          constructor
          · rintro ⟨⟩
            exact ⟨rfl, hnil⟩
          · rintro ⟨⟨⟩, -⟩
            rfl
      | mapping entries =>
          simp only [Option.some.injEq]
          constructor
          · intro h
            split at h
            · rename_i hknown
              cases h
              exact ⟨rfl, hknown⟩
            · cases h
          · rintro ⟨rfl, hknown⟩
            rw [hknown]
      | _ => simp

/-- Patterns are taken from where they stand, unless they stand in both places. -/
theorem patternEntry_eq_ok_iff {found : Option Document} :
    patternEntry source list flat filters = .ok found ↔
      (Document.entry? flat list.key = none ∨ Document.entry? filters list.key = none) ∧
        found = (Document.entry? filters list.key).or (Document.entry? flat list.key) := by
  unfold patternEntry
  cases Document.entry? filters list.key with
  | none => simp [eq_comm]
  | some nested =>
      cases Document.entry? flat list.key with
      | none => simp [eq_comm]
      | some own => simp

/-- Both lists of patterns of a mapping are taken from somewhere. -/
theorem patternEntries_eq_ok_iff {patterns : Option Document × Option Document} :
    patternEntries source flat = .ok patterns ↔
      ∃ filters, filterEntries source flat = .ok filters ∧
        patternEntry source .select flat filters = .ok patterns.1 ∧
        patternEntry source .exclude flat filters = .ok patterns.2 := by
  obtain ⟨selected, excluded⟩ := patterns
  simp only [patternEntries, Outcome.bind_eq_ok_iff, Outcome.pure_eq_ok_iff, Prod.mk.injEq]
  constructor
  · rintro ⟨filters, hfilters, _, hselected, _, hexcluded, rfl, rfl⟩
    exact ⟨filters, hfilters, hselected, hexcluded⟩
  · rintro ⟨filters, hfilters, hselected, hexcluded⟩
    exact ⟨filters, hfilters, selected, hselected, excluded, hexcluded, rfl, rfl⟩

theorem Draft.ofEntries_eq_ok_iff {draft : Draft} :
    Draft.ofEntries source flat = .ok draft ↔
      (∃ filters, filterEntries source flat = .ok filters ∧
        patternEntry source .select flat filters = .ok draft.selected ∧
        patternEntry source .exclude flat filters = .ok draft.excluded) ∧
      (∀ entry ∈ flat, entry.1 ∈ "filters" :: keys) ∧
      flag source "include_docs" Settings.default.includeDocs flat = .ok draft.includeDocs ∧
      flag source "include_private" Settings.default.includePrivate flat =
        .ok draft.includePrivate ∧
      flag source "parse_dependencies" Settings.default.parseDependencies flat =
        .ok draft.parseDependencies ∧
      Document.entry? flat "max_file_size" = draft.maxFileSize ∧
      Document.entry? flat "max_workers" = draft.maxWorkers := by
  simp only [← unknownKeys_eq_nil_iff, ofEntries, Outcome.bind_eq_ok_iff]
  constructor
  · rintro ⟨patterns, hpatterns, h⟩
    split at h
    · rename_i hknown
      simp only [Outcome.bind_eq_ok_iff, Outcome.pure_eq_ok_iff] at h
      obtain ⟨docs, hdocs, priv, hpriv, deps, hdeps, rfl⟩ := h
      exact ⟨patternEntries_eq_ok_iff.mp hpatterns, hknown, hdocs, hpriv, hdeps, rfl, rfl⟩
    · cases h
  · rintro ⟨hpatterns, hknown, hdocs, hpriv, hdeps, hsize, hworkers⟩
    refine ⟨(draft.selected, draft.excluded), patternEntries_eq_ok_iff.mpr hpatterns, ?_⟩
    rw [hknown]
    simp only [Outcome.bind_eq_ok_iff, Outcome.pure_eq_ok_iff]
    refine ⟨_, hdocs, _, hpriv, _, hdeps, ?_⟩
    rw [hsize, hworkers]

theorem ofDocument_mapping_eq_ok_iff {s : Settings} :
    (ofDocument source (.mapping flat)).result = .ok s ↔
      ∃ draft, Draft.ofEntries source flat = .ok draft ∧ draft.Gives s ∧ s.Valid := by
  simp only [ofDocument, ← Draft.settle_eq_ok_iff]
  cases Draft.ofEntries source flat with
  | ok draft => simp
  | error fault => simp

/-- Whatever is read from a document can drive a run. -/
theorem valid_of_ofDocument {payload : Document} {s : Settings}
    (h : (ofDocument source payload).result = .ok s) : s.Valid := by
  cases payload with
  | null =>
      cases h
      exact valid_default
  | mapping flat =>
      obtain ⟨draft, -, -, hvalid⟩ := ofDocument_mapping_eq_ok_iff.mp h
      exact hvalid
  | _ => cases h

/-! ## Readings that fail -/

section

variable {α β : Type}

/-- An outcome that is a value or a refusal. -/
def Definite (outcome : Except SettingsError α) : Prop :=
  outcome ≠ .error .unlistedKeys

theorem definite_ok (a : α) : Definite (.ok a) := by
  intro h
  cases h

theorem definite_error {fault : SettingsError} (h : fault ≠ .unlistedKeys) :
    Definite (.error fault : Except SettingsError α) := by
  intro heq
  exact h (Except.error.inj heq)

theorem Definite.bind {x : Except SettingsError α} {f : α → Except SettingsError β}
    (hx : Definite x) (hf : ∀ a, Definite (f a)) : Definite (x >>= f) := by
  intro h
  rcases Outcome.bind_eq_error_iff.mp h with hfails | ⟨a, -, hfails⟩
  · exact hx hfails
  · exact hf a hfails

theorem definite_orElse {value : Option Document} {absent : α}
    {read : Document → Except SettingsError α} (h : ∀ document, Definite (read document)) :
    Definite (orElse value absent read) := by
  cases value with
  | none => exact definite_ok absent
  | some document => exact h document

end

theorem definite_readItems (list : PatternList) (items : List Document) :
    Definite (readItems list items) := by
  induction items with
  | nil => exact definite_ok []
  | cons item rest ih =>
      cases item with
      | text pattern =>
          rw [readItems]
          split
          · intro h
            exact ih (Outcome.map_eq_error_iff.mp h)
          · exact definite_error (by simp)
      | _ => exact definite_error (by simp)

theorem definite_readPatterns (list : PatternList) (document : Document) :
    Definite (readPatterns list document) := by
  cases document with
  | list items => exact definite_readItems list items
  | mapping entries => exact definite_readItems list _
  | mixed front key value back => exact definite_readItems list _
  | _ => exact definite_error (by simp)

theorem definite_checkRest (s : Settings) : Definite s.checkRest := by
  unfold checkRest
  split_ifs
  · exact definite_error (by simp)
  · exact definite_error (by simp)
  · split
    · exact definite_ok s
    · exact definite_error (by simp)

theorem Draft.definite_front (draft : Draft) : Definite draft.front := by
  refine (definite_orElse (definite_readPatterns .select)).bind fun selected => ?_
  refine (definite_orElse (definite_readPatterns .exclude)).bind fun excluded => ?_
  refine (definite_orElse fun document => ?_).bind fun size => ?_
  · cases document with
    | int size => exact definite_ok size
    | _ => exact definite_error (by simp)
  · split
    · exact definite_error (by simp)
    · exact definite_ok _

theorem Draft.definite_finish (draft : Draft) (selected excluded : List String) (size : Int) :
    Definite (draft.finish selected excluded size) := by
  refine (definite_orElse fun document => ?_).bind fun workers => definite_checkRest _
  cases document with
  | null => exact definite_ok none
  | int n => exact definite_ok (some n)
  | _ => exact definite_error (by simp)

/-- A draft is read or refused. -/
theorem Draft.definite_settle (draft : Draft) : Definite draft.settle.result := by
  unfold settle
  split
  next fault hfront =>
    have hdefinite := draft.definite_front
    rw [hfront] at hdefinite
    exact definite_error fun heq => hdefinite (congrArg Except.error heq)
  next => exact draft.definite_finish _ _ _

theorem definite_patternEntry (source : String) (list : PatternList)
    (flat filters : List (String × Document)) :
    Definite (patternEntry source list flat filters) := by
  unfold patternEntry
  split
  · exact definite_error (by simp)
  · exact definite_ok _
  · exact definite_ok _

theorem definite_flag (source key : String) (absent : Bool) (flat : List (String × Document)) :
    Definite (flag source key absent flat) := by
  unfold flag
  split
  · exact definite_ok absent
  · exact definite_ok _
  · exact definite_error (by simp)

/-- Whether the filters of a mapping have a key that is no text. -/
def oddFilters (flat : List (String × Document)) : Bool :=
  match Document.entry? flat "filters" with
  | some (.mixed ..) => true
  | _ => false

/-- Whether it can be told where the patterns of a mapping stand: its filters, if there are any, are a
mapping with known keys, and no list is given twice. -/
def patternsTold (flat : List (String × Document)) : Bool :=
  match nested? flat with
  | some filters =>
      (filters.all fun entry => ["include", "exclude"].contains entry.1) &&
        ["include", "exclude"].all fun key =>
          (Document.entry? flat key).isNone || (Document.entry? filters key).isNone
  | none => false

/-- Whether a document has unknown keys that are to be named and cannot be. -/
def unlisted : Document → Bool
  | .mapping flat => oddFilters flat
  | .mixed front _ _ back =>
      let flat := front ++ Document.textEntries back
      oddFilters flat || patternsTold flat
  | _ => false

theorem oddFilters_eq_false {nested : List (String × Document)} (h : nested? flat = some nested) :
    oddFilters flat = false := by
  unfold nested? at h
  unfold oddFilters
  split at h <;> simp_all

theorem filterEntries_unlisted_iff :
    filterEntries source flat = .error .unlistedKeys ↔ oddFilters flat = true := by
  unfold filterEntries oddFilters
  cases Document.entry? flat "filters" with
  | none => simp
  | some found =>
      cases found with
      | mapping filters =>
          simp only
          split <;> simp
      | _ => simp

theorem patternEntries_unlisted_iff :
    patternEntries source flat = .error .unlistedKeys ↔ oddFilters flat = true := by
  rw [← @filterEntries_unlisted_iff source, patternEntries, Outcome.bind_eq_error_iff]
  constructor
  · rintro (hfilters | ⟨filters, -, hrest⟩)
    · exact hfilters
    · refine absurd hrest ?_
      refine (definite_patternEntry _ _ _ _).bind fun selected => ?_
      exact (definite_patternEntry _ _ _ _).bind fun excluded => definite_ok _
  · exact .inl

theorem Draft.ofEntries_unlisted_iff :
    Draft.ofEntries source flat = .error .unlistedKeys ↔ oddFilters flat = true := by
  rw [← @patternEntries_unlisted_iff source, Draft.ofEntries, Outcome.bind_eq_error_iff]
  constructor
  · rintro (hpatterns | ⟨patterns, -, hrest⟩)
    · exact hpatterns
    · refine absurd hrest ?_
      split
      · refine (definite_flag _ _ _ _).bind fun docs => ?_
        refine (definite_flag _ _ _ _).bind fun priv => ?_
        exact (definite_flag _ _ _ _).bind fun deps => definite_ok _
      · exact definite_error (by simp)
  · exact .inl

/-- It can be told where the patterns stand if both lists are taken from somewhere. -/
theorem patternsTold_iff :
    patternsTold flat = true ↔ ∃ patterns, patternEntries source flat = .ok patterns := by
  simp only [patternEntries_eq_ok_iff, filterEntries_eq_ok_iff, patternEntry_eq_ok_iff,
    ← mem_filterKeys_iff, Prod.exists]
  unfold patternsTold
  cases nested? flat with
  | none => simp
  | some filters => simp [PatternList.key, and_assoc]

/-- The keys of a mapping that has one that is no text cannot be listed, unless there is a refusal
before. -/
theorem mixedFault_unlisted_iff :
    mixedFault source flat = .unlistedKeys ↔ (oddFilters flat || patternsTold flat) = true := by
  rw [Bool.or_eq_true, ← @patternEntries_unlisted_iff source, @patternsTold_iff source, mixedFault]
  cases patternEntries source flat <;> simp

/-- The documents on which the reading fails. -/
theorem ofDocument_unlisted_iff {payload : Document} :
    (ofDocument source payload).result = .error .unlistedKeys ↔ unlisted payload = true := by
  cases payload with
  | mapping flat =>
      rw [unlisted, ← @Draft.ofEntries_unlisted_iff source, ofDocument]
      cases hdraft : Draft.ofEntries source flat with
      | ok draft =>
          simp only [reduceCtorEq, iff_false]
          exact Draft.definite_settle draft
      | error fault => simp
  | mixed front key value back =>
      rw [unlisted, ← @mixedFault_unlisted_iff source, ofDocument]
      simp
  | _ => simp [ofDocument, unlisted]

end Settings

end CrateAtlas
