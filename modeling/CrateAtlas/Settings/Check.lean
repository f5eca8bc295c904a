import CrateAtlas.Document.Literal
import CrateAtlas.Settings.Basic
import CrateAtlas.Text.Blank

/-!
# Checking settings

Settings are read from a document, given flat or with the patterns under {lit}`filters`,
and checked.  The first fault that is found is reported; a limit that is unusually large
gives a warning and is accepted.
-/

namespace CrateAtlas

/-- Which of the two lists of patterns is meant. -/
inductive PatternList where
  | select
  | exclude
deriving DecidableEq, Repr

/-- The key of a list of patterns. -/
def PatternList.key : PatternList → String
  | select => "include"
  | exclude => "exclude"

/-- Why settings are refused. -/
inductive SettingsError where
  | notMapping (source : String)
  | filtersNotMapping (source : String)
  | unknownFilters (source : String) (keys : List String)
  | givenTwice (source : String) (list : PatternList)
  | unknownKeys (source : String) (keys : List String)
  | notBoolean (source : String) (key : String)
  | patternsAreText (list : PatternList)
  | patternsNotList (list : PatternList)
  | badPattern (list : PatternList) (shown : String)
  | sizeNotInteger
  | sizeNotPositive
  | workersNotInteger
  | workersNotPositive
  | nothingSelected
  | conflicts (patterns : List String)
  | unknownUseCase (name : String)
  | fileNotFound (path : String)
  | fileUnreadable (path detail : String)
  | fileUnparsable (path detail : String)
  | other (detail : String)
  /-- Unknown keys are to be named, and some of them are no texts.  This is no refusal: the
  reading itself fails. -/
  | unlistedKeys
deriving DecidableEq, Repr

/-- What is said in place of the words of a parser, of the operating system or of a failure
that is no refusal. -/
def foreignDetail : String := "<detail>"

/-- Join texts with a comma and a space. -/
def commaJoined (items : List String) : String :=
  String.ofList ([',', ' '].intercalate (items.map String.toList))

namespace SettingsError

/-- The wording of a refusal. -/
def message : SettingsError → String
  | notMapping source => source ++ ": configuration must be a mapping"
  | filtersNotMapping source => source ++ ": 'filters' must be a mapping"
  | unknownFilters source keys => source ++ ": unknown filter keys: " ++ commaJoined keys
  | givenTwice source list => source ++ ": '" ++ list.key ++ "' given both flat and under filters"
  | unknownKeys source keys => source ++ ": unknown configuration keys: " ++ commaJoined keys
  | notBoolean source key => source ++ ": '" ++ key ++ "' must be true or false"
  | patternsAreText list => list.key ++ " must be a list of glob patterns, not a string"
  | patternsNotList list => list.key ++ " must be a list of glob patterns"
  | badPattern list shown => list.key ++ " contains an empty or non-string pattern: " ++ shown
  | sizeNotInteger => "max_file_size must be an integer number of bytes"
  | sizeNotPositive => "max_file_size must be greater than 0"
  | workersNotInteger => "max_workers must be an integer or null"
  | workersNotPositive => "max_workers must be greater than 0 when set"
  | nothingSelected => "At least one include pattern must be specified"
  | conflicts patterns =>
      "Include and exclude patterns cannot be identical: " ++ commaJoined patterns
  | unknownUseCase name => "Unknown use case: " ++ Text.quoted name
  | fileNotFound path => "Config file not found: " ++ path
  | fileUnreadable path detail => "Failed to read config file " ++ path ++ ": " ++ detail
  | fileUnparsable path detail => "Failed to parse config file " ++ path ++ ": " ++ detail
  | other detail => detail
  | unlistedKeys => foreignDetail

end SettingsError

/-- What is noted while settings are read. -/
inductive SettingsWarning where
  | largeFileSize (size : Int)
  | ignored (path : String) (error : SettingsError)
deriving DecidableEq, Repr

/-- The wording of a warning. -/
def SettingsWarning.message : SettingsWarning → String
  | largeFileSize size =>
      s!"max_file_size={size} is above 100MB; very large files may exhaust memory"
  | ignored path error => "Ignoring config " ++ path ++ ": " ++ error.message

/-- The outcome of a check, with the warnings given on the way. -/
structure Verdict where
  result : Except SettingsError Settings
  warnings : List SettingsWarning

namespace Settings

/-! ## Checking values -/

/-- The size above which a limit is unusually large. -/
def largeFileSize : Int := 100 * 1024 * 1024

/-- The warning that a limit on the size gives. -/
def sizeWarnings (size : Int) : List SettingsWarning :=
  if largeFileSize < size then [.largeFileSize size] else []

/-- The patterns that are in both lists, in increasing order and each once. -/
def sharedPatterns (selected excluded : List String) : List String :=
  ((selected.filter fun pattern => excluded.contains pattern).eraseDups).mergeSort
    fun a b => a ≤ b

/-- Check everything but the size: workers, then the patterns. -/
def checkRest (s : Settings) : Except SettingsError Settings :=
  if (match s.maxWorkers with | some n => decide (n ≤ 0) | none => false) then
    .error .workersNotPositive
  else if s.selected.isEmpty then .error .nothingSelected
  else
    match sharedPatterns s.selected s.excluded with
    | [] => .ok s
    | shared => .error (.conflicts shared)

/-- Check settings: the size first, which may give a warning. -/
def check (s : Settings) : Verdict :=
  if s.maxFileSize ≤ 0 then ⟨.error .sizeNotPositive, []⟩
  else ⟨s.checkRest, sizeWarnings s.maxFileSize⟩

/-! ## Reading values -/

/-- Whether a pattern is a text that is not blank. -/
def isPattern : Document → Bool
  | .text pattern => !(Text.trimChars pattern.toList).isEmpty
  | _ => false

/-- The patterns of a list of items. -/
def readItems (list : PatternList) : List Document → Except SettingsError (List String)
  | [] => .ok []
  | item :: rest =>
      match item with
      | .text pattern =>
          if isPattern item then (readItems list rest).map (pattern :: ·)
          else .error (.badPattern list item.literal)
      | _ => .error (.badPattern list item.literal)

/-- The patterns of a document: a list, or the keys of a mapping. -/
def readPatterns (list : PatternList) : Document → Except SettingsError (List String)
  | .text _ => .error (.patternsAreText list)
  | .list items => readItems list items
  | .mapping entries => readItems list (entries.map fun entry => .text entry.1)
  | .mixed front key _ back =>
      readItems list ((front.map fun entry => .text entry.1) ++
        Document.ofOddKey key :: back.map fun entry => Document.ofKey entry.1)
  | _ => .error (.patternsNotList list)

/-- The limit on the size, as an integer. -/
def readSize : Document → Except SettingsError Int
  | .int size => .ok size
  | _ => .error .sizeNotInteger

/-- The number of workers, as an integer or nothing. -/
def readWorkers : Document → Except SettingsError (Option Int)
  | .null => .ok none
  | .int n => .ok (some n)
  | _ => .error .workersNotInteger

/-! ## Reading mappings -/

/-- The entries of the settings, as documents; nothing where the default holds. -/
structure Draft where
  includeDocs : Bool
  includePrivate : Bool
  parseDependencies : Bool
  maxFileSize : Option Document
  selected : Option Document
  excluded : Option Document
  maxWorkers : Option Document

/-- Read a value that may be absent. -/
def orElse (value : Option Document) (absent : α) (read : Document → Except SettingsError α) :
    Except SettingsError α :=
  match value with
  | some document => read document
  | none => .ok absent

/-- The number of workers after the size was accepted, and the rest of the checks. -/
def Draft.finish (draft : Draft) (selected excluded : List String) (size : Int) :
    Except SettingsError Settings := do
  let workers ← orElse draft.maxWorkers Settings.default.maxWorkers readWorkers
  checkRest {
    includeDocs := draft.includeDocs
    includePrivate := draft.includePrivate
    parseDependencies := draft.parseDependencies
    maxFileSize := size
    selected := selected
    excluded := excluded
    maxWorkers := workers }

/-- The patterns and the size of a draft. -/
def Draft.front (draft : Draft) : Except SettingsError (List String × List String × Int) := do
  let selected ← orElse draft.selected Settings.default.selected (readPatterns .select)
  let excluded ← orElse draft.excluded Settings.default.excluded (readPatterns .exclude)
  let size ← orElse draft.maxFileSize Settings.default.maxFileSize readSize
  if size ≤ 0 then .error .sizeNotPositive else return (selected, excluded, size)

/-- Read and check the values of a draft. -/
def Draft.settle (draft : Draft) : Verdict :=
  match draft.front with
  | .error fault => ⟨.error fault, []⟩
  | .ok (selected, excluded, size) => ⟨draft.finish selected excluded size, sizeWarnings size⟩

/-- The keys of the settings. -/
def keys : List String :=
  ["include_docs", "include_private", "parse_dependencies", "max_file_size", "include", "exclude",
    "max_workers"]

/-- Keys outside a list of known ones, in increasing order. -/
def unknownKeys (known : List String) (entries : List (String × Document)) : List String :=
  ((entries.map Prod.fst).filter fun key => !known.contains key).eraseDups.mergeSort
    fun a b => a ≤ b

/-- A list of patterns given flat or under the filters, but not in both places. -/
def patternEntry (source : String) (list : PatternList) (flat filters : List (String × Document)) :
    Except SettingsError (Option Document) :=
  match Document.entry? filters list.key, Document.entry? flat list.key with
  | some _, some _ => .error (.givenTwice source list)
  | some document, none => .ok (some document)
  | none, found => .ok found

/-- The entries under {lit}`filters`. -/
def filterEntries (source : String) (flat : List (String × Document)) :
    Except SettingsError (List (String × Document)) :=
  match Document.entry? flat "filters" with
  | none | some .null => .ok []
  | some (.mapping filters) =>
      match unknownKeys [PatternList.select.key, PatternList.exclude.key] filters with
      | [] => .ok filters
      | unknown => .error (.unknownFilters source unknown)
  | some (.mixed ..) => .error .unlistedKeys
  | some _ => .error (.filtersNotMapping source)

/-- A flag, with its default. -/
def flag (source key : String) (absent : Bool) (flat : List (String × Document)) :
    Except SettingsError Bool :=
  match Document.entry? flat key with
  | none => .ok absent
  | some (.bool value) => .ok value
  | some _ => .error (.notBoolean source key)

/-- The two lists of patterns of a mapping, to select and to exclude. -/
def patternEntries (source : String) (flat : List (String × Document)) :
    Except SettingsError (Option Document × Option Document) := do
  let filters ← filterEntries source flat
  let selected ← patternEntry source .select flat filters
  let excluded ← patternEntry source .exclude flat filters
  return (selected, excluded)

/-- The draft of the entries of a mapping. -/
def Draft.ofEntries (source : String) (flat : List (String × Document)) :
    Except SettingsError Draft := do
  let patterns ← patternEntries source flat
  match unknownKeys ("filters" :: keys) flat with
  | [] =>
      let includeDocs ← flag source "include_docs" Settings.default.includeDocs flat
      let includePrivate ← flag source "include_private" Settings.default.includePrivate flat
      let parseDependencies ←
        flag source "parse_dependencies" Settings.default.parseDependencies flat
      return {
        includeDocs, includePrivate, parseDependencies
        selected := patterns.1
        excluded := patterns.2
        maxFileSize := Document.entry? flat "max_file_size"
        maxWorkers := Document.entry? flat "max_workers" }
  | unknown => .error (.unknownKeys source unknown)

/-- What is wrong with a mapping that has a key that is no text, and in which
{lit}`flat` are the entries whose keys are texts: a fault of the filters or of the patterns,
which are looked at first, or that the keys cannot be listed. -/
def mixedFault (source : String) (flat : List (String × Document)) : SettingsError :=
  match patternEntries source flat with
  | .error fault => fault
  | .ok _ => .unlistedKeys

/-- Read settings from a document; {lit}`source` names it in messages. -/
def ofDocument (source : String) : Document → Verdict
  | .null => ⟨.ok Settings.default, []⟩
  | .mapping flat =>
      match Draft.ofEntries source flat with
      | .ok draft => draft.settle
      | .error fault => ⟨.error fault, []⟩
  | .mixed front _ _ back =>
      ⟨.error (mixedFault source (front ++ Document.textEntries back)), []⟩
  | _ => ⟨.error (.notMapping source), []⟩

/-! ## Merging -/

/-- The value of {lit}`other` where it differs from the default. -/
def prefer [DecidableEq α] (own other absent : α) : α :=
  if other = absent then own else other

/-- These settings with those of {lit}`other` that differ from the defaults. -/
def overlay (s other : Settings) : Settings where
  includeDocs := prefer s.includeDocs other.includeDocs Settings.default.includeDocs
  includePrivate := prefer s.includePrivate other.includePrivate Settings.default.includePrivate
  parseDependencies :=
    prefer s.parseDependencies other.parseDependencies Settings.default.parseDependencies
  maxFileSize := prefer s.maxFileSize other.maxFileSize Settings.default.maxFileSize
  selected := prefer s.selected other.selected Settings.default.selected
  excluded := prefer s.excluded other.excluded Settings.default.excluded
  maxWorkers := prefer s.maxWorkers other.maxWorkers Settings.default.maxWorkers

/-- Merge two settings and check the result. -/
def merge (s other : Settings) : Verdict :=
  (s.overlay other).check

/-! ## Presets -/

/-- What settings are meant for. -/
inductive UseCase where
  | documentation
  | codeAnalysis
  | modelTraining
  | testing
deriving DecidableEq, Repr

/-- The use case with a name. -/
def UseCase.ofName (name : String) : Except SettingsError UseCase :=
  if name = "documentation" then .ok .documentation
  else if name = "code_analysis" then .ok .codeAnalysis
  else if name = "llm_training" then .ok .modelTraining
  else if name = "testing" then .ok .testing
  else .error (.unknownUseCase name)

/-- The settings tuned for a use case. -/
def ofUseCase : UseCase → Settings
  | .documentation =>
      { Settings.default with
        selected := ["src/**/*.rs", "examples/**/*.rs"]
        excluded := ["target/**"] }
  | .codeAnalysis =>
      { Settings.default with
        includePrivate := true
        parseDependencies := true
        selected := ["**/*.rs"]
        excluded := ["target/**"] }
  | .modelTraining =>
      { Settings.default with
        selected := ["src/**/*.rs", "examples/**/*.rs"] }
  | .testing =>
      { Settings.default with
        includeDocs := false
        includePrivate := true
        maxFileSize := 1024 * 1024
        selected := ["tests/**/*.rs", "src/**/*.rs"]
        excluded := ["target/**"] }

end Settings

end CrateAtlas
