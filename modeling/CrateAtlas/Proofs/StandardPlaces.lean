import CrateAtlas.Proofs.SettingsLayout
import CrateAtlas.Settings.Load

/-!
# Settings in the standard places

The standard places are tried one after the other.  A place where there is no file, or a file that
is refused, is passed over, and the first file that loads gives the settings; if there is none, the
defaults hold.  Four things end the search on the way: a name that is too long to be looked up, a file
whose bytes are not UTF-8, one at which the parser breaks off, and unknown keys that are no texts.

Main results:

- Theorem {lit}`candidate_cases`: what a place can do to a search.
- Theorem {lit}`loadFirst_append`: places that are passed over leave their notes and nothing else.
- Theorem {lit}`loadFirst_standardPlaces`: which settings a search finds, and when it finds any.
- Theorem {lit}`loadFirst_undecodable`: a file that is not UTF-8 ends a search without settings.
-/

namespace CrateAtlas.Settings

variable {top : FileTree} {here : List String} {path : String} {paths front : List String}
  {s : Settings} {warnings : List SettingsWarning} {content : FileContent}

/-! ## Candidates -/

/-- Whether the file at a path gives settings. -/
def usable (top : FileTree) (here : List String) (path : String) : Bool :=
  (load top here path).result.isOk

/-- Whether what is found at a path ends the search: the name is too long, the bytes of the file are
not UTF-8, its parser breaks off, or its unknown keys cannot be named. -/
def isObstacle : Except PathError FileContent → Bool
  | .error error => error == .nameTooLong
  | .ok content =>
      !(Text.Utf8.decode content.bytes).isOk || content.breaksOff || content.document.any unlisted

/-- Whether a path ends the search. -/
def obstructs (top : FileTree) (here : List String) (path : String) : Bool :=
  isObstacle (top.fileFrom here (PosixPath.tidy path))

/-- A path is passed over, and this is noted about it: there is no file, or a file that is
refused. -/
inductive PassedOver (top : FileTree) (here : List String) (path : String) :
    List SettingsWarning → Prop where
  | absent {error : PathError} (file_eq : top.fileFrom here (PosixPath.tidy path) = .error error)
      (error_ne : error ≠ .nameTooLong) : PassedOver top here path []
  | refused {content : FileContent} {fault : SettingsError} {warnings : List SettingsWarning}
      (file_eq : top.fileFrom here (PosixPath.tidy path) = .ok content)
      (load_eq : load top here path = ⟨.error (.refused fault), warnings⟩) :
      PassedOver top here path (warnings ++ [.ignored (PosixPath.tidy path) fault])

theorem not_usable_of_absent {error : PathError}
    (h : top.fileFrom here (PosixPath.tidy path) = .error error) : usable top here path = false := by
  delta usable load
  simp only [h]
  cases error <;> rfl

/-- Loading a file whose bytes are UTF-8 and at which the parser does not break off. -/
theorem load_of_decode {text : String}
    (hfile : top.fileFrom here (PosixPath.tidy path) = .ok content)
    (hdecode : Text.Utf8.decode content.bytes = .ok text) (hwhole : content.breaksOff = false) :
    load top here path =
      match content.document with
      | none => ⟨.error (.refused (.fileUnparsable (PosixPath.tidy path) foreignDetail)), []⟩
      | some document => (ofDocument (PosixPath.tidy path) document).loaded := by
  delta load
  cases hdocument : content.document <;>
    simp only [hfile, hdecode, hwhole, hdocument, Bool.false_eq_true, if_false]

/-- A fault is a refusal unless the reading failed. -/
theorem ofFault_cases (fault : SettingsError) :
    (fault = .unlistedKeys ∧ LoadError.ofFault fault = .unlistedKeys) ∨
      (fault ≠ .unlistedKeys ∧ LoadError.ofFault fault = .refused fault) := by
  cases fault <;> simp [LoadError.ofFault]

/-- A file that is an obstacle gives no settings, and is not refused either. -/
theorem load_of_obstacle (hfile : top.fileFrom here (PosixPath.tidy path) = .ok content)
    (h : isObstacle (.ok content) = true) :
    ∃ error, (load top here path).result = .error error ∧ ∀ fault, error ≠ .refused fault := by
  cases hdecode : Text.Utf8.decode content.bytes with
  | error refusal =>
      refine ⟨.undecodable refusal, ?_, by simp⟩
      delta load
      simp only [hfile, hdecode]
  | ok text =>
      cases hbreaks : content.breaksOff with
      | true =>
          refine ⟨.parserFailed, ?_, by simp⟩
          delta load
          simp only [hfile, hdecode, hbreaks, if_true]
      | false =>
          rw [load_of_decode hfile hdecode hbreaks]
          simp only [isObstacle, hdecode, hbreaks] at h
          cases hdocument : content.document with
          | none =>
              rw [hdocument] at h
              cases h
          | some document =>
              have hunlisted : unlisted document = true := by
                rw [hdocument] at h
                exact h
              refine ⟨.unlistedKeys, ?_, by simp⟩
              simp only [Verdict.loaded, ofDocument_unlisted_iff.mpr hunlisted]
              rfl

/-- Any other file gives settings or is refused. -/
theorem load_of_clear (hfile : top.fileFrom here (PosixPath.tidy path) = .ok content)
    (h : isObstacle (.ok content) = false) :
    (∃ s, (load top here path).result = .ok s) ∨
      ∃ fault, (load top here path).result = .error (.refused fault) := by
  simp only [isObstacle, Bool.or_eq_false_iff, Bool.not_eq_false'] at h
  obtain ⟨⟨hdecodes, hwhole⟩, hlisted⟩ := h
  cases hdecode : Text.Utf8.decode content.bytes with
  | error refusal =>
      rw [hdecode] at hdecodes
      cases hdecodes
  | ok text =>
      rw [load_of_decode hfile hdecode hwhole]
      cases hdocument : content.document with
      | none => exact .inr ⟨_, rfl⟩
      | some document =>
          rw [hdocument] at hlisted
          simp only [Verdict.loaded]
          cases hresult : (ofDocument (PosixPath.tidy path) document).result with
          | ok s => exact .inl ⟨s, rfl⟩
          | error fault =>
              rcases ofFault_cases fault with ⟨rfl, -⟩ | ⟨-, hrefused⟩
              · rw [ofDocument_unlisted_iff] at hresult
                exact absurd hlisted (by simp [hresult])
              · exact .inr ⟨fault, congrArg Except.error hrefused⟩

/-- What loads is a file with a document from which valid settings are read. -/
theorem exists_of_load_eq_ok (h : load top here path = ⟨.ok s, warnings⟩) :
    ∃ content document, top.fileFrom here (PosixPath.tidy path) = .ok content ∧
      isObstacle (.ok content) = false ∧ content.document = some document ∧
      (ofDocument (PosixPath.tidy path) document).result = .ok s := by
  cases hfile : top.fileFrom here (PosixPath.tidy path) with
  | error error =>
      have husable := not_usable_of_absent hfile
      rw [usable, h] at husable
      cases husable
  | ok content =>
      cases hobstacle : isObstacle (.ok content) with
      | true =>
          obtain ⟨error, herror, -⟩ := load_of_obstacle hfile hobstacle
          rw [h] at herror
          cases herror
      | false =>
          have hclear := hobstacle
          simp only [isObstacle, Bool.or_eq_false_iff, Bool.not_eq_false'] at hclear
          obtain ⟨⟨hdecodes, hwhole⟩, -⟩ := hclear
          cases hdecode : Text.Utf8.decode content.bytes with
          | error refusal =>
              rw [hdecode] at hdecodes
              cases hdecodes
          | ok text =>
              rw [load_of_decode hfile hdecode hwhole] at h
              cases hdocument : content.document with
              | none =>
                  rw [hdocument] at h
                  cases h
              | some document =>
                  rw [hdocument] at h
                  have hresult :
                      (ofDocument (PosixPath.tidy path) document).loaded.result = .ok s := by
                    simp only at h
                    rw [h]
                  exact ⟨content, document, rfl, hobstacle, hdocument,
                    Outcome.mapError_eq_ok_iff.mp hresult⟩

/-- A path is passed over, gives settings, or ends the search. -/
theorem candidate_cases (top : FileTree) (here : List String) (path : String) :
    (∃ notes, PassedOver top here path notes) ∨
      (∃ s warnings, load top here path = ⟨.ok s, warnings⟩) ∨ obstructs top here path = true := by
  cases hfile : top.fileFrom here (PosixPath.tidy path) with
  | error error =>
      by_cases herror : error = .nameTooLong
      · exact .inr (.inr (by rw [obstructs, hfile, herror]; rfl))
      · exact .inl ⟨[], .absent hfile herror⟩
  | ok content =>
      cases hobstacle : isObstacle (.ok content) with
      | true => exact .inr (.inr (by rw [obstructs, hfile, hobstacle]))
      | false =>
          rcases load_of_clear hfile hobstacle with ⟨s, hload⟩ | ⟨fault, hload⟩
          · exact .inr (.inl ⟨s, (load top here path).warnings, by rw [← hload]⟩)
          · exact .inl ⟨_, .refused hfile (by rw [← hload])⟩

theorem not_obstructs_of_load (h : load top here path = ⟨.ok s, warnings⟩) :
    obstructs top here path = false := by
  obtain ⟨content, document, hfile, hclear, -, -⟩ := exists_of_load_eq_ok h
  rw [obstructs, hfile, hclear]

theorem PassedOver.not_usable {notes : List SettingsWarning}
    (h : PassedOver top here path notes) : usable top here path = false := by
  cases h with
  | absent file_eq error_ne => exact not_usable_of_absent file_eq
  | refused file_eq load_eq =>
      rw [usable, load_eq]
      rfl

theorem PassedOver.not_obstructs {notes : List SettingsWarning}
    (h : PassedOver top here path notes) : obstructs top here path = false := by
  cases h with
  | absent file_eq error_ne =>
      rw [obstructs, file_eq]
      exact beq_eq_false_iff_ne.mpr error_ne
  | @refused content fault warnings file_eq load_eq =>
      rw [obstructs, file_eq]
      by_contra hobstacle
      obtain ⟨error, herror, hnot⟩ :=
        load_of_obstacle file_eq (by simpa using hobstacle)
      rw [load_eq] at herror
      exact hnot fault (Except.error.inj herror).symm

/-! ## Steps of a search -/

theorem loadFirst_cons (top : FileTree) (here : List String) (path : String) (rest : List String) :
    loadFirst top here (path :: rest) =
      match top.fileFrom here (PosixPath.tidy path) with
      | .error .nameTooLong => ⟨.error (.unusable (PosixPath.tidy path) .nameTooLong), []⟩
      | .error _ => loadFirst top here rest
      | .ok _ =>
          match (load top here path).result with
          | .error (.refused error) =>
              ⟨(loadFirst top here rest).result,
                (load top here path).warnings ++ .ignored (PosixPath.tidy path) error ::
                  (loadFirst top here rest).warnings⟩
          | _ => load top here path := by
  rfl

theorem loadFirst_of_passedOver {notes : List SettingsWarning}
    (h : PassedOver top here path notes) (rest : List String) :
    loadFirst top here (path :: rest) =
      ⟨(loadFirst top here rest).result, notes ++ (loadFirst top here rest).warnings⟩ := by
  rw [loadFirst_cons]
  cases h with
  | @absent error file_eq error_ne =>
      rw [file_eq]
      cases error with
      | nameTooLong => exact absurd rfl error_ne
      | _ => rfl
  | refused file_eq load_eq => simp [file_eq, load_eq]

theorem loadFirst_of_load (h : load top here path = ⟨.ok s, warnings⟩) (rest : List String) :
    loadFirst top here (path :: rest) = ⟨.ok s, warnings⟩ := by
  obtain ⟨content, document, hfile, -, -, -⟩ := exists_of_load_eq_ok h
  rw [loadFirst_cons, hfile, h]

theorem exists_error_of_obstructs (h : obstructs top here path = true) (rest : List String) :
    ∃ error, (loadFirst top here (path :: rest)).result = .error error := by
  rw [obstructs] at h
  rw [loadFirst_cons]
  cases hfile : top.fileFrom here (PosixPath.tidy path) with
  | error error =>
      rw [hfile] at h
      obtain rfl : error = .nameTooLong := beq_iff_eq.mp h
      exact ⟨_, rfl⟩
  | ok content =>
      rw [hfile] at h
      obtain ⟨error, herror, hnot⟩ := load_of_obstacle hfile h
      rw [herror]
      cases error with
      | refused fault => exact absurd rfl (hnot fault)
      | _ => exact ⟨_, herror⟩

/-- Places that are passed over leave their notes and nothing else. -/
theorem loadFirst_append {notes : List (List SettingsWarning)}
    (h : List.Forall₂ (PassedOver top here) front notes) (back : List String) :
    loadFirst top here (front ++ back) =
      ⟨(loadFirst top here back).result, notes.flatten ++ (loadFirst top here back).warnings⟩ := by
  induction h with
  | nil => rfl
  | cons hfirst _ ih =>
      rw [List.cons_append, loadFirst_of_passedOver hfirst, ih, List.flatten_cons,
        List.append_assoc]

/-! ## The outcome of a search -/

/-- The settings and the warnings that a search gives: those of the first file that loads, where all
paths before it are passed over, or the defaults if all paths are. -/
inductive Picks (top : FileTree) (here : List String) (paths : List String) :
    Settings → List SettingsWarning → Prop where
  | first {front back : List String} {path : String} {notes : List (List SettingsWarning)}
      {s : Settings} {warnings : List SettingsWarning}
      (paths_eq : paths = front ++ path :: back)
      (before : List.Forall₂ (PassedOver top here) front notes)
      (load_eq : load top here path = ⟨.ok s, warnings⟩) :
      Picks top here paths s (notes.flatten ++ warnings)
  | none {notes : List (List SettingsWarning)}
      (all : List.Forall₂ (PassedOver top here) paths notes) :
      Picks top here paths Settings.default notes.flatten

theorem Picks.cons {notes : List SettingsWarning} (hpath : PassedOver top here path notes)
    (h : Picks top here paths s warnings) : Picks top here (path :: paths) s (notes ++ warnings) := by
  cases h with
  | first paths_eq before load_eq =>
      rw [← List.append_assoc, ← List.flatten_cons]
      exact .first (by rw [paths_eq]; rfl) (.cons hpath before) load_eq
  | none all =>
      rw [← List.flatten_cons]
      exact .none (.cons hpath all)

/-- Whatever a search picks can drive a run. -/
theorem Picks.valid (h : Picks top here paths s warnings) : s.Valid := by
  cases h with
  | first paths_eq before load_eq =>
      obtain ⟨content, document, -, -, -, hresult⟩ := exists_of_load_eq_ok load_eq
      exact valid_of_ofDocument hresult
  | none all => exact valid_default

/-- Nothing ends a search before it has found settings. -/
def Clear (top : FileTree) (here : List String) (paths : List String) : Prop :=
  ∀ front path back, paths = front ++ path :: back → obstructs top here path = true →
    ∃ p ∈ front, usable top here p = true

theorem clear_of_all (h : ∀ path ∈ paths, obstructs top here path = false) : Clear top here paths := by
  rintro front path back rfl hobstructs
  rw [h path (by simp)] at hobstructs
  cases hobstructs

theorem clear_of_load (h : load top here path = ⟨.ok s, warnings⟩) : Clear top here (path :: paths) := by
  intro front other back hpaths hobstructs
  cases front with
  | nil =>
      obtain ⟨rfl, -⟩ := List.cons.inj hpaths
      rw [not_obstructs_of_load h] at hobstructs
      cases hobstructs
  | cons first rest =>
      obtain ⟨rfl, -⟩ := List.cons.inj hpaths
      exact ⟨path, by simp, by rw [usable, h]; rfl⟩

/-- A path that is passed over does not change whether the search is clear. -/
theorem PassedOver.clear_cons_iff {notes : List SettingsWarning}
    (h : PassedOver top here path notes) : Clear top here (path :: paths) ↔ Clear top here paths := by
  constructor
  · intro hclear front other back hpaths hobstructs
    obtain ⟨p, hp, husable⟩ :=
      hclear (path :: front) other back (by rw [hpaths]; rfl) hobstructs
    rcases List.mem_cons.mp hp with rfl | hp
    · rw [h.not_usable] at husable
      cases husable
    · exact ⟨p, hp, husable⟩
  · intro hclear front other back hpaths hobstructs
    cases front with
    | nil =>
        obtain ⟨rfl, -⟩ := List.cons.inj hpaths
        rw [h.not_obstructs] at hobstructs
        cases hobstructs
    | cons first later =>
        obtain ⟨-, hrest⟩ := List.cons.inj hpaths
        obtain ⟨p, hp, husable⟩ := hclear later other back hrest hobstructs
        exact ⟨p, List.mem_cons_of_mem _ hp, husable⟩

theorem not_clear_of_obstructs (h : obstructs top here path = true) : ¬Clear top here (path :: paths) := by
  intro hclear
  obtain ⟨p, hp, -⟩ := hclear [] path paths rfl h
  simp at hp

/-- A search that is clear finds what it picks, and a search that is not ends without settings. -/
theorem loadFirst_cases (top : FileTree) (here : List String) (paths : List String) :
    (Clear top here paths → ∃ s warnings, loadFirst top here paths = ⟨.ok s, warnings⟩ ∧
        Picks top here paths s warnings) ∧
      (¬Clear top here paths → ∃ error, (loadFirst top here paths).result = .error error) := by
  induction paths with
  | nil => exact ⟨fun _ => ⟨_, _, rfl, .none .nil⟩, fun h => absurd (clear_of_all (by simp)) h⟩
  | cons path rest ih =>
      rcases candidate_cases top here path with ⟨notes, hpassed⟩ | ⟨s, warnings, hload⟩ | hobstructs
      · rw [hpassed.clear_cons_iff, loadFirst_of_passedOver hpassed]
        refine ⟨fun hclear => ?_, ih.2⟩
        obtain ⟨s, warnings, hsearch, hpicks⟩ := ih.1 hclear
        exact ⟨s, notes ++ warnings, by rw [hsearch], hpicks.cons hpassed⟩
      · have hpicks : Picks top here (path :: rest) s warnings := .first rfl .nil hload
        exact ⟨fun _ => ⟨s, warnings, loadFirst_of_load hload rest, hpicks⟩,
          fun h => absurd (clear_of_load hload) h⟩
      · exact ⟨fun h => absurd h (not_clear_of_obstructs hobstructs),
          fun _ => exists_error_of_obstructs hobstructs rest⟩

/-- A search of the standard places finds settings if nothing ends it before: they are valid, and
they are those of the first file that loads, or the defaults if none does, where each file before is
skipped with a warning.  What ends a search, a name that is too long, a file that is not UTF-8 or at
which the parser breaks off, or unknown keys that are no texts, leaves it without settings. -/
theorem loadFirst_standardPlaces (top : FileTree) (here : List String) (named : Option String)
    (directory home : String) :
    (Clear top here (standardPaths named directory home) →
        ∃ s warnings,
          loadFirst top here (standardPaths named directory home) = ⟨.ok s, warnings⟩ ∧
            s.Valid ∧ Picks top here (standardPaths named directory home) s warnings) ∧
      (¬Clear top here (standardPaths named directory home) →
        ∃ error,
          (loadFirst top here (standardPaths named directory home)).result = .error error) := by
  obtain ⟨hfinds, hends⟩ := loadFirst_cases top here (standardPaths named directory home)
  refine ⟨fun hclear => ?_, hends⟩
  obtain ⟨s, warnings, hsearch, hpicks⟩ := hfinds hclear
  exact ⟨s, warnings, hsearch, hpicks.valid, hpicks⟩

/-! ## A working directory with several settings files -/

namespace Sample

/-- A working directory with a malformed file, a directory in the place of a file, and settings. -/
def places : FileTree :=
  .directory [("w", .directory
    [("rsextract.yaml", .file ⟨[0x5B], .empty, none, false⟩),
      ("rsextract.yml", .directory []),
      (".rsextract.yaml", .file ⟨[0x7B, 0x7D], .empty, some (.mapping mixed), false⟩)])]

/-- A working directory whose settings file is not UTF-8. -/
def undecodable : FileTree :=
  .directory [("w", .directory [("rsextract.yaml", .file ⟨[0xFF], .empty, none, false⟩)])]

/-- A working directory whose settings file has a number for a key. -/
def numbered : FileTree :=
  .directory [("w", .directory [("rsextract.yaml",
    .file ⟨"1: x".toUTF8.toList, .empty, some (.mixed [] (.int 1) (.text "x") []), false⟩)])]

end Sample

/-- From the working directory, the search passes over a name from the environment, the malformed
file and the directory. -/
theorem loadFirst_standardPlaces_sample :
    Clear Sample.places ["w"] (standardPaths (some "gone") "." "/h") ∧
      (∃ s warnings,
        loadFirst Sample.places ["w"] (standardPaths (some "gone") "." "/h") = ⟨.ok s, warnings⟩ ∧
          s.Valid ∧ Picks Sample.places ["w"] (standardPaths (some "gone") "." "/h") s warnings ∧
          s = Sample.settings ∧
          warnings = [.ignored "rsextract.yaml"
            (.fileUnparsable "rsextract.yaml" foreignDetail)]) ∧
      ¬Clear Sample.undecodable [] (standardPaths none "/w" "/h") ∧
      (∃ error, (loadFirst Sample.undecodable [] (standardPaths none "/w" "/h")).result =
        .error error) ∧
      ¬Clear Sample.numbered [] (standardPaths none "/w" "/h") ∧
      ∃ error, (loadFirst Sample.numbered [] (standardPaths none "/w" "/h")).result =
        .error error := by
  have hclear : Clear Sample.places ["w"] (standardPaths (some "gone") "." "/h") :=
    clear_of_all (by decide +kernel)
  have hundecodable : ¬Clear Sample.undecodable [] (standardPaths none "/w" "/h") :=
    not_clear_of_obstructs (by decide +kernel)
  have hnumbered : ¬Clear Sample.numbered [] (standardPaths none "/w" "/h") :=
    not_clear_of_obstructs (by decide +kernel)
  obtain ⟨s, warnings, hsearch, hvalid, hpicks⟩ :=
    (loadFirst_standardPlaces Sample.places ["w"] (some "gone") "." "/h").1 hclear
  have hresult : (loadFirst Sample.places ["w"] (standardPaths (some "gone") "." "/h")).result =
      .ok Sample.settings := by decide +kernel
  have hwarnings : (loadFirst Sample.places ["w"] (standardPaths (some "gone") "." "/h")).warnings =
      [.ignored "rsextract.yaml" (.fileUnparsable "rsextract.yaml" foreignDetail)] := by
    decide +kernel
  rw [hsearch] at hresult hwarnings
  exact ⟨hclear, ⟨s, warnings, hsearch, hvalid, hpicks, Except.ok.inj hresult, hwarnings⟩,
    hundecodable, (loadFirst_standardPlaces Sample.undecodable [] none "/w" "/h").2 hundecodable,
    hnumbered, (loadFirst_standardPlaces Sample.numbered [] none "/w" "/h").2 hnumbered⟩

/-- A settings file that is not UTF-8 ends the search, where the defaults were to be taken. -/
theorem loadFirst_undecodable :
    (loadFirst Sample.undecodable [] (standardPaths none "/w" "/h")).result =
      .error (.undecodable ⟨0, [0xFF], .invalidStart⟩) := by
  decide +kernel

end CrateAtlas.Settings
