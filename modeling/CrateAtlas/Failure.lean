/-!
# Failures

A run fails as a whole for a reason that leaves nothing to report.  A file fails on its
own; inside a run its failure is recorded and the run goes on.
-/

namespace CrateAtlas

/-! ## Files -/

/-- Why a single file cannot be processed. -/
inductive FileError where
  | other (path detail : String)
  | parse (path detail : String) (line column : Option Int)
  | tooLarge (path : String) (size limit : Int)
  | unreadable (path detail : String)
  | accessDenied (path : String)
deriving DecidableEq, Repr

namespace FileError

/-- The class of a failure in reports. -/
def kind : FileError → String
  | other .. => "file_error"
  | parse .. => "parse_error"
  | tooLarge .. => "max_file_size_exceeded"
  | unreadable .. => "io_error"
  | accessDenied .. => "access_denied"

/-- A number that may be missing. -/
def shown : Option Int → String
  | some n => toString n
  | none => "None"

/-- The wording of a failure. -/
def message : FileError → String
  | other path detail => path ++ ": " ++ detail
  | parse path detail none _ => "Parse error in " ++ path ++ ": " ++ detail
  | parse path detail (some line) column =>
      "Parse error in " ++ path ++ " at " ++ toString line ++ ":" ++ shown column ++ ": " ++ detail
  | tooLarge path size limit =>
      "File too large: " ++ path ++ s!" ({size} bytes, limit: {limit} bytes)"
  | unreadable path detail => "IO error reading " ++ path ++ ": " ++ detail
  | accessDenied path => "Access denied: " ++ path

end FileError

/-- The record of a file that failed. -/
structure FileFailure where
  path : String
  kind : String
  message : String
deriving DecidableEq, Repr

/-! ## Reports -/

/-- How many files of a run succeeded, and which failed. -/
structure FailureReport where
  successful : Int
  failed : Int
  total : Int
  failures : List FileFailure
deriving DecidableEq, Repr

namespace FailureReport

/-- The report of a number of successes and some failures, which are ordered by path. -/
def build (successful : Int) (failures : List FileFailure) : FailureReport :=
  let ordered := failures.mergeSort fun a b => a.path ≤ b.path
  ⟨successful, ordered.length, successful + ordered.length, ordered⟩

/-- Whether a file failed. -/
def hasFailures (report : FailureReport) : Bool :=
  decide (0 < report.failed)

/-- The wordings of the failures. -/
def messages (report : FailureReport) : List String :=
  report.failures.map FileFailure.message

end FailureReport

/-! ## Runs -/

/-- Why a run produces nothing. -/
inductive RunError where
  | other (detail : String)
  | invalidRoot (path : String)
  | nothingFound (root : String)
  | nothingParsed (report : FailureReport)
  | cancelled (completed : Int)
deriving DecidableEq, Repr

/-- The wording of the failure of a run. -/
def RunError.message : RunError → String
  | other detail => detail
  | invalidRoot path => "Invalid project root: " ++ path
  | nothingFound root => "No Rust source files matched the filters under " ++ root
  | nothingParsed report => s!"Failed to process {report.failed} out of {report.total} files"
  | cancelled completed => s!"Extraction cancelled after {completed} files"

end CrateAtlas
