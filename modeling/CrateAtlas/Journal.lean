import CrateAtlas.Document.Basic

/-!
# Journal

Every record of the journal carries the identifier of the run and the phase in which it was
written.  Both are bound for the extent of a scope and restored when the scope is left.
-/

namespace CrateAtlas

/-- The run and the phase that records carry. -/
structure JournalContext where
  runId : String
  phase : String
deriving DecidableEq, Repr

/-- The context outside of all runs and phases. -/
def JournalContext.outside : JournalContext := ⟨"-", "-"⟩

/-- An open scope, with the value to restore when it is left. -/
inductive JournalScope where
  | run (previous : String)
  | phase (previous : String)
deriving DecidableEq, Repr

/-- A journal: its context, the open scopes, innermost first, the lowest level that is
written, and whether records show their context. -/
structure Journal where
  context : JournalContext
  scopes : List JournalScope
  level : Int
  detailed : Bool
deriving DecidableEq, Repr

namespace Journal

/-- The level of warnings, which holds at the start. -/
def warningLevel : Int := 30

/-- The journal at the start. -/
def start : Journal := ⟨.outside, [], warningLevel, false⟩

/-- An identifier as given, or a fresh one if it is absent or empty. -/
def chosen (fresh : String) (id : Option String) : String :=
  match id with
  | some id => if id = "" then fresh else id
  | none => fresh

/-- Set the identifier of the run. -/
def setRun (journal : Journal) (id : String) : Journal :=
  { journal with context := { journal.context with runId := id } }

/-- Set the phase. -/
def setPhase (journal : Journal) (phase : String) : Journal :=
  { journal with context := { journal.context with phase := phase } }

/-- Enter a scope that binds the identifier of the run. -/
def enterRun (journal : Journal) (id : String) : Journal :=
  { journal.setRun id with scopes := .run journal.context.runId :: journal.scopes }

/-- Enter a scope that binds the phase. -/
def enterPhase (journal : Journal) (phase : String) : Journal :=
  { journal.setPhase phase with scopes := .phase journal.context.phase :: journal.scopes }

/-- Leave the innermost scope and restore what it bound. -/
def leave (journal : Journal) : Journal :=
  match journal.scopes with
  | [] => journal
  | .run previous :: rest => { journal.setRun previous with scopes := rest }
  | .phase previous :: rest => { journal.setPhase previous with scopes := rest }

/-! ## Records -/

/-- The name of a level. -/
def levelName (level : Int) : String :=
  if level = 10 then "DEBUG"
  else if level = 20 then "INFO"
  else if level = 30 then "WARNING"
  else if level = 40 then "ERROR"
  else if level = 50 then "CRITICAL"
  else s!"Level {level}"

/-- Whether a record of a level is written. -/
def writes (journal : Journal) (level : Int) : Bool :=
  decide (0 < level ∧ journal.level ≤ level)

/-- The name of a logger in records; the one without a name is the root. -/
def loggerName (logger : String) : String :=
  if logger = "" then "root" else logger

/-- The fields of a record. -/
def record (journal : Journal) (logger : String) (level : Int) (message : String) :
    List String :=
  if journal.detailed then
    [levelName level, "run_id=" ++ journal.context.runId, "phase=" ++ journal.context.phase,
      loggerName logger, message]
  else [message]

/-! ## Steps -/

/-- A step of a journal. -/
inductive Step where
  | setRun (id : Option String)
  | enterRun (id : Option String)
  | enterPhase (phase : String)
  | leave
  | configure (level : Int)
  | configureFresh (level : Int)
  | log (level : Int) (message : String)
  | submit (args : List Document)

/-- What a worker sees of a context, with its arguments. -/
def seen (context : JournalContext) (args : List Document) : Document :=
  .list (.text context.runId :: .text context.phase :: args)

/-- Take a step: what it answers, and the journal afterwards.  {lit}`fresh` is the identifier
that a run without one gets.  A worker sees the context of the submitter only if it is
handed over. -/
def step (fresh logger : String) (journal : Journal) : Step → Document × Journal
  | .setRun id => (.text (chosen fresh id), journal.setRun (chosen fresh id))
  | .enterRun id => (.text (chosen fresh id), journal.enterRun (chosen fresh id))
  | .enterPhase phase => (.null, journal.enterPhase phase)
  | .leave => (.null, journal.leave)
  | .configure level => (.int 1, { journal with level := level, detailed := true })
  | .configureFresh level => (.list [.int 1, .int 1, .int level], { journal with level := level })
  | .log level message =>
      (.list (if journal.writes level then [.texts (journal.record logger level message)] else []),
        journal)
  | .submit args => (.list [seen .outside [], seen journal.context args], journal)

end Journal

end CrateAtlas
