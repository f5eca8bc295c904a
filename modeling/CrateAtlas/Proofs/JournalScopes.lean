import CrateAtlas.Journal
import Mathlib.Data.List.Basic

/-!
# Scopes of a journal

Scopes that bind the identifier of the run and scopes that bind the phase are opened and left in
any order, and share one stack.  The identifier can also be set without a scope.  Leaving a scope
gives back the value from before it, whatever was set or opened meanwhile.

The proofs follow the context to which a journal unwinds: the one that leaving all scopes opened
so far leads to.  Opening and leaving scopes does not change it, and setting the identifier changes
it only outside the scopes that bind the identifier.

Main results:

- Theorem {lit}`Unwinds.take`: what one turn does to the context to which a journal unwinds.
- Theorem {lit}`Unwinds.after`: what a run does to it.
- Theorem {lit}`exists_opening`: the turn that opened the innermost scope.
- Theorem {lit}`after_contextLaws`: the laws of a run.
-/

namespace CrateAtlas

/-! ## Fields of a context -/

namespace JournalContext

/-- The fields of a context, each bound by scopes of its own. -/
inductive Field where
  | runId
  | phase
deriving DecidableEq

/-- The value of a field. -/
def get (context : JournalContext) : Field → String
  | .runId => context.runId
  | .phase => context.phase

/-- The context with another value in a field. -/
def set (context : JournalContext) (field : Field) (value : String) : JournalContext :=
  match field with
  | .runId => { context with runId := value }
  | .phase => { context with phase := value }

variable {context : JournalContext} {field other : Field} {value : String}

@[simp]
theorem get_set_self (context : JournalContext) (field : Field) (value : String) :
    (context.set field value).get field = value := by
  cases field <;> rfl

theorem get_set_of_ne (h : other ≠ field) : (context.set field value).get other =
    context.get other := by
  revert h
  cases field <;> cases other <;> simp [set, get]

@[simp]
theorem set_set_self (context : JournalContext) (field : Field) (value value' : String) :
    (context.set field value).set field value' = context.set field value' := by
  cases field <;> rfl

theorem set_comm (h : other ≠ field) (value' : String) :
    (context.set field value).set other value' = (context.set other value').set field value := by
  revert h
  cases field <;> cases other <;> simp [set]

@[simp]
theorem set_get (context : JournalContext) (field : Field) :
    context.set field (context.get field) = context := by
  cases field <;> rfl

end JournalContext

open JournalContext

namespace JournalScope

/-- The field that a scope binds. -/
def field : JournalScope → Field
  | .run _ => .runId
  | .phase _ => .phase

/-- The value to which leaving a scope sets its field. -/
def previous : JournalScope → String
  | .run previous => previous
  | .phase previous => previous

end JournalScope

/-- The context after a scope was left. -/
def JournalContext.restore (context : JournalContext) (scope : JournalScope) : JournalContext :=
  context.set scope.field scope.previous

/-- A value that was set is gone after leaving scopes of which one binds its field. -/
theorem JournalContext.foldl_restore_set (field : Field) (value : String)
    (scopes : List JournalScope) :
    ∀ context : JournalContext, scopes.foldl restore (context.set field value) =
      if field ∈ scopes.map JournalScope.field then scopes.foldl restore context
      else (scopes.foldl restore context).set field value := by
  induction scopes with
  | nil =>
      intro context
      rfl
  | cons scope rest ih =>
      intro context
      rw [List.foldl_cons, List.foldl_cons, List.map_cons]
      by_cases hfield : scope.field = field
      · subst hfield
        rw [if_pos (by simp), restore, set_set_self, restore]
      · have hcomm : (context.set field value).restore scope =
            (context.restore scope).set field value := set_comm hfield _
        rw [hcomm, ih]
        simp only [List.mem_cons, Ne.symm hfield, false_or]

namespace Journal

/-! ## Turns -/

/-- A step, with the identifier that it draws if it needs one. -/
structure Turn where
  fresh : String
  step : Step

/-- What a turn does to the context and to the open scopes. -/
inductive Effect where
  | opens (field : Field) (value : String)
  | leaves
  | sets (id : String)
  | keeps
deriving DecidableEq

/-- The effect of a turn. -/
def Turn.effect (turn : Turn) : Effect :=
  match turn.step with
  | .enterRun id => .opens .runId (chosen turn.fresh id)
  | .enterPhase phase => .opens .phase phase
  | .leave => .leaves
  | .setRun id => .sets (chosen turn.fresh id)
  | _ => .keeps

/-- The journal after a turn. -/
def take (logger : String) (journal : Journal) (turn : Turn) : Journal :=
  (step turn.fresh logger journal turn.step).2

/-- The journal after several turns. -/
def after (logger : String) (journal : Journal) (turns : List Turn) : Journal :=
  turns.foldl (take logger) journal

variable {logger : String} {journal : Journal} {turn : Turn} {turns front back : List Turn}

@[simp]
theorem after_nil (logger : String) (journal : Journal) : journal.after logger [] = journal :=
  rfl

@[simp]
theorem after_cons (logger : String) (journal : Journal) (turn : Turn) (rest : List Turn) :
    journal.after logger (turn :: rest) = (journal.take logger turn).after logger rest :=
  rfl

theorem after_append (logger : String) (journal : Journal) (front back : List Turn) :
    journal.after logger (front ++ back) = (journal.after logger front).after logger back :=
  List.foldl_append

/-! ## Single turns -/

/-- Opening a scope binds its field and keeps the value from before. -/
theorem take_of_opens {field : Field} {value : String} (h : turn.effect = .opens field value)
    (logger : String) (journal : Journal) :
    (journal.take logger turn).context = journal.context.set field value ∧
      ∃ scope : JournalScope, scope.field = field ∧ scope.previous = journal.context.get field ∧
        (journal.take logger turn).scopes = scope :: journal.scopes := by
  obtain ⟨fresh, step⟩ := turn
  cases step <;> simp only [Turn.effect, Effect.opens.injEq, reduceCtorEq] at h
  case enterRun id =>
    obtain ⟨rfl, rfl⟩ := h
    exact ⟨rfl, .run journal.context.runId, rfl, rfl, rfl⟩
  case enterPhase phase =>
    obtain ⟨rfl, rfl⟩ := h
    exact ⟨rfl, .phase journal.context.phase, rfl, rfl, rfl⟩

/-- Leaving a scope restores its field, and that alone. -/
theorem take_of_leaves (h : turn.effect = .leaves) {scope : JournalScope}
    {rest : List JournalScope} (hscopes : journal.scopes = scope :: rest) (logger : String) :
    (journal.take logger turn).context = journal.context.restore scope ∧
      (journal.take logger turn).scopes = rest := by
  obtain ⟨fresh, step⟩ := turn
  cases step <;> simp only [Turn.effect, reduceCtorEq] at h
  have hleave : journal.take logger ⟨fresh, .leave⟩ = journal.leave := rfl
  rw [hleave, leave, hscopes]
  cases scope <;> exact ⟨rfl, rfl⟩

theorem take_of_sets {id : String} (h : turn.effect = .sets id) (logger : String)
    (journal : Journal) :
    (journal.take logger turn).context = journal.context.set .runId id ∧
      (journal.take logger turn).scopes = journal.scopes := by
  obtain ⟨fresh, step⟩ := turn
  cases step <;> simp only [Turn.effect, Effect.sets.injEq, reduceCtorEq] at h
  subst h
  exact ⟨rfl, rfl⟩

theorem take_of_keeps (h : turn.effect = .keeps) (logger : String) (journal : Journal) :
    (journal.take logger turn).context = journal.context ∧
      (journal.take logger turn).scopes = journal.scopes := by
  obtain ⟨fresh, step⟩ := turn
  cases step <;> simp only [Turn.effect, reduceCtorEq] at h <;> exact ⟨rfl, rfl⟩

/-! ## Open scopes -/

/-- The fields that the open scopes bind, innermost first, after a turn; none if the turn would
leave a scope and none is open. -/
def Effect.fields? (fields : List Field) : Effect → Option (List Field)
  | .opens field _ => some (field :: fields)
  | .leaves => fields.tail?
  | .sets _ | .keeps => some fields

/-- An effect opens a scope, leaves one, or keeps those that are open. -/
theorem Effect.cases (effect : Effect) :
    (∃ field value, effect = .opens field value) ∨ effect = .leaves ∨
      ∀ fields, effect.fields? fields = some fields := by
  cases effect <;> simp [fields?]

/-- The same after several turns. -/
def fieldsAfter? (fields : List Field) (turns : List Turn) : Option (List Field) :=
  turns.foldlM (fun fields turn => turn.effect.fields? fields) fields

/-- Turns that leave every scope they open, and no other. -/
def Balanced (turns : List Turn) : Prop :=
  fieldsAfter? [] turns = some []

instance (turns : List Turn) : Decidable (Balanced turns) :=
  inferInstanceAs (Decidable (_ = _))

theorem fieldsAfter?_cons (fields : List Field) (turn : Turn) (rest : List Turn) :
    fieldsAfter? fields (turn :: rest) =
      (turn.effect.fields? fields).bind fun next => fieldsAfter? next rest :=
  List.foldlM_cons

theorem fieldsAfter?_append (fields : List Field) (front back : List Turn) :
    fieldsAfter? fields (front ++ back) =
      (fieldsAfter? fields front).bind fun next => fieldsAfter? next back :=
  List.foldlM_append

theorem fieldsAfter?_concat (fields : List Field) (turns : List Turn) (turn : Turn) :
    fieldsAfter? fields (turns ++ [turn]) =
      (fieldsAfter? fields turns).bind turn.effect.fields? := by
  rw [fieldsAfter?_append]
  congr 1
  funext next
  rw [fieldsAfter?_cons]
  cases turn.effect.fields? next <;> rfl

/-- Scopes that were open before stay open. -/
theorem Effect.fields?_append {fields next : List Field} {effect : Effect}
    (h : effect.fields? fields = some next) (outer : List Field) :
    effect.fields? (fields ++ outer) = some (next ++ outer) := by
  cases effect with
  | leaves =>
      cases fields with
      | nil => cases h
      | cons field rest =>
          cases h
          rfl
  | _ =>
      cases h
      rfl

theorem fieldsAfter?_outer {fields next : List Field} (outer : List Field) :
    fieldsAfter? fields turns = some next →
      fieldsAfter? (fields ++ outer) turns = some (next ++ outer) := by
  induction turns generalizing fields with
  | nil =>
      intro h
      cases h
      rfl
  | cons turn rest ih =>
      intro h
      rw [fieldsAfter?_cons] at h
      obtain ⟨middle, hmiddle, hrest⟩ := Option.bind_eq_some_iff.mp h
      rw [fieldsAfter?_cons, Effect.fields?_append hmiddle outer]
      exact ih hrest

theorem Balanced.fieldsAfter?_eq (h : Balanced turns) (fields : List Field) :
    fieldsAfter? fields turns = some fields :=
  fieldsAfter?_outer fields h

/-- A turn that opens or leaves no scope keeps turns balanced. -/
theorem Balanced.concat (h : Balanced turns) (hsame : turn.effect.fields? [] = some []) :
    Balanced (turns ++ [turn]) := by
  rw [Balanced, fieldsAfter?_concat, h]
  exact hsame

/-- So does a scope that is opened and left again. -/
theorem Balanced.concat_scope {opening leaving : Turn} {inner : List Turn} {field : Field}
    {value : String} (h : Balanced turns) (hopening : opening.effect = .opens field value)
    (hinner : Balanced inner) (hleaving : leaving.effect = .leaves) :
    Balanced (turns ++ opening :: (inner ++ [leaving])) := by
  rw [Balanced, fieldsAfter?_append, h, Option.bind_some, fieldsAfter?_cons, hopening,
    Effect.fields?, Option.bind_some, fieldsAfter?_concat, hinner.fieldsAfter?_eq, hleaving]
  rfl

/-- Several turns that leave a scope open: one of them opened it, and those after it are
balanced. -/
theorem exists_opening {field : Field} {fields : List Field}
    (h : fieldsAfter? [] turns = some (field :: fields)) :
    ∃ before opening inner value, turns = before ++ opening :: inner ∧
      opening.effect = .opens field value ∧ fieldsAfter? [] before = some fields ∧
      Balanced inner := by
  -- If the last turn leaves a scope, the opening of that scope is found first, and then the one in
  -- question among the turns before.  So the induction is on the length.
  induction hlength : turns.length using Nat.strongRecOn generalizing turns field fields with
  | _ n ih =>
      rcases List.eq_nil_or_concat turns with rfl | ⟨init, last, rfl⟩
      · cases h
      rw [List.concat_eq_append] at h hlength ⊢
      have hinit : init.length < n := by
        rw [List.length_append, List.length_singleton] at hlength
        omega
      rw [fieldsAfter?_concat] at h
      obtain ⟨middle, hmiddle, hlast⟩ := Option.bind_eq_some_iff.mp h
      rcases last.effect.cases with ⟨field', value, heffect⟩ | heffect | hsame
      · rw [heffect] at hlast
        cases hlast
        exact ⟨init, last, [], value, rfl, heffect, hmiddle, rfl⟩
      · rw [heffect] at hlast
        obtain ⟨left, rfl⟩ : ∃ left, middle = left :: field :: fields := by
          cases middle with
          | nil => cases hlast
          | cons left rest =>
              cases hlast
              exact ⟨left, rfl⟩
        obtain ⟨before, opening, inner, value, rfl, hopening, hbefore, hinner⟩ :=
          ih init.length hinit hmiddle rfl
        have hlonger : before.length < n := by
          rw [List.length_append] at hinit
          omega
        obtain ⟨outer, opening', inner', value', rfl, hopening', houter, hinner'⟩ :=
          ih before.length hlonger hbefore rfl
        exact ⟨outer, opening', inner' ++ opening :: (inner ++ [last]), value', by simp,
          hopening', houter, hinner'.concat_scope hopening hinner heffect⟩
      · rw [hsame] at hlast
        cases hlast
        obtain ⟨before, opening, inner, value, rfl, hopening, hbefore, hinner⟩ :=
          ih init.length hinit hmiddle rfl
        exact ⟨before, opening, inner ++ [last], value, by simp, hopening, hbefore,
          hinner.concat (hsame [])⟩

/-! ## Unwinding -/

/-- A journal unwinds to a context: above some scopes it has opened others, which bind the given
fields, and leaving these leads to the context. -/
def Unwinds (journal : Journal) (base : List JournalScope) (fields : List Field)
    (context : JournalContext) : Prop :=
  ∃ opened, journal.scopes = opened ++ base ∧ opened.map JournalScope.field = fields ∧
    opened.foldl restore journal.context = context

/-- What an effect does to the context to which a journal unwinds. -/
def Effect.settle (fields : List Field) (context : JournalContext) : Effect → JournalContext
  | .sets id => if .runId ∈ fields then context else context.set .runId id
  | _ => context

variable {base : List JournalScope} {fields next : List Field} {context : JournalContext}

theorem unwinds_self (journal : Journal) : journal.Unwinds journal.scopes [] journal.context :=
  ⟨[], rfl, rfl, rfl⟩

/-- With all scopes left, a journal is where it unwinds to. -/
theorem Unwinds.eq_of_nil (h : journal.Unwinds base [] context) :
    journal.scopes = base ∧ journal.context = context := by
  obtain ⟨opened, hscopes, hfields, hcontext⟩ := h
  obtain rfl := List.map_eq_nil_iff.mp hfields
  exact ⟨hscopes, hcontext⟩

/-- One turn changes the context to which a journal unwinds only by setting the identifier of the
run outside the scopes that bind it. -/
theorem Unwinds.take (h : journal.Unwinds base fields context)
    (hnext : turn.effect.fields? fields = some next) (logger : String) :
    (journal.take logger turn).Unwinds base next (turn.effect.settle fields context) := by
  obtain ⟨opened, hscopes, rfl, rfl⟩ := h
  cases heffect : turn.effect with
  | opens field value =>
      rw [heffect] at hnext
      cases hnext
      obtain ⟨hcontext, scope, rfl, hprevious, hpushed⟩ :=
        take_of_opens heffect logger journal
      refine ⟨scope :: opened, by rw [hpushed, hscopes]; rfl, rfl, ?_⟩
      have hback : (journal.take logger turn).context.restore scope = journal.context := by
        rw [restore, hcontext, set_set_self, hprevious, set_get]
      rw [List.foldl_cons, hback]
      rfl
  | leaves =>
      rw [heffect] at hnext
      cases opened with
      | nil => cases hnext
      | cons scope rest =>
          cases hnext
          obtain ⟨hcontext, hrest⟩ := take_of_leaves heffect hscopes logger
          exact ⟨rest, hrest, rfl, by rw [hcontext]; rfl⟩
  | sets id =>
      rw [heffect] at hnext
      cases hnext
      obtain ⟨hcontext, hsame⟩ := take_of_sets heffect logger journal
      refine ⟨opened, hsame.trans hscopes, rfl, ?_⟩
      rw [hcontext, foldl_restore_set]
      rfl
  | keeps =>
      rw [heffect] at hnext
      cases hnext
      obtain ⟨hcontext, hsame⟩ := take_of_keeps heffect logger journal
      exact ⟨opened, hsame.trans hscopes, rfl, by rw [hcontext]; rfl⟩

/-- Wherever some turns set the identifier of the run, a scope that binds it is open. -/
def Shielded (fields : List Field) (turns : List Turn) : Prop :=
  ∀ front turn back id inside, turns = front ++ turn :: back → turn.effect = .sets id →
    fieldsAfter? fields front = some inside → .runId ∈ inside

theorem Shielded.tail {rest : List Turn} (h : Shielded fields (turn :: rest))
    (hnext : turn.effect.fields? fields = some next) : Shielded next rest := by
  intro front later back id inside hrest heffect hinside
  apply h (turn :: front) later back id inside (by rw [hrest]; rfl) heffect
  rw [fieldsAfter?_cons, hnext, Option.bind_some, hinside]

/-- Over a run, the context to which a journal unwinds keeps its phase, and with it the identifier
of the run unless that is set outside the scopes that bind it. -/
theorem Unwinds.after {last : List Field} (h : journal.Unwinds base fields context)
    (hlast : fieldsAfter? fields turns = some last) (logger : String) :
    ∃ context', (journal.after logger turns).Unwinds base last context' ∧
      context'.phase = context.phase ∧ (Shielded fields turns → context' = context) := by
  induction turns generalizing journal fields context with
  | nil =>
      cases hlast
      exact ⟨context, h, rfl, fun _ => rfl⟩
  | cons turn rest ih =>
      rw [fieldsAfter?_cons] at hlast
      obtain ⟨next, hnext, hrest⟩ := Option.bind_eq_some_iff.mp hlast
      obtain ⟨context', hunwinds, hphase, hsame⟩ := ih (h.take hnext logger) hrest
      have hsettle : (turn.effect.settle fields context).phase = context.phase := by
        cases turn.effect with
        | sets id =>
            rw [Effect.settle]
            split <;> rfl
        | _ => rfl
      refine ⟨context', hunwinds, hphase.trans hsettle, fun hshielded => ?_⟩
      rw [hsame (hshielded.tail hnext)]
      cases heffect : turn.effect with
      | sets id => exact if_pos (hshielded [] turn rest id fields rfl heffect rfl)
      | _ => rfl

/-! ## The laws of runs -/

/-- The laws of the context over some turns. -/
structure ContextLaws (logger : String) (journal : Journal) (turns : List Turn) : Prop where
  /-- A turn that leaves the innermost scope gives its field back the value from just before the
  turn that opened the scope, and touches no other field. -/
  leave : ∀ field fields, fieldsAfter? [] turns = some (field :: fields) →
    ∃ before opening inner value, turns = before ++ opening :: inner ∧
      opening.effect = .opens field value ∧ fieldsAfter? [] before = some fields ∧
      Balanced inner ∧ ∀ leaving : Turn, leaving.effect = .leaves →
        (journal.after logger (turns ++ [leaving])).context.get field =
            (journal.after logger before).context.get field ∧
          ∀ other, other ≠ field → (journal.after logger (turns ++ [leaving])).context.get other =
            (journal.after logger turns).context.get other
  /-- Balanced turns end in the scopes and the phase they started from. -/
  scopes : Balanced turns → (journal.after logger turns).scopes = journal.scopes
  phase : Balanced turns → (journal.after logger turns).context.phase = journal.context.phase
  /-- They end with the identifier of the run they started from if they set it only inside scopes
  that bind it. -/
  runId : Balanced turns → Shielded [] turns →
    (journal.after logger turns).context.runId = journal.context.runId
  /-- An identifier that is set outside such scopes, in scopes that bind the phase at most, stays
  beyond them until the next one is. -/
  outlives : Balanced turns → ∀ front turn back id fields, turns = front ++ turn :: back →
    fieldsAfter? [] front = some fields → turn.effect = .sets id → .runId ∉ fields →
    Shielded fields back → (journal.after logger turns).context.runId = id

/-- The scopes after balanced turns are those from before, with the values to restore. -/
theorem Balanced.scopes_after (h : Balanced turns) (logger : String) (journal : Journal) :
    (journal.after logger turns).scopes = journal.scopes := by
  obtain ⟨context', hunwinds, -, -⟩ := (unwinds_self journal).after h logger
  exact hunwinds.eq_of_nil.1

/-- Leaving a scope after balanced turns undoes what opening it did to its field. -/
theorem restores_of_balanced {opening leaving : Turn} {inner : List Turn} {field : Field}
    {value : String} (hopening : opening.effect = .opens field value) (hinner : Balanced inner)
    (hleaving : leaving.effect = .leaves) (logger : String) (journal : Journal) :
    ((journal.after logger (opening :: inner)).take logger leaving).context =
      (journal.after logger (opening :: inner)).context.set field (journal.context.get field) := by
  obtain ⟨-, scope, rfl, hprevious, hpushed⟩ :=
    take_of_opens hopening logger journal
  have hscopes : (journal.after logger (opening :: inner)).scopes = scope :: journal.scopes := by
    rw [after_cons, hinner.scopes_after, hpushed]
  rw [(take_of_leaves hleaving hscopes logger).1, restore, hprevious]

/-- The laws hold of every run, from any journal on. -/
theorem after_contextLaws (logger : String) (journal : Journal) (turns : List Turn) :
    ContextLaws logger journal turns := by
  constructor
  case leave =>
    intro field fields hfields
    obtain ⟨before, opening, inner, value, rfl, hopening, hbefore, hinner⟩ :=
      exists_opening hfields
    refine ⟨before, opening, inner, value, rfl, hopening, hbefore, hinner, ?_⟩
    intro leaving hleaving
    have hcontext := restores_of_balanced hopening hinner hleaving logger
      (journal.after logger before)
    rw [after_append _ _ (before ++ opening :: inner), after_append, after_cons, after_nil,
      hcontext]
    exact ⟨get_set_self _ _ _, fun other hother => get_set_of_ne hother⟩
  case scopes =>
    intro hbalanced
    exact hbalanced.scopes_after logger journal
  case phase =>
    intro hbalanced
    obtain ⟨context', hunwinds, hphase, -⟩ := (unwinds_self journal).after hbalanced logger
    rw [hunwinds.eq_of_nil.2, hphase]
  case runId =>
    intro hbalanced hshielded
    obtain ⟨context', hunwinds, -, hsame⟩ := (unwinds_self journal).after hbalanced logger
    rw [hunwinds.eq_of_nil.2, hsame hshielded]
  case outlives =>
    rintro hbalanced front turn back id fields rfl hfront heffect hloose hshielded
    obtain ⟨context, hunwinds, -, -⟩ := (unwinds_self journal).after hfront logger
    have hfields : turn.effect.fields? fields = some fields := by
      rw [heffect]
      rfl
    have hback : fieldsAfter? fields back = some [] := by
      have hall := hbalanced
      rw [Balanced, fieldsAfter?_append, hfront, Option.bind_some, fieldsAfter?_cons,
        hfields] at hall
      exact hall
    obtain ⟨context', hend, -, hsame⟩ := (hunwinds.take hfields logger).after hback logger
    rw [after_append, after_cons, hend.eq_of_nil.2, hsame hshielded, heffect, Effect.settle,
      if_neg hloose]
    rfl

/-- What is set in a phase stays, and what is set in a run is gone with it. -/
example : (start.after "root" [⟨"", .enterPhase "extract"⟩, ⟨"", .setRun (some "a")⟩,
    ⟨"", .enterRun (some "b")⟩, ⟨"", .setRun (some "c")⟩, ⟨"", .leave⟩, ⟨"", .leave⟩]).context =
      ⟨"a", "-"⟩ := by
  decide

end Journal

end CrateAtlas
