import CrateAtlas.Project.Run
import Mathlib.Data.List.Perm.Basic
import Mathlib.Logic.Relation

/-!
# Interleavings of a run

A run hands its files to a pool of workers and collects their results, while a cancel signal may
be set at any time.  This file describes the run as a system of small steps: the main thread, the
workers and whoever sets the signal take steps in any order.

Main results:

- Theorem {lit}`Step.perm`: no step loses or doubles a file.
- Theorem {lit}`Reaches.sound`: what holds at each stage of every interleaving.
- Theorems {lit}`Step.rank_lt` and {lit}`exists_step`: every interleaving comes to an end, and it
  does so by stopping.
- Theorem {lit}`reaches_results`: taking turns is one of the interleavings.
-/

namespace CrateAtlas.ProjectRun

variable {α β : Type}

/-! ## Pools -/

/-- What the main thread does next: submit files, wait for a result, look at the signal after a
result, wait for the workers to go home, look at the signal for the last time, or nothing more. -/
inductive Phase (α : Type) where
  | submitting
  | collecting
  | checking
  | leaving
  | closing
  | stopped (outcome : Except Nat (List α))

/-- A run between two steps.  Each file is at one place: not submitted yet, in the queue of the
pool, with a worker, done but not collected, collected, or withdrawn from the queue. -/
structure Pool (α : Type) where
  waiting : List α
  queued : List α
  running : List α
  finished : List α
  collected : List α
  withdrawn : List α
  submitted : Nat
  cancelled : Bool
  phase : Phase α

namespace Pool

/-- The run before its first step. -/
def start (files : List α) : Pool α :=
  ⟨files, [], [], [], [], [], 0, false, .submitting⟩

/-- The files of a run, wherever they are. -/
def files (pool : Pool α) : List α :=
  pool.waiting ++ (pool.queued ++ (pool.running ++
    (pool.finished ++ (pool.collected ++ pool.withdrawn))))

/-- All files have been collected. -/
def Settled (pool : Pool α) : Prop :=
  pool.waiting = [] ∧ pool.queued = [] ∧ pool.running = [] ∧ pool.finished = [] ∧
    pool.withdrawn = []

end Pool

/-- One step of a run with a number of workers.  The signal is looked at by {lit}`submit`,
{lit}`submitNoMore`, {lit}`goOn`, {lit}`breakOff` and {lit}`stop`; between any two of them it may
be set, and it is never cleared. -/
inductive Step (workers : Nat) : Pool α → Pool α → Prop where
  | cancel {pool} :
      pool.cancelled = false → Step workers pool { pool with cancelled := true }
  | submit {pool file rest} :
      pool.phase = .submitting → pool.waiting = file :: rest → pool.cancelled = false →
      Step workers pool
        { pool with
          waiting := rest, queued := pool.queued ++ [file], submitted := pool.submitted + 1 }
  | submitNoMore {pool} :
      pool.phase = .submitting → pool.waiting = [] ∨ pool.cancelled = true →
      Step workers pool { pool with phase := .collecting }
  | start {pool file rest} :
      pool.queued = file :: rest → pool.running.length < workers →
      Step workers pool { pool with queued := rest, running := file :: pool.running }
  | finish {pool before file after} :
      pool.running = before ++ file :: after →
      Step workers pool
        { pool with running := before ++ after, finished := pool.finished ++ [file] }
  | collect {pool before file after} :
      pool.phase = .collecting → pool.finished = before ++ file :: after →
      Step workers pool
        { pool with
          finished := before ++ after, collected := pool.collected ++ [file], phase := .checking }
  | goOn {pool} :
      pool.phase = .checking → pool.cancelled = false →
      Step workers pool { pool with phase := .collecting }
  | breakOff {pool} :
      pool.phase = .checking → pool.cancelled = true →
      Step workers pool { pool with phase := .leaving }
  | collectNoMore {pool} :
      pool.phase = .collecting → pool.queued = [] → pool.running = [] → pool.finished = [] →
      Step workers pool { pool with phase := .leaving }
  | withdraw {pool before file after} :
      pool.phase = .leaving → pool.queued = before ++ file :: after →
      Step workers pool
        { pool with queued := before ++ after, withdrawn := pool.withdrawn ++ [file] }
  | leave {pool} :
      pool.phase = .leaving → pool.queued = [] → pool.running = [] →
      Step workers pool { pool with phase := .closing }
  | stop {pool} :
      pool.phase = .closing →
      Step workers pool
        { pool with
          phase := .stopped
            (if pool.cancelled then .error pool.collected.length else .ok pool.collected) }

/-- Some steps of a run, one after the other. -/
abbrev Reaches (workers : Nat) : Pool α → Pool α → Prop :=
  Relation.ReflTransGen (Step workers)

variable {workers : Nat} {pool pool' : Pool α} {files : List α}

/-! ## What steps keep -/

/-- No step loses or doubles a file. -/
theorem Step.perm (h : Step workers pool pool') : pool'.files.Perm pool.files := by
  classical
  rw [List.perm_iff_count]
  intro a
  cases h with
  | submit _ hwaiting _ =>
      simp only [Pool.files, hwaiting, List.count_append, List.count_cons, List.count_nil]
      omega
  | start hqueued _ =>
      simp only [Pool.files, hqueued, List.count_append, List.count_cons]
      omega
  | finish hrunning =>
      simp only [Pool.files, hrunning, List.count_append, List.count_cons, List.count_nil]
      omega
  | collect _ hfinished =>
      simp only [Pool.files, hfinished, List.count_append, List.count_cons, List.count_nil]
      omega
  | withdraw _ hqueued =>
      simp only [Pool.files, hqueued, List.count_append, List.count_cons, List.count_nil]
      omega
  | _ => rfl

/-- The number of files that were submitted. -/
theorem Step.submitted_eq (h : Step workers pool pool')
    (hpool : pool.submitted = pool.queued.length + pool.running.length + pool.finished.length +
      pool.collected.length + pool.withdrawn.length) :
    pool'.submitted = pool'.queued.length + pool'.running.length + pool'.finished.length +
      pool'.collected.length + pool'.withdrawn.length := by
  cases h with
  | submit _ hwaiting _ =>
      simp only [List.length_append, List.length_singleton]
      omega
  | start hqueued _ =>
      simp only [hqueued, List.length_cons] at hpool ⊢
      omega
  | finish hrunning =>
      simp only [hrunning, List.length_append, List.length_cons, List.length_nil] at hpool ⊢
      omega
  | collect _ hfinished =>
      simp only [hfinished, List.length_append, List.length_cons, List.length_nil] at hpool ⊢
      omega
  | withdraw _ hqueued =>
      simp only [hqueued, List.length_append, List.length_cons, List.length_nil] at hpool ⊢
      omega
  | _ => exact hpool

/-- What holds of a run at each stage.  Files are withdrawn only after the run was broken off, and
as long as the signal is not set the main thread leaves nothing behind. -/
def Pool.Staged (pool : Pool α) : Prop :=
  match pool.phase with
  | .submitting => pool.withdrawn = []
  | .collecting | .checking => pool.withdrawn = [] ∧ (pool.cancelled = false → pool.waiting = [])
  | .leaving | .closing => pool.cancelled = false → pool.Settled
  | .stopped outcome =>
      pool.cancelled = true ∧ outcome = .error pool.collected.length ∨
        outcome = .ok pool.collected ∧ pool.Settled

theorem Step.staged (h : Step workers pool pool') (hpool : pool.Staged) : pool'.Staged := by
  unfold Pool.Staged at hpool ⊢
  cases h with
  | cancel hcancelled =>
      cases hphase : pool.phase <;> simp_all [Pool.Settled]
  | submit hsubmitting _ _ => simpa only [hsubmitting] using hpool
  | submitNoMore hsubmitting hdone =>
      simp only [hsubmitting] at hpool
      refine ⟨hpool, ?_⟩
      intro (hclear : pool.cancelled = false)
      rcases hdone with hdone | hset
      · exact hdone
      · rw [hclear] at hset
        contradiction
  | start hqueued _ =>
      cases hphase : pool.phase <;> simp_all [Pool.Settled]
  | finish hrunning =>
      cases hphase : pool.phase <;> simp_all [Pool.Settled]
  | collect hcollecting _ => simpa only [hcollecting] using hpool
  | goOn hchecking _ => simpa only [hchecking] using hpool
  | breakOff _ hcancelled => simp [hcancelled]
  | collectNoMore hcollecting hqueued hrunning hfinished =>
      simp only [hcollecting] at hpool
      intro hcancelled
      exact ⟨hpool.2 hcancelled, hqueued, hrunning, hfinished, hpool.1⟩
  | withdraw hleaving hqueued =>
      simp only [hleaving] at hpool ⊢
      intro hcancelled
      simp [(hpool hcancelled).2.1] at hqueued
  | leave hleaving _ _ =>
      simp only [hleaving] at hpool
      exact hpool
  | stop hclosing =>
      simp only [hclosing] at hpool ⊢
      cases hcancelled : pool.cancelled with
      | false => exact .inr ⟨by simp, hpool hcancelled⟩
      | true => exact .inl ⟨rfl, by simp⟩

/-- What holds of every interleaving of a run over some files. -/
structure Pool.Sound (files : List α) (pool : Pool α) : Prop where
  perm : pool.files.Perm files
  submitted_eq : pool.submitted = pool.queued.length + pool.running.length +
    pool.finished.length + pool.collected.length + pool.withdrawn.length
  staged : pool.Staged

theorem Reaches.sound (h : Reaches workers (.start files) pool) : pool.Sound files := by
  induction h with
  | refl => exact ⟨by simp [Pool.files, Pool.start], rfl, rfl⟩
  | tail _ hstep ih =>
      exact ⟨hstep.perm.trans ih.perm, hstep.submitted_eq ih.submitted_eq, hstep.staged ih.staged⟩

/-- A run that has stopped was cancelled, after collecting no more results than it had submitted
files, or it has collected the results of all its files. -/
theorem Pool.Sound.stopped (h : pool.Sound files) {outcome : Except Nat (List α)}
    (hstopped : pool.phase = .stopped outcome) :
    (pool.cancelled = true ∧ outcome = .error pool.collected.length ∧
      pool.collected.length ≤ pool.submitted) ∨
    (outcome = .ok pool.collected ∧ pool.collected.Perm files) := by
  have hstaged := h.staged
  simp only [Pool.Staged, hstopped] at hstaged
  rcases hstaged with ⟨hcancelled, houtcome⟩ |
    ⟨houtcome, hwaiting, hqueued, hrunning, hfinished, hwithdrawn⟩
  · have hsubmitted := h.submitted_eq
    exact .inl ⟨hcancelled, houtcome, by omega⟩
  · have hperm := h.perm
    simp only [Pool.files, hwaiting, hqueued, hrunning, hfinished, hwithdrawn, List.nil_append,
      List.append_nil] at hperm
    exact .inr ⟨houtcome, hperm⟩

/-! ## Every interleaving ends -/

/-- How far a phase is from the end; after a result was collected the main thread goes back to
waiting for the next one. -/
def Phase.rank : Phase α → Nat
  | .submitting => 4
  | .checking => 4
  | .collecting => 3
  | .leaving => 2
  | .closing => 1
  | .stopped _ => 0

/-- A bound on the number of steps that are left. -/
def Pool.rank (pool : Pool α) : Nat :=
  5 * pool.waiting.length + 4 * pool.queued.length + 3 * pool.running.length +
    2 * pool.finished.length + pool.phase.rank + (if pool.cancelled then 0 else 1)

theorem Step.rank_lt (h : Step workers pool pool') : pool'.rank < pool.rank := by
  unfold Pool.rank
  cases h with
  | cancel hcancelled => simp [hcancelled]
  | submit _ hwaiting _ =>
      simp only [hwaiting, List.length_append, List.length_cons, List.length_nil]
      omega
  | start hqueued _ =>
      simp only [hqueued, List.length_cons]
      omega
  | finish hrunning =>
      simp only [hrunning, List.length_append, List.length_cons, List.length_nil]
      omega
  | collect hphase hfinished =>
      simp only [hphase, hfinished, Phase.rank, List.length_append, List.length_cons]
      omega
  | withdraw _ hqueued =>
      simp only [hqueued, List.length_append, List.length_cons]
      omega
  | submitNoMore hphase _ => simp [hphase, Phase.rank]
  | goOn hphase _ => simp [hphase, Phase.rank]
  | breakOff hphase _ => simp [hphase, Phase.rank]
  | collectNoMore hphase _ _ _ => simp [hphase, Phase.rank]
  | leave hphase _ _ => simp [hphase, Phase.rank]
  | stop hphase => simp [hphase, Phase.rank]

/-- No interleaving goes on for ever. -/
theorem wellFounded_step (workers : Nat) :
    WellFounded fun pool' pool : Pool α => Step workers pool pool' :=
  Subrelation.wf Step.rank_lt (measure Pool.rank).wf

/-- With at least one worker, a run that has not stopped can go on. -/
theorem exists_step (hworkers : 0 < workers) (pool : Pool α)
    (hrunning : ∀ outcome, pool.phase ≠ .stopped outcome) : ∃ pool', Step workers pool pool' := by
  by_cases hbusy : pool.running = []
  · cases hqueued : pool.queued with
    | cons file rest => exact ⟨_, .start hqueued (by simpa [hbusy] using hworkers)⟩
    | nil =>
        cases hphase : pool.phase with
        | submitting =>
            cases hcancelled : pool.cancelled with
            | true => exact ⟨_, .submitNoMore hphase (.inr hcancelled)⟩
            | false =>
                cases hwaiting : pool.waiting with
                | nil => exact ⟨_, .submitNoMore hphase (.inl hwaiting)⟩
                | cons file rest => exact ⟨_, .submit hphase hwaiting hcancelled⟩
        | collecting =>
            cases hfinished : pool.finished with
            | nil => exact ⟨_, .collectNoMore hphase hqueued hbusy hfinished⟩
            | cons file rest =>
                exact ⟨_, .collect hphase (hfinished.trans (List.nil_append _).symm)⟩
        | checking =>
            cases hcancelled : pool.cancelled with
            | true => exact ⟨_, .breakOff hphase hcancelled⟩
            | false => exact ⟨_, .goOn hphase hcancelled⟩
        | leaving => exact ⟨_, .leave hphase hqueued hbusy⟩
        | closing => exact ⟨_, .stop hphase⟩
        | stopped outcome => exact absurd hphase (hrunning outcome)
  · obtain ⟨file, rest, hfile⟩ := List.exists_cons_of_ne_nil hbusy
    exact ⟨_, .finish (hfile.trans (List.nil_append _).symm)⟩

/-! ## Taking turns -/

/-- A signal that is never cleared. -/
def Signal.Stays (signal : Signal) : Prop :=
  ∀ look later, look ≤ later → signal look = true → signal later = true

variable {signal : Signal}

/-- The signal may be set before it is looked at. -/
theorem reaches_look (workers : Nat) (pool : Pool α) {set : Bool}
    (h : pool.cancelled = true → set = true) :
    Reaches workers pool { pool with cancelled := set } := by
  cases hcancelled : pool.cancelled with
  | true =>
      rw [h hcancelled, ← hcancelled]
  | false =>
      cases set with
      | true => exact .single (.cancel hcancelled)
      | false => rw [← hcancelled]

/-- The main thread submits the files that are handed out. -/
theorem reaches_handOut (workers : Nat) (hsignal : signal.Stays) (files : List α) :
    ∀ look queued submitted set, (set = true → signal look = true) →
      ∃ rest set', (set' = true → signal (handOut signal look files).2 = true) ∧
        Reaches workers ⟨files, queued, [], [], [], [], submitted, set, .submitting⟩
          ⟨rest, queued ++ (handOut signal look files).1, [], [], [], [],
            submitted + (handOut signal look files).1.length, set', .collecting⟩ := by
  induction files with
  | nil =>
      intro look queued submitted set hset
      refine ⟨[], set, hset, ?_⟩
      simp only [handOut, List.append_nil, List.length_nil, Nat.add_zero]
      exact .single (.submitNoMore rfl (.inl rfl))
  | cons file rest ih =>
      intro look queued submitted set hset
      have hlook := reaches_look workers
        ⟨file :: rest, queued, [], [], [], [], submitted, set, .submitting⟩ hset
      cases hanswer : signal look with
      | true =>
          refine ⟨file :: rest, true, ?_, ?_⟩
          · intro _
            simp only [handOut, hanswer, if_true]
            exact hsignal look (look + 1) (Nat.le_succ look) hanswer
          · simp only [handOut, hanswer, if_true, List.append_nil, List.length_nil, Nat.add_zero]
            rw [hanswer] at hlook
            exact hlook.tail (.submitNoMore rfl (.inr rfl))
      | false =>
          rw [hanswer] at hlook
          obtain ⟨left, set', hset', hreaches⟩ :=
            ih (look + 1) (queued ++ [file]) (submitted + 1) false (by simp)
          refine ⟨left, set', ?_, ?_⟩
          · simpa [handOut, hanswer] using hset'
          · refine (hlook.tail (.submit rfl rfl rfl)).trans ?_
            simpa [handOut, hanswer, Nat.add_comm, Nat.add_assoc] using hreaches

/-- A run that is broken off withdraws what is still in the queue and waits for nobody. -/
theorem reaches_closing (workers : Nat) (queued : List α) :
    ∀ waiting collected withdrawn submitted set, ∃ withdrawn',
      Reaches workers ⟨waiting, queued, [], [], collected, withdrawn, submitted, set, .leaving⟩
        ⟨waiting, [], [], [], collected, withdrawn', submitted, set, .closing⟩ := by
  induction queued with
  | nil =>
      intro waiting collected withdrawn submitted set
      exact ⟨withdrawn, .single (.leave rfl rfl rfl)⟩
  | cons file rest ih =>
      intro waiting collected withdrawn submitted set
      obtain ⟨withdrawn', hreaches⟩ := ih waiting collected (withdrawn ++ [file]) submitted set
      exact ⟨withdrawn', .head (.withdraw rfl (List.nil_append _).symm) hreaches⟩

/-- Each file in the queue is started, finished and collected before the next one. -/
theorem reaches_collect (hworkers : 0 < workers) (hsignal : signal.Stays) (queued : List α) :
    ∀ look waiting collected submitted set, (set = true → signal look = true) →
      ∃ withdrawn set', (set' = true → signal (collect signal look queued).2 = true) ∧
        Reaches workers ⟨waiting, queued, [], [], collected, [], submitted, set, .collecting⟩
          ⟨waiting, [], [], [], collected ++ (collect signal look queued).1, withdrawn, submitted,
            set', .closing⟩ := by
  induction queued with
  | nil =>
      intro look waiting collected submitted set hset
      refine ⟨[], set, hset, ?_⟩
      simp only [collect, List.append_nil]
      exact .head (.collectNoMore rfl rfl rfl rfl) (.single (.leave rfl rfl rfl))
  | cons file rest ih =>
      intro look waiting collected submitted set hset
      -- One turn of a worker: the file is started, finished and collected.
      have hturn : Reaches workers
          ⟨waiting, file :: rest, [], [], collected, [], submitted, set, .collecting⟩
          ⟨waiting, rest, [], [], collected ++ [file], [], submitted, set, .checking⟩ := by
        have hstart : Step workers
            ⟨waiting, file :: rest, [], [], collected, [], submitted, set, .collecting⟩
            ⟨waiting, rest, [file], [], collected, [], submitted, set, .collecting⟩ :=
          .start rfl hworkers
        have hfinish : Step workers
            ⟨waiting, rest, [file], [], collected, [], submitted, set, .collecting⟩
            ⟨waiting, rest, [], [file], collected, [], submitted, set, .collecting⟩ :=
          @Step.finish _ _ _ [] file [] rfl
        have hcollect : Step workers
            ⟨waiting, rest, [], [file], collected, [], submitted, set, .collecting⟩
            ⟨waiting, rest, [], [], collected ++ [file], [], submitted, set, .checking⟩ :=
          @Step.collect _ _ _ [] file [] rfl rfl
        exact ((Relation.ReflTransGen.single hstart).tail hfinish).tail hcollect
      have hlook := reaches_look workers
        ⟨waiting, rest, [], [], collected ++ [file], [], submitted, set, .checking⟩ hset
      cases hanswer : signal look with
      | true =>
          rw [hanswer] at hlook
          obtain ⟨withdrawn, hclosing⟩ :=
            reaches_closing workers rest waiting (collected ++ [file]) [] submitted true
          refine ⟨withdrawn, true, ?_, ?_⟩
          · intro _
            simp only [collect, hanswer, if_true]
            exact hsignal look (look + 1) (Nat.le_succ look) hanswer
          · simp only [collect, hanswer, if_true]
            exact (hturn.trans (hlook.tail (.breakOff rfl rfl))).trans hclosing
      | false =>
          rw [hanswer] at hlook
          obtain ⟨withdrawn, set', hset', hreaches⟩ :=
            ih (look + 1) waiting (collected ++ [file]) submitted false (by simp)
          refine ⟨withdrawn, set', ?_, ?_⟩
          · simpa [collect, hanswer] using hset'
          · refine (hturn.trans (hlook.tail (.goOn rfl rfl))).trans ?_
            simpa [collect, hanswer] using hreaches

/-- Collecting results is collecting the files that they are of. -/
theorem collect_map (process : α → β) (files : List α) :
    ∀ look, collect signal look (files.map process) =
      ((collect signal look files).1.map process, (collect signal look files).2) := by
  induction files with
  | nil =>
      intro look
      rfl
  | cons file rest ih =>
      intro look
      rw [List.map_cons, collect, collect]
      split
      · rfl
      · rw [ih (look + 1)]
        rfl

/-- The results of a run are the results of the files that it collects. -/
theorem results_map (signal : Signal) (process : α → β) (files : List α) :
    results signal (List.map process) files =
      (results signal id files).map (List.map process) := by
  simp only [results, collect_map, id_eq]
  split
  · simp [Except.map]
  · rfl

/-- Taking turns is one of the interleavings, if the signal is never cleared. -/
theorem reaches_results (hworkers : 0 < workers) (hsignal : signal.Stays) (files : List α) :
    ∃ pool, Reaches workers (.start files) pool ∧
      pool.phase = .stopped (results signal id files) := by
  obtain ⟨rest, set, hset, hsubmitted⟩ :=
    reaches_handOut workers hsignal files 0 [] 0 false (by simp)
  obtain ⟨withdrawn, set', hset', hcollected⟩ :=
    reaches_collect hworkers hsignal (handOut signal 0 files).1 (handOut signal 0 files).2 rest []
      (0 + (handOut signal 0 files).1.length) set hset
  -- The last look at the signal decides how the run stops.
  exact ⟨_, ((hsubmitted.trans hcollected).trans
    (reaches_look workers ⟨_, _, _, _, _, _, _, set', _⟩ hset')).tail (.stop rfl), rfl⟩

end CrateAtlas.ProjectRun
