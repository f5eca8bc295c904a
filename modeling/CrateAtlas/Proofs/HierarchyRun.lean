import CrateAtlas.Proofs.Placement

/-!
# Runs of a hierarchy

Steps on a hierarchy may come in any order, with any names, segments and owners, and some of them
are refused.  A history notes for each step which scopes were open and what the answer was.  What
a single step adds to the history and to the state stays in balance, and from that follow the laws
of whole runs.

Main results:

- Theorem {lit}`Recorded.step`: the state and the placements made so far stay in balance over one
  step.
- Theorem {lit}`Recorded.after`: so they do over any run.
- Theorem {lit}`Balanced.foldl_opens`: steps that close the scopes they open leave the open scopes
  as they were.
- Theorem {lit}`complete_placeAll`: the elements of a file are completed in this way.
- Theorem {lit}`runLaws`: ordinals, refusals, scopes and children over any run.
-/

namespace CrateAtlas.Hierarchy

/-! ## Histories -/

/-- A step that was taken: the scopes open before it, and what it answered. -/
structure Event where
  scopes : List Frame
  step : Step
  answer : Except Fault Answer

/-- An identifier that was handed out, and the owner of the scope that was innermost then. -/
structure Handout where
  owner : Option String
  id : String

/-- What a step handed out. -/
def Event.handout? (event : Event) : Option Handout :=
  match event.answer with
  | .ok (.placed placement) => some ⟨event.scopes.head?.map Frame.owner, placement.id⟩
  | _ => none

/-- The link that an identifier leaves in the table of children. -/
def Handout.link? (handout : Handout) : Option (String × String) :=
  handout.owner.map fun owner => (owner, handout.id)

namespace Run

/-- The run after several steps. -/
def after (run : Run) (steps : List Step) : Run :=
  steps.foldl (fun run step => (run.step step).2) run

/-- What several steps do, one after the other. -/
def history (run : Run) : List Step → List Event
  | [] => []
  | step :: rest =>
      ⟨run.hierarchy.frames, step, (run.step step).1⟩ :: (run.step step).2.history rest

/-- What several steps hand out, in order. -/
def handouts (run : Run) (steps : List Step) : List Handout :=
  (run.history steps).filterMap Event.handout?

@[simp]
theorem after_nil (run : Run) : run.after [] = run :=
  rfl

@[simp]
theorem after_cons (run : Run) (step : Step) (rest : List Step) :
    run.after (step :: rest) = (run.step step).2.after rest :=
  rfl

@[simp]
theorem handouts_nil (run : Run) : run.handouts [] = [] :=
  rfl

theorem handouts_cons (run : Run) (step : Step) (rest : List Step) :
    run.handouts (step :: rest) =
      (Event.handout? ⟨run.hierarchy.frames, step, (run.step step).1⟩).toList ++
        (run.step step).2.handouts rest := by
  unfold handouts
  rw [history, List.filterMap_cons]
  split <;> rename_i h <;> rw [h] <;> rfl

end Run

/-! ## Single steps -/

variable {run : Run} {fault : Fault}

/-- Closing a scope is refused exactly when none is open. -/
theorem step_exit_eq_error_iff :
    (run.step .exit).1 = .error fault ↔ fault = .noOpenScope ∧ run.hierarchy.frames = [] := by
  unfold Run.step exit
  cases hframes : run.hierarchy.frames with
  | nil =>
      have hempty : ([] : List Frame).isEmpty = true := rfl
      simp only [hempty, if_true, Except.error.injEq, and_true]
      exact eq_comm
  | cons frame rest => simp

/-- The children are refused exactly when a scope is open. -/
theorem step_finish_eq_error_iff :
    (run.step .finish).1 = .error fault ↔
      fault = .scopesOpen run.hierarchy.frames.length run.hierarchy.filePath ∧
        run.hierarchy.frames ≠ [] := by
  unfold Run.step finish
  cases hframes : run.hierarchy.frames with
  | nil => simp [Except.map]
  | cons frame rest =>
      simp only [List.isEmpty_cons, Bool.false_eq_true, if_false, Except.map, Except.error.injEq,
        ne_eq, List.cons_ne_nil, not_false_eq_true, and_true]
      exact eq_comm

/-- A step that is refused changes nothing. -/
theorem step_of_error {step : Step} (h : (run.step step).1 = .error fault) :
    (run.step step).2 = run := by
  cases step with
  | place kind name => cases h
  | enter segment owner => cases h
  | scopedFailure segment owner => cases h
  | children owner => cases h
  | finish => rfl
  | exit =>
      obtain ⟨-, hframes⟩ := step_exit_eq_error_iff.mp h
      simp [Run.step, exit, hframes]

/-- A scope whose block fails at once leaves everything as it was. -/
theorem step_scopedFailure (segment owner : String) :
    (run.step (.scopedFailure segment owner)).2 = run :=
  rfl

/-! ## What a run has recorded -/

/-- The state of a run in which the given identifiers were handed out. -/
structure Recorded (filePath : String) (run : Run) (handouts : List Handout) : Prop where
  filePath_eq : run.hierarchy.filePath = filePath
  placed_eq : run.hierarchy.placed = handouts.length
  links_eq : run.hierarchy.links = handouts.filterMap Handout.link?
  ids_eq : run.ids = handouts.map Handout.id
  ordinal : ∀ k handout, handouts[k]? = some handout → ∃ (kind : Kind) (qualifiedName : String),
    handout.id = ElementId.render ⟨filePath, kind.label, qualifiedName, k + 1⟩

variable {filePath : String} {handouts : List Handout}

theorem recorded_start (filePath : String) : Recorded filePath (.start filePath) [] := by
  refine ⟨rfl, rfl, rfl, rfl, ?_⟩
  intro k handout hk
  simp at hk

/-- Opening and closing scopes records nothing. -/
theorem Recorded.frames (h : Recorded filePath run handouts) (frames : List Frame) :
    Recorded filePath { run with hierarchy := { run.hierarchy with frames := frames } } handouts :=
  ⟨h.filePath_eq, h.placed_eq, h.links_eq, h.ids_eq, h.ordinal⟩

/-- Placing an element records its identifier with the next ordinal. -/
theorem Recorded.place (h : Recorded filePath run handouts) (kind : Kind) (name : String) :
    Recorded filePath (run.step (.place kind name)).2
      (handouts ++ [⟨run.hierarchy.parent?, (run.hierarchy.next kind name).id⟩]) := by
  refine ⟨h.filePath_eq, ?_, ?_, ?_, ?_⟩
  · show run.hierarchy.placed + 1 = _
    rw [h.placed_eq, List.length_append]
    rfl
  · show (run.hierarchy.place kind name).links = _
    rw [place_links, h.links_eq, List.filterMap_append]
    rfl
  · show run.ids ++ [(run.hierarchy.next kind name).id] = _
    rw [h.ids_eq, List.map_append]
    rfl
  · intro k handout hk
    rcases Nat.lt_trichotomy k handouts.length with hlt | heq | hgt
    · rw [List.getElem?_append_left hlt] at hk
      exact h.ordinal k handout hk
    · subst heq
      rw [List.getElem?_append_right (Nat.le_refl _)] at hk
      have hhandout := Option.some.inj
        ((show some _ = some handout by simpa using hk))
      subst hhandout
      refine ⟨kind, (run.hierarchy.next kind name).qualifiedName, ?_⟩
      rw [next_id, h.filePath_eq, h.placed_eq]
    · rw [List.getElem?_eq_none (by simp; omega)] at hk
      contradiction

/-- Steps other than placing change at most the open scopes, and hand nothing out. -/
theorem step_of_ne_place (run : Run) {step : Step} (h : ∀ kind name, step ≠ .place kind name) :
    (∃ frames, (run.step step).2 =
      { run with hierarchy := { run.hierarchy with frames := frames } }) ∧
      Event.handout? ⟨run.hierarchy.frames, step, (run.step step).1⟩ = none := by
  cases step with
  | place kind name => exact (h kind name rfl).elim
  | enter segment owner => exact ⟨⟨_, rfl⟩, rfl⟩
  | scopedFailure segment owner => exact ⟨⟨_, rfl⟩, rfl⟩
  | children owner => exact ⟨⟨_, rfl⟩, rfl⟩
  | finish =>
      refine ⟨⟨_, rfl⟩, ?_⟩
      unfold Event.handout? Run.step finish
      cases run.hierarchy.frames <;> rfl
  | exit =>
      unfold Event.handout? Run.step exit
      cases hframes : run.hierarchy.frames with
      | nil => exact ⟨⟨run.hierarchy.frames, rfl⟩, rfl⟩
      | cons frame rest => exact ⟨⟨_, rfl⟩, rfl⟩

/-- The state and the identifiers handed out stay in balance over one step. -/
theorem Recorded.step (h : Recorded filePath run handouts) (step : Step) :
    Recorded filePath (run.step step).2 (handouts ++
      (Event.handout? ⟨run.hierarchy.frames, step, (run.step step).1⟩).toList) := by
  by_cases hplace : ∃ kind name, step = .place kind name
  · obtain ⟨kind, name, rfl⟩ := hplace
    exact h.place kind name
  · obtain ⟨⟨frames, hstep⟩, hnone⟩ := step_of_ne_place run
      fun kind name heq => hplace ⟨kind, name, heq⟩
    rw [hstep, hnone, Option.toList_none, List.append_nil]
    exact h.frames frames

/-- They stay in balance over any run. -/
theorem Recorded.after (steps : List Step) :
    ∀ {run : Run} {handouts : List Handout}, Recorded filePath run handouts →
      Recorded filePath (run.after steps) (handouts ++ run.handouts steps) := by
  induction steps with
  | nil =>
      intro run handouts h
      rw [Run.after_nil, Run.handouts_nil, List.append_nil]
      exact h
  | cons step rest ih =>
      intro run handouts h
      rw [Run.after_cons, Run.handouts_cons, ← List.append_assoc]
      exact ih (h.step step)

/-! ## Open scopes -/

/-- What a step does to the open scopes, innermost first. -/
def Step.opens (frames : List Frame) : Step → List Frame
  | .enter segment owner => ⟨segment, owner⟩ :: frames
  | .exit => frames.tail
  | _ => frames

/-- The open scopes follow from the steps alone. -/
theorem frames_step (run : Run) (step : Step) :
    (run.step step).2.hierarchy.frames = step.opens run.hierarchy.frames := by
  cases step with
  | exit =>
      unfold Run.step exit
      cases hframes : run.hierarchy.frames with
      | nil => simp [hframes, Step.opens]
      | cons frame rest => simp [hframes, Step.opens, close]
  | _ => rfl

theorem frames_after (steps : List Step) :
    ∀ run : Run, (run.after steps).hierarchy.frames =
      steps.foldl Step.opens run.hierarchy.frames := by
  induction steps with
  | nil =>
      intro run
      rfl
  | cons step rest ih =>
      intro run
      rw [Run.after_cons, ih, frames_step, List.foldl_cons]

/-- Steps that close every scope they open, and no other. -/
inductive Balanced : List Step → Prop where
  | nil : Balanced []
  | cons {step rest} : (∀ frames, step.opens frames = frames) → Balanced rest →
      Balanced (step :: rest)
  | scope {segment owner inner rest} : Balanced inner → Balanced rest →
      Balanced (.enter segment owner :: (inner ++ .exit :: rest))

/-- Balanced steps leave the open scopes as they were. -/
theorem Balanced.foldl_opens {steps : List Step} (h : Balanced steps) :
    ∀ frames, steps.foldl Step.opens frames = frames := by
  induction h with
  | nil =>
      intro frames
      rfl
  | cons hstep _ ih =>
      intro frames
      rw [List.foldl_cons, hstep, ih]
  | @scope segment owner _ _ _ _ ihInner ihRest =>
      intro frames
      have hopen : Step.opens frames (.enter segment owner) = ⟨segment, owner⟩ :: frames := rfl
      have hclose : Step.opens (⟨segment, owner⟩ :: frames) .exit = frames := rfl
      rw [List.foldl_cons, List.foldl_append, hopen, ihInner, List.foldl_cons, hclose, ihRest]

/-- A scope whose block fails is closed on the way out: if the block closed the scopes that it
opened, the open scopes are those from before. -/
theorem exit_after_balanced {block : List Step} (h : Balanced block) (run : Run)
    (segment owner : String) :
    ∃ last : Run, ((run.after (.enter segment owner :: block)).step .exit) = (.ok .done, last) ∧
      last.hierarchy.frames = run.hierarchy.frames := by
  have hframes : (run.after (.enter segment owner :: block)).hierarchy.frames =
      ⟨segment, owner⟩ :: run.hierarchy.frames := by
    rw [Run.after_cons, frames_after, h.foldl_opens]
    rfl
  generalize run.after (.enter segment owner :: block) = inside at hframes
  refine ⟨{ inside with hierarchy := inside.hierarchy.close }, ?_, ?_⟩
  · simp [Run.step, exit, hframes]
  · simp [close, hframes]

/-! ## Completed elements -/

variable {h : Hierarchy} {elements done : List Element}

/-- Completing elements is refused exactly when a scope is open. -/
theorem complete_eq_error_iff :
    h.complete elements = .error fault ↔
      fault = .scopesOpen h.frames.length h.filePath ∧ h.frames ≠ [] := by
  unfold complete
  cases hframes : h.frames with
  | nil => simp
  | cons frame rest =>
      simp only [List.isEmpty_cons, Bool.false_eq_true, if_false, Except.error.injEq, ne_eq,
        List.cons_ne_nil, not_false_eq_true, and_true]
      exact eq_comm

/-- Completed elements are complete. -/
theorem complete_of_complete (hdone : h.complete elements = .ok done) :
    h.complete done = .ok done := by
  unfold complete at hdone ⊢
  split at hdone <;> rename_i hframes
  · rw [if_pos hframes]
    rw [Except.ok.injEq] at hdone ⊢
    subst hdone
    rw [List.map_map]
    apply List.map_congr_left
    intro element _
    cases hchildren : h.childrenOf element.id with
    | nil => simp [hchildren]
    | cons id ids =>
        have hid : ({ element with childrenIds := id :: ids } : Element).id = element.id := rfl
        simp [hchildren, hid]
  · cases hdone

/-- The children that a run answers in the end are those of its completed elements. -/
theorem finish_eq_complete (hfresh : ∀ element ∈ elements, element.childrenIds = []) :
    h.finish (elements.map Element.id) =
      (h.complete elements).map fun done => done.map fun element =>
        (element.id, element.childrenIds) := by
  unfold finish complete
  split
  · simp only [Except.map, Except.ok.injEq, List.map_map]
    apply List.map_congr_left
    intro element helement
    simp only [Function.comp_apply]
    cases hchildren : h.childrenOf element.id with
    | nil => rw [hfresh element helement]
    | cons id ids => rfl
  · rfl

/-- The elements of a forest are those placed in it, completed at the end of the file. -/
theorem complete_placeAll (filePath : String) (declarations : List Declaration) :
    (Declaration.placeAll (.start filePath) declarations).2.complete
        ((Declaration.placeAll (.start filePath) declarations).1.map
          (Declaration.elementOf fun _ => [])) =
      .ok (Declaration.elements filePath declarations) := by
  have hframes := (Declaration.placeAll_advances declarations (.start filePath)).frames_eq
  rw [complete, hframes, Declaration.elements_eq]
  show Except.ok _ = _
  rw [List.map_map]
  congr 1
  apply List.map_congr_left
  intro placed _
  unfold Function.comp Declaration.elementOf
  simp only [Element.id]
  cases (Declaration.placeAll (.start filePath) declarations).2.childrenOf placed.2.id <;> rfl

/-! ## The laws of runs -/

/-- The laws of a run from the start of a file. -/
structure RunLaws (filePath : String) (steps : List Step) (run : Run)
    (handouts : List Handout) : Prop where
  /-- An element can always be placed, and its ordinal says how many were placed before it. -/
  place : ∀ kind name, ∃ placement,
    (run.step (.place kind name)).1 = .ok (.placed placement) ∧
      placement.parentId = run.hierarchy.parent? ∧
      ElementId.create filePath kind.label placement.qualifiedName
        (handouts.length + 1 : Nat) = .ok placement.id
  /-- The identifiers handed out carry consecutive ordinals from one on. -/
  ordinal : ∀ k handout, handouts[k]? = some handout → ∃ (kind : Kind) (qualifiedName : String),
    ElementId.create filePath kind.label qualifiedName (k + 1 : Nat) = .ok handout.id
  ids_nodup : (handouts.map Handout.id).Nodup
  /-- The open scopes are those that steps opened and did not close since. -/
  frames_eq : run.hierarchy.frames = steps.foldl Step.opens []
  exit_refused : ∀ fault, (run.step .exit).1 = .error fault ↔
    fault = .noOpenScope ∧ run.hierarchy.frames = []
  finish_refused : ∀ fault, (run.step .finish).1 = .error fault ↔
    fault = .scopesOpen run.hierarchy.frames.length filePath ∧ run.hierarchy.frames ≠ []
  /-- A step that is refused changes nothing. -/
  refused : ∀ step fault, (run.step step).1 = .error fault → (run.step step).2 = run
  /-- A scope whose block fails is closed again, whatever balanced steps the block took. -/
  scope_failure : ∀ segment owner,
    (run.step (.scopedFailure segment owner)).2 = run ∧
      ∀ block, Balanced block → ∃ last : Run,
        (run.after (.enter segment owner :: block)).step .exit = (.ok .done, last) ∧
          last.hierarchy.frames = run.hierarchy.frames
  /-- The children of an owner are the identifiers handed out while it owned the innermost
  scope. -/
  children : ∀ owner, run.step (.children owner) =
    (.ok (.children ((handouts.filter fun handout => handout.owner = some owner).map Handout.id)),
      run)
  /-- An identifier is a child of the owner of the scope it was placed in, once, and of no other;
  one that was placed in no scope is no child at all. -/
  child_iff : ∀ handout ∈ handouts, ∀ owner,
    (run.hierarchy.childrenOf owner).count handout.id = if handout.owner = some owner then 1 else 0
  /-- Elements are completed exactly when no scope is open, and completed once and for all. -/
  complete_refused : ∀ elements fault, run.hierarchy.complete elements = .error fault ↔
    fault = .scopesOpen run.hierarchy.frames.length filePath ∧ run.hierarchy.frames ≠ []
  complete_idempotent : ∀ elements done, run.hierarchy.complete elements = .ok done →
    run.hierarchy.complete done = .ok done
  /-- The last step answers the children of completed elements, and answers the same again. -/
  finish : run.step .finish = ((run.hierarchy.finish run.ids).map .finished, run) ∧
    ∀ elements : List Element, elements.map Element.id = handouts.map Handout.id →
      (∀ element ∈ elements, element.childrenIds = []) →
      run.hierarchy.finish run.ids = (run.hierarchy.complete elements).map fun done =>
        done.map fun element => (element.id, element.childrenIds)

namespace Recorded

/-- No identifier is handed out twice. -/
theorem nodup (h : Recorded filePath run handouts) : (handouts.map Handout.id).Nodup := by
  rw [List.Nodup, List.pairwise_map, List.pairwise_iff_getElem]
  intro i j hi hj hij heq
  obtain ⟨kind, name, hid⟩ := h.ordinal i _ (List.getElem?_eq_getElem hi)
  obtain ⟨kind', name', hid'⟩ := h.ordinal j _ (List.getElem?_eq_getElem hj)
  rw [hid, hid'] at heq
  have hordinal : i + 1 = j + 1 := ElementId.ordinal_eq_of_render_eq heq
  omega

/-- The table of children lists the identifiers handed out under an owner. -/
theorem childrenOf_eq (h : Recorded filePath run handouts) (owner : String) :
    run.hierarchy.childrenOf owner =
      (handouts.filter fun handout => handout.owner = some owner).map Handout.id := by
  unfold childrenOf
  rw [h.links_eq]
  clear h
  induction handouts with
  | nil => rfl
  | cons handout rest ih =>
      obtain ⟨parent, id⟩ := handout
      rw [List.filterMap_cons]
      cases parent with
      | none => simpa [Handout.link?] using ih
      | some other =>
          by_cases howner : other = owner
          · simpa [Handout.link?, howner] using ih
          · simpa [Handout.link?, howner] using ih

/-- An identifier is listed once under its own owner, and under no other. -/
theorem count_childrenOf (h : Recorded filePath run handouts) {handout : Handout}
    (hmem : handout ∈ handouts) (owner : String) :
    (run.hierarchy.childrenOf owner).count handout.id =
      if handout.owner = some owner then 1 else 0 := by
  have hnodup := h.nodup
  have hsub : ((handouts.filter fun other => other.owner = some owner).map Handout.id).Nodup :=
    hnodup.sublist (List.filter_sublist.map _)
  rw [h.childrenOf_eq]
  split <;> rename_i howner
  · apply List.count_eq_one_of_mem hsub
    exact List.mem_map_of_mem (List.mem_filter.mpr ⟨hmem, by simpa using howner⟩)
  · rw [List.count_eq_zero]
    intro hlisted
    obtain ⟨other, hother, hid⟩ := List.mem_map.mp hlisted
    obtain ⟨hother, howner'⟩ := List.mem_filter.mp hother
    have hsame : other = handout := List.inj_on_of_nodup_map hnodup hother hmem hid
    subst hsame
    exact howner (by simpa using howner')

end Recorded

/-- The laws hold of every run from the start of a file. -/
theorem runLaws (filePath : String) (steps : List Step) :
    RunLaws filePath steps ((Run.start filePath).after steps)
      ((Run.start filePath).handouts steps) := by
  have hrecorded := (recorded_start filePath).after steps
  rw [List.nil_append] at hrecorded
  constructor
  case place =>
    intro kind name
    refine ⟨_, rfl, rfl, ?_⟩
    rw [ElementId.create_succ, next_id, hrecorded.filePath_eq, hrecorded.placed_eq]
  case ordinal =>
    intro k handout hk
    obtain ⟨kind, qualifiedName, hid⟩ := hrecorded.ordinal k handout hk
    exact ⟨kind, qualifiedName, by rw [ElementId.create_succ, hid]⟩
  case ids_nodup => exact hrecorded.nodup
  case frames_eq => exact frames_after steps (.start filePath)
  case exit_refused =>
    intro fault
    exact step_exit_eq_error_iff
  case finish_refused =>
    intro fault
    rw [step_finish_eq_error_iff, hrecorded.filePath_eq]
  case refused =>
    intro step fault
    exact step_of_error
  case scope_failure =>
    intro segment owner
    exact ⟨step_scopedFailure segment owner,
      fun block hblock => exit_after_balanced hblock _ segment owner⟩
  case children =>
    intro owner
    rw [← hrecorded.childrenOf_eq]
    rfl
  case child_iff =>
    intro handout hmem owner
    exact hrecorded.count_childrenOf hmem owner
  case complete_refused =>
    intro elements fault
    rw [complete_eq_error_iff, hrecorded.filePath_eq]
  case complete_idempotent =>
    intro elements done
    exact complete_of_complete
  case finish =>
    refine ⟨rfl, ?_⟩
    intro elements hids hfresh
    rw [hrecorded.ids_eq, ← hids]
    exact finish_eq_complete hfresh

/-- An owner whose scope is opened again goes on with its children. -/
example :
    ((Run.start "a.rs").after
      [.enter "m" "x", .place .function "f", .exit, .exit, .place .static "g", .enter "n" "x",
        .place .struct "h"]).hierarchy.childrenOf "x" =
      ["a.rs::Function::m::f::1", "a.rs::Struct::n::h::3"] := by
  decide +kernel

end CrateAtlas.Hierarchy
