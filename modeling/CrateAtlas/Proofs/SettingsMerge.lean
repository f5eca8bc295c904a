import CrateAtlas.Proofs.SettingsLayout

/-!
# Merging settings

Merging keeps each value of the second settings that differs from the default, and the value of the
first settings in all other places.  On the values alone this is a monoid whose unit is the defaults
and in which everything is idempotent.  The patterns that are selected may come from other settings
than the patterns that are excluded, however, and so valid settings may merge into settings that are
refused: as an operation on valid settings, merging is partial.

Main results:

- Theorems {lit}`overlay_default`, {lit}`default_overlay`, {lit}`overlay_self` and
  {lit}`overlay_assoc`: the laws of the values.
- Theorem {lit}`merged_iff`: what merging keeps, value by value.
- Theorem {lit}`merge_result_cases`: a merge is refused for the patterns that would be both selected
  and excluded, and for nothing else.
- Theorem {lit}`merge_laws`: the laws of merging valid settings.
-/

namespace CrateAtlas.Settings

variable {a b c m : Settings}

/-! ## One value -/

section Prefer

variable {α : Type} [DecidableEq α] {own other absent kept : α}

/-- What is kept of two values: the other one where it differs from the default. -/
def Keeps (own other absent kept : α) : Prop :=
  (other ≠ absent → kept = other) ∧ (other = absent → kept = own)

theorem keeps_iff : Keeps own other absent kept ↔ kept = prefer own other absent := by
  by_cases h : other = absent <;> simp [Keeps, prefer, h]

@[simp]
theorem prefer_absent (own absent : α) : prefer own absent absent = own := by
  simp [prefer]

@[simp]
theorem absent_prefer (other absent : α) : prefer absent other absent = other := by
  by_cases h : other = absent <;> simp [prefer, h]

@[simp]
theorem prefer_self (own absent : α) : prefer own own absent = own := by
  simp [prefer]

/-- The last value that differs from the default is kept, however three values are grouped. -/
theorem prefer_assoc (x y z absent : α) :
    prefer (prefer x y absent) z absent = prefer x (prefer y z absent) absent := by
  by_cases hz : z = absent
  · subst hz
    rw [prefer_absent, prefer_absent]
  · simp [prefer, hz]

/-- What is kept has every property that both values have. -/
theorem prefer_of_both {P : α → Prop} (hown : P own) (hother : P other) (absent : α) :
    P (prefer own other absent) := by
  by_cases h : other = absent
  · rwa [prefer, if_pos h]
  · rwa [prefer, if_neg h]

end Prefer

/-! ## All values -/

theorem overlay_default (s : Settings) : s.overlay Settings.default = s := by
  simp [overlay]

theorem default_overlay (s : Settings) : Settings.default.overlay s = s := by
  simp [overlay]

theorem overlay_self (s : Settings) : s.overlay s = s := by
  simp [overlay]

theorem overlay_assoc (a b c : Settings) :
    (a.overlay b).overlay c = a.overlay (b.overlay c) := by
  simp only [overlay, prefer_assoc]

/-- Settings that keep each value of {lit}`b` that differs from the default, and the value of
{lit}`a` in all other places. -/
structure Merged (a b m : Settings) : Prop where
  includeDocs :
    Keeps a.includeDocs b.includeDocs Settings.default.includeDocs m.includeDocs
  includePrivate :
    Keeps a.includePrivate b.includePrivate Settings.default.includePrivate m.includePrivate
  parseDependencies :
    Keeps a.parseDependencies b.parseDependencies Settings.default.parseDependencies
      m.parseDependencies
  maxFileSize :
    Keeps a.maxFileSize b.maxFileSize Settings.default.maxFileSize m.maxFileSize
  selected : Keeps a.selected b.selected Settings.default.selected m.selected
  excluded : Keeps a.excluded b.excluded Settings.default.excluded m.excluded
  maxWorkers : Keeps a.maxWorkers b.maxWorkers Settings.default.maxWorkers m.maxWorkers

/-- Merging keeps what it should, and nothing else does. -/
theorem merged_iff : Merged a b m ↔ m = a.overlay b := by
  constructor
  · intro h
    obtain ⟨h₁, h₂, h₃, h₄, h₅, h₆, h₇⟩ := h
    rw [keeps_iff] at h₁ h₂ h₃ h₄ h₅ h₆ h₇
    cases m
    simp only [overlay, ← h₁, ← h₂, ← h₃, ← h₄, ← h₅, ← h₆, ← h₇]
  · rintro rfl
    constructor <;> exact keeps_iff.mpr rfl

/-! ## Merging valid settings -/

theorem overlay_size_pos (ha : a.Valid) (hb : b.Valid) : 1 ≤ (a.overlay b).maxFileSize :=
  prefer_of_both (P := fun size => 1 ≤ size) ha.size_pos hb.size_pos _

theorem overlay_workers_pos (ha : a.Valid) (hb : b.Valid) :
    ∀ n, (a.overlay b).maxWorkers = some n → 1 ≤ n :=
  prefer_of_both (P := fun workers => ∀ n, workers = some n → 1 ≤ n) ha.workers_pos
    hb.workers_pos _

theorem overlay_selected_ne_nil (ha : a.Valid) (hb : b.Valid) :
    (a.overlay b).selected ≠ [] :=
  prefer_of_both (P := fun patterns => patterns ≠ []) ha.selected_ne_nil hb.selected_ne_nil _

theorem overlay_notBlank (ha : a.Valid) (hb : b.Valid) :
    ∀ pattern ∈ (a.overlay b).selected ++ (a.overlay b).excluded, NotBlank pattern := by
  obtain ⟨haSelected, haExcluded⟩ := List.forall_mem_append.mp ha.notBlank
  obtain ⟨hbSelected, hbExcluded⟩ := List.forall_mem_append.mp hb.notBlank
  refine List.forall_mem_append.mpr ⟨?_, ?_⟩
  · exact prefer_of_both (P := fun patterns => ∀ pattern ∈ patterns, NotBlank pattern)
      haSelected hbSelected _
  · exact prefer_of_both (P := fun patterns => ∀ pattern ∈ patterns, NotBlank pattern)
      haExcluded hbExcluded _

/-- All that an overlay of valid settings may lack is that its two lists of patterns are apart. -/
theorem Valid.overlay (ha : a.Valid) (hb : b.Valid)
    (hdisjoint : (a.overlay b).selected.Disjoint (a.overlay b).excluded) :
    (a.overlay b).Valid where
  selected_ne_nil := overlay_selected_ne_nil ha hb
  notBlank := overlay_notBlank ha hb
  disjoint := hdisjoint
  size_pos := overlay_size_pos ha hb
  workers_pos := overlay_workers_pos ha hb

theorem check_result_of_valid (h : m.Valid) : m.check.result = .ok m := by
  have hsize := h.size_pos
  rw [check, if_neg (by omega)]
  exact checkRest_eq_ok_iff.mpr ⟨rfl, h.workers_pos, h.selected_ne_nil, h.disjoint⟩

theorem merge_of_disjoint (ha : a.Valid) (hb : b.Valid)
    (h : (a.overlay b).selected.Disjoint (a.overlay b).excluded) :
    (a.merge b).result = .ok (a.overlay b) :=
  check_result_of_valid (ha.overlay hb h)

/-- A merge of valid settings is refused for the patterns that are both selected and excluded. -/
theorem merge_of_not_disjoint (ha : a.Valid) (hb : b.Valid)
    (h : ¬(a.overlay b).selected.Disjoint (a.overlay b).excluded) :
    (a.merge b).result =
      .error (.conflicts (sharedPatterns (a.overlay b).selected (a.overlay b).excluded)) := by
  have hsize := overlay_size_pos ha hb
  have hselected := overlay_selected_ne_nil ha hb
  have hworkers := overlay_workers_pos ha hb
  have hshared := mt sharedPatterns_eq_nil_iff.mp h
  obtain ⟨pattern, later, hpatterns⟩ := List.exists_cons_of_ne_nil hshared
  rw [merge, check, if_neg (by omega), hpatterns]
  simp only [checkRest]
  rw [if_neg, if_neg (by simpa using hselected), hpatterns]
  cases hmax : (a.overlay b).maxWorkers with
  | none => simp
  | some n =>
      have hpos := hworkers n hmax
      simp only [decide_eq_true_eq]
      omega

theorem mem_sharedPatterns_iff {selected excluded : List String} {pattern : String} :
    pattern ∈ sharedPatterns selected excluded ↔ pattern ∈ selected ∧ pattern ∈ excluded := by
  simp [sharedPatterns]

/-- A merge of valid settings is refused exactly if its lists of patterns are not apart. -/
theorem merge_result_cases (ha : a.Valid) (hb : b.Valid) :
    ((a.overlay b).Valid ∧ (a.merge b).result = .ok (a.overlay b)) ∨
      ∃ shared, (a.merge b).result = .error (.conflicts shared) ∧ shared ≠ [] ∧
        ∀ pattern, pattern ∈ shared ↔
          pattern ∈ (a.overlay b).selected ∧ pattern ∈ (a.overlay b).excluded := by
  by_cases hdisjoint : (a.overlay b).selected.Disjoint (a.overlay b).excluded
  · left
    exact ⟨ha.overlay hb hdisjoint, merge_of_disjoint ha hb hdisjoint⟩
  · right
    exact ⟨_, merge_of_not_disjoint ha hb hdisjoint, mt sharedPatterns_eq_nil_iff.mp hdisjoint,
      fun _ => mem_sharedPatterns_iff⟩

theorem overlay_of_merge (ha : a.Valid) (hb : b.Valid) (h : (a.merge b).result = .ok m) :
    m = a.overlay b := by
  rcases merge_result_cases ha hb with ⟨-, hresult⟩ | ⟨shared, hresult, -, -⟩
  · rw [hresult] at h
    cases h
    rfl
  · rw [hresult] at h
    cases h

/-! ## The laws of merging -/

/-- The laws of merging {lit}`a` with {lit}`b` and {lit}`c`. -/
structure MergeLaws (a b c : Settings) : Prop where
  default_right : (a.merge Settings.default).result = .ok a
  default_left : (Settings.default.merge a).result = .ok a
  self : (a.merge a).result = .ok a
  /-- A merge is refused exactly for the patterns that would be both selected and excluded; without
  such patterns it gives what is merged, which is valid. -/
  outcome : ∃ m, Merged a b m ∧
    ((∃ error, (a.merge b).result = .error error) ↔
      ∃ pattern, pattern ∈ m.selected ∧ pattern ∈ m.excluded) ∧
    (∀ error, (a.merge b).result = .error error →
      ∃ shared, error = .conflicts shared ∧
        ∀ pattern, pattern ∈ shared ↔ pattern ∈ m.selected ∧ pattern ∈ m.excluded) ∧
    ∀ s, (a.merge b).result = .ok s → s = m ∧ s.Valid
  /-- Where the inner merges succeed, the outer ones agree, also in whether they succeed. -/
  assoc : ∀ ab bc, (a.merge b).result = .ok ab → (b.merge c).result = .ok bc →
    ab.merge c = a.merge bc

/-- Valid settings merge as in a monoid of idempotent elements whose product is partial. -/
theorem merge_laws (ha : a.Valid) (hb : b.Valid) (hc : c.Valid) : MergeLaws a b c where
  default_right := by
    rw [merge, overlay_default]
    exact check_result_of_valid ha
  default_left := by
    rw [merge, default_overlay]
    exact check_result_of_valid ha
  self := by
    rw [merge, overlay_self]
    exact check_result_of_valid ha
  outcome := by
    refine ⟨a.overlay b, merged_iff.mpr rfl, ?_⟩
    rcases merge_result_cases ha hb with ⟨hvalid, hresult⟩ | ⟨shared, hresult, hne, hshared⟩
    · rw [hresult]
      refine ⟨⟨?_, ?_⟩, ?_, ?_⟩
      · rintro ⟨error, herror⟩
        cases herror
      · rintro ⟨pattern, hselected, hexcluded⟩
        exact (hvalid.disjoint hselected hexcluded).elim
      · intro error herror
        cases herror
      · intro s hs
        cases hs
        exact ⟨rfl, hvalid⟩
    · rw [hresult]
      refine ⟨⟨?_, ?_⟩, ?_, ?_⟩
      · intro _
        obtain ⟨pattern, hpattern⟩ := List.exists_mem_of_ne_nil shared hne
        exact ⟨pattern, (hshared pattern).mp hpattern⟩
      · intro _
        exact ⟨_, rfl⟩
      · intro error herror
        cases herror
        exact ⟨shared, rfl, hshared⟩
      · intro s hs
        cases hs
  assoc := by
    intro ab bc hab hbc
    rw [overlay_of_merge ha hb hab, overlay_of_merge hb hc hbc, merge, merge, overlay_assoc]

/-- Settings that differ from the defaults in their patterns only. -/
def picking (selected excluded : List String) : Settings :=
  { Settings.default with selected, excluded }

theorem valid_picking {selected excluded : List String} (hselected : selected ≠ [])
    (hblank : ∀ pattern ∈ selected ++ excluded, NotBlank pattern)
    (hdisjoint : selected.Disjoint excluded) : (picking selected excluded).Valid where
  selected_ne_nil := hselected
  notBlank := hblank
  disjoint := hdisjoint
  size_pos := valid_default.size_pos
  workers_pos := valid_default.workers_pos

/-- Settings that limit the size of files. -/
def limiting : Settings :=
  { Settings.default with maxFileSize := 7 }

/-- Settings that select other files. -/
def choosing : Settings :=
  picking ["lib/*.rs"] Settings.default.excluded

/-- Settings that exclude other files. -/
def avoiding : Settings :=
  picking Settings.default.selected ["old/*"]

/-- Three settings that say something each: all four merges succeed, and both groupings keep what
each of the three says. -/
theorem merge_laws_sample :
    limiting.Valid ∧ choosing.Valid ∧ avoiding.Valid ∧ MergeLaws limiting choosing avoiding ∧
      (limiting.merge choosing).result = .ok { choosing with maxFileSize := 7 } ∧
      (choosing.merge avoiding).result = .ok (picking ["lib/*.rs"] ["old/*"]) ∧
      (Settings.merge { choosing with maxFileSize := 7 } avoiding).result =
        .ok { picking ["lib/*.rs"] ["old/*"] with maxFileSize := 7 } ∧
      (limiting.merge (picking ["lib/*.rs"] ["old/*"])).result =
        .ok { picking ["lib/*.rs"] ["old/*"] with maxFileSize := 7 } := by
  have hlimiting : limiting.Valid :=
    { valid_default with size_pos := by decide }
  have hchoosing : choosing.Valid :=
    valid_picking (by decide) (by decide) (by simp [Settings.default])
  have havoiding : avoiding.Valid :=
    valid_picking (by decide) (by decide) (by simp [Settings.default])
  have hlaws := merge_laws hlimiting hchoosing havoiding
  have hfirst : (limiting.merge choosing).result = .ok { choosing with maxFileSize := 7 } := by
    decide +kernel
  have hsecond : (choosing.merge avoiding).result = .ok (picking ["lib/*.rs"] ["old/*"]) := by
    decide +kernel
  have hall : (Settings.merge { choosing with maxFileSize := 7 } avoiding).result =
      .ok { picking ["lib/*.rs"] ["old/*"] with maxFileSize := 7 } := by
    decide +kernel
  exact ⟨hlimiting, hchoosing, havoiding, hlaws, hfirst, hsecond, hall,
    hlaws.assoc _ _ hfirst hsecond ▸ hall⟩

/-- One grouping may be refused where the other is not: here the patterns that the second settings
select are excluded by the first ones, until the third ones exclude others. -/
example :
    ((picking ["lib/*.rs"] ["gen/*"]).merge
        (picking ["gen/*"] ["target/**", "tests/**"])).result = .error (.conflicts ["gen/*"]) ∧
      ((picking ["gen/*"] ["target/**", "tests/**"]).merge
        (picking ["src/**/*.rs"] ["old/*"])).result = .ok (picking ["gen/*"] ["old/*"]) ∧
      ((picking ["lib/*.rs"] ["gen/*"]).merge (picking ["gen/*"] ["old/*"])).result =
        .ok (picking ["gen/*"] ["old/*"]) := by
  decide +kernel

end CrateAtlas.Settings
