import CrateAtlas.Measure.Counts
import Mathlib.Data.List.Induction
import Mathlib.Data.String.Basic

/-!
# Tables of counts

A table of counts has its names in increasing order.  It is known by its names and by what it holds
under each of them, so that the order in which entries were added is forgotten, and adding up whole
tables is the same as adding up the entries they were made of.

Main results:

- Theorem {lit}`Counts.Ordered.ext`: a table is known by its names and what it holds under them.
- Theorem {lit}`Counts.sum_flatMap_sum`: adding up tables is adding up their entries.
- Theorem {lit}`Counts.total_sum`: the total of a table is the total of its entries.
- Theorem {lit}`Counts.mem_ofNames_iff`: a table of names says how often each name occurs.
-/

namespace CrateAtlas

variable {α : Type}

/-! ## Sums -/

theorem addUp_cons (n : Int) (rest : List Int) : addUp (n :: rest) = n + addUp rest :=
  rfl

theorem addUp_append (numbers numbers' : List Int) :
    addUp (numbers ++ numbers') = addUp numbers + addUp numbers' := by
  induction numbers with
  | nil => simp [addUp]
  | cons n rest ih =>
      rw [List.cons_append, addUp_cons, addUp_cons, ih]
      omega

/-- Numbers can be added in any order. -/
theorem addUp_perm {numbers numbers' : List Int} (h : numbers.Perm numbers') :
    addUp numbers = addUp numbers' := by
  induction h with
  | nil => rfl
  | cons n _ ih => rw [addUp_cons, addUp_cons, ih]
  | swap n m rest =>
      rw [addUp_cons, addUp_cons, addUp_cons, addUp_cons]
      omega
  | trans _ _ ih ih' => rw [ih, ih']

/-- Sums can be taken list by list. -/
theorem addUp_flatMap (f : α → List Int) (xs : List α) :
    addUp (xs.flatMap f) = addUp (xs.map fun x => addUp (f x)) := by
  induction xs with
  | nil => rfl
  | cons x xs ih => rw [List.flatMap_cons, addUp_append, ih, List.map_cons, addUp_cons]

/-- Lengths can be added up list by list. -/
theorem length_flatMap_eq {β : Type} (f : α → List β) (xs : List α) :
    ((xs.flatMap f).length : Int) = addUp (xs.map fun x => ((f x).length : Int)) := by
  induction xs with
  | nil => rfl
  | cons x xs ih =>
      rw [List.flatMap_cons, List.length_append, List.map_cons, addUp_cons, ← ih]
      omega

namespace Counts

variable {name other : String} {n m : Int} {counts counts' : Counts}
  {entries entries' : List (String × Int)}

/-! ## Entries under a name -/

/-- The names of entries. -/
def names (entries : List (String × Int)) : List String :=
  entries.map Prod.fst

/-- The sum of the entries under a name. -/
def under (name : String) (entries : List (String × Int)) : Int :=
  addUp ((entries.filter fun entry => entry.1 = name).map Prod.snd)

@[simp]
theorem names_cons (entry : String × Int) (rest : List (String × Int)) :
    names (entry :: rest) = entry.1 :: names rest :=
  rfl

theorem names_flatMap (f : α → List (String × Int)) (xs : List α) :
    names (xs.flatMap f) = xs.flatMap fun x => names (f x) :=
  List.map_flatMap ..

@[simp]
theorem under_nil (name : String) : under name [] = 0 :=
  rfl

@[simp]
theorem under_cons (name : String) (entry : String × Int) (rest : List (String × Int)) :
    under name (entry :: rest) = (if entry.1 = name then entry.2 else 0) + under name rest := by
  unfold under
  by_cases h : entry.1 = name
  · simp [h, addUp_cons]
  · simp [h]

theorem under_append (name : String) (entries entries' : List (String × Int)) :
    under name (entries ++ entries') = under name entries + under name entries' := by
  simp [under, addUp_append]

theorem under_flatMap (name : String) (f : α → List (String × Int)) (xs : List α) :
    under name (xs.flatMap f) = addUp (xs.map fun x => under name (f x)) := by
  induction xs with
  | nil => rfl
  | cons x xs ih => rw [List.flatMap_cons, under_append, ih, List.map_cons, addUp_cons]

theorem total_cons (entry : String × Int) (rest : Counts) :
    total (entry :: rest) = entry.2 + total rest :=
  rfl

theorem under_of_notMem (h : name ∉ names entries) : under name entries = 0 := by
  induction entries with
  | nil => simp
  | cons entry rest ih =>
      rw [names_cons, List.mem_cons, not_or] at h
      rw [under_cons, ih h.2, if_neg (Ne.symm h.1), Int.add_zero]

/-! ## Ordered tables -/

/-- The names of a table are in increasing order, so that none is there twice. -/
def Ordered (counts : Counts) : Prop :=
  counts.Pairwise fun a b => a.1 < b.1

theorem Ordered.notMem_names {rest : Counts} (h : Ordered ((name, n) :: rest)) :
    name ∉ names rest := by
  intro hmem
  obtain ⟨entry, hentry, heq⟩ := List.mem_map.mp hmem
  have hlt : name < entry.1 := List.rel_of_pairwise_cons h hentry
  exact hlt.ne heq.symm

/-- In a table each name has one entry, with what the table holds under it. -/
theorem Ordered.mem_iff (h : Ordered counts) :
    (name, n) ∈ counts ↔ name ∈ names counts ∧ n = under name counts := by
  induction counts with
  | nil => simp [names]
  | cons entry rest ih =>
      obtain ⟨other, m⟩ := entry
      have hrest := ih (List.Pairwise.of_cons h)
      have hnotMem := h.notMem_names
      rw [List.mem_cons, hrest, names_cons, List.mem_cons, under_cons, Prod.mk.injEq]
      by_cases hname : other = name
      · subst hname
        simp [hnotMem, under_of_notMem hnotMem]
      · simp [hname, Ne.symm hname]

/-- A table is known by its names and by what it holds under each of them. -/
theorem Ordered.ext (h : Ordered counts) (h' : Ordered counts')
    (hnames : ∀ name, name ∈ names counts ↔ name ∈ names counts')
    (hunder : ∀ name, under name counts = under name counts') : counts = counts' := by
  have hne : ∀ {a b : String × Int}, a.1 < b.1 → a ≠ b := by
    intro a b hlt heq
    exact hlt.ne (congrArg Prod.fst heq)
  have hmem : ∀ entry, entry ∈ counts ↔ entry ∈ counts' := by
    intro entry
    rw [← Prod.mk.eta (p := entry), h.mem_iff, h'.mem_iff, hnames, hunder]
  apply List.Perm.eq_of_pairwise ?_ h h'
  · exact (List.perm_ext_iff_of_nodup (h.imp hne) (h'.imp hne)).mpr hmem
  · intro a b _ _ hab hba
    exact absurd hba (String.lt_asymm hab)

/-! ## Adding to a table -/

theorem add_here (name : String) (n m : Int) (rest : Counts) :
    add name n ((name, m) :: rest) = (name, m + n) :: rest := by
  rw [add, if_pos rfl]

theorem add_before (h : name < other) (n m : Int) (rest : Counts) :
    add name n ((other, m) :: rest) = (name, n) :: (other, m) :: rest := by
  rw [add, if_neg h.ne, if_pos h]

theorem add_behind (h : other < name) (n m : Int) (rest : Counts) :
    add name n ((other, m) :: rest) = (other, m) :: add name n rest := by
  rw [add, if_neg h.ne', if_neg h.not_gt]

theorem under_add (name : String) (n : Int) (counts : Counts) (other : String) :
    under other (counts.add name n) = (if name = other then n else 0) + under other counts := by
  induction counts with
  | nil => simp [add]
  | cons entry rest ih =>
      obtain ⟨first, m⟩ := entry
      rcases lt_trichotomy name first with hlt | rfl | hgt
      · rw [add_before hlt, under_cons]
      · rw [add_here, under_cons, under_cons]
        by_cases h : name = other
        · simp only [h, if_true]
          omega
        · simp only [h, if_false]
          omega
      · rw [add_behind hgt, under_cons, under_cons, ih]
        omega

theorem mem_names_add :
    other ∈ names (counts.add name n) ↔ other = name ∨ other ∈ names counts := by
  induction counts with
  | nil => simp [add, names]
  | cons entry rest ih =>
      obtain ⟨first, m⟩ := entry
      rcases lt_trichotomy name first with hlt | rfl | hgt
      · rw [add_before hlt, names_cons, List.mem_cons]
      · rw [add_here, names_cons, names_cons, List.mem_cons]
        simp
      · rw [add_behind hgt, names_cons, names_cons, List.mem_cons, List.mem_cons, ih]
        exact or_left_comm

/-- What comes before a name and before a table comes before the table with the name in it. -/
theorem lt_of_mem_add {first : String} (hname : first < name)
    (h : ∀ entry ∈ counts, first < entry.1) : ∀ entry ∈ counts.add name n, first < entry.1 := by
  intro entry hentry
  have hmem : entry.1 = name ∨ entry.1 ∈ names counts :=
    mem_names_add.mp (List.mem_map_of_mem hentry)
  rcases hmem with heq | hmem
  · rw [heq]
    exact hname
  · obtain ⟨old, hold, heq⟩ := List.mem_map.mp hmem
    rw [← heq]
    exact h old hold

theorem Ordered.add (h : Ordered counts) (name : String) (n : Int) :
    Ordered (counts.add name n) := by
  induction counts with
  | nil => simp [Counts.add, Ordered]
  | cons entry rest ih =>
      obtain ⟨first, m⟩ := entry
      obtain ⟨hbefore, hrest⟩ := List.pairwise_cons.mp h
      rcases lt_trichotomy name first with hlt | rfl | hgt
      · have hall : ∀ later ∈ (first, m) :: rest, name < later.1 :=
          List.forall_mem_cons.mpr ⟨hlt, fun later hlater => hlt.trans (hbefore later hlater)⟩
        rw [add_before hlt]
        exact List.pairwise_cons.mpr ⟨hall, h⟩
      · rw [add_here]
        exact List.pairwise_cons.mpr ⟨hbefore, hrest⟩
      · rw [add_behind hgt]
        exact List.pairwise_cons.mpr ⟨lt_of_mem_add hgt hbefore, ih hrest⟩

theorem total_add (name : String) (n : Int) (counts : Counts) :
    (counts.add name n).total = n + counts.total := by
  induction counts with
  | nil => rfl
  | cons entry rest ih =>
      obtain ⟨first, m⟩ := entry
      rcases lt_trichotomy name first with hlt | rfl | hgt
      · rw [add_before hlt, total_cons]
      · rw [add_here, total_cons, total_cons]
        omega
      · rw [add_behind hgt, total_cons, total_cons, ih]
        omega

/-! ## Adding up entries -/

theorem sum_append_singleton (entries : List (String × Int)) (entry : String × Int) :
    sum (entries ++ [entry]) = (sum entries).add entry.1 entry.2 := by
  simp [sum]

theorem ordered_sum (entries : List (String × Int)) : Ordered (sum entries) := by
  induction entries using List.reverseRecOn with
  | nil => exact List.Pairwise.nil
  | append_singleton entries entry ih =>
      rw [sum_append_singleton]
      exact ih.add entry.1 entry.2

theorem under_sum (name : String) (entries : List (String × Int)) :
    under name (sum entries) = under name entries := by
  induction entries using List.reverseRecOn with
  | nil => rfl
  | append_singleton entries entry ih =>
      rw [sum_append_singleton, under_add, ih, under_append, under_cons, under_nil]
      omega

theorem mem_names_sum : name ∈ names (sum entries) ↔ name ∈ names entries := by
  induction entries using List.reverseRecOn with
  | nil => rfl
  | append_singleton entries entry ih =>
      rw [sum_append_singleton, mem_names_add, ih]
      simp [names, or_comm]

/-- The total of a table is the total of its entries. -/
theorem total_sum (entries : List (String × Int)) :
    (sum entries).total = addUp (entries.map Prod.snd) := by
  induction entries using List.reverseRecOn with
  | nil => rfl
  | append_singleton entries entry ih =>
      rw [sum_append_singleton, total_add, ih, List.map_append, addUp_append, List.map_singleton,
        addUp_cons, show addUp [] = 0 from rfl]
      omega

/-- Entries with the same names and the same sums under them give the same table. -/
theorem sum_congr (hnames : ∀ name, name ∈ names entries ↔ name ∈ names entries')
    (hunder : ∀ name, under name entries = under name entries') : sum entries = sum entries' := by
  apply (ordered_sum entries).ext (ordered_sum entries')
  · intro name
    rw [mem_names_sum, mem_names_sum, hnames]
  · intro name
    rw [under_sum, under_sum, hunder]

/-- Entries can be added in any order. -/
theorem sum_perm (h : entries.Perm entries') : sum entries = sum entries' := by
  apply sum_congr
  · intro name
    exact (h.map Prod.fst).mem_iff
  · intro name
    exact addUp_perm ((h.filter _).map Prod.snd)

/-- Adding up tables is adding up the entries that they are made of. -/
theorem sum_flatMap_sum (f : α → List (String × Int)) (xs : List α) :
    sum (xs.flatMap fun x => sum (f x)) = sum (xs.flatMap f) := by
  apply sum_congr
  · intro name
    simp only [names_flatMap, List.mem_flatMap, mem_names_sum]
  · intro name
    simp only [under_flatMap, under_sum]

/-! ## Tables of names -/

/-- How often each name of a list occurs. -/
def ofNames (names : List String) : Counts :=
  sum (names.map fun name => (name, 1))

theorem ofNames_append_singleton (list : List String) (name : String) :
    ofNames (list ++ [name]) = (ofNames list).add name 1 := by
  unfold ofNames
  rw [List.map_append, List.map_singleton, sum_append_singleton]

theorem under_ones (name : String) (list : List String) :
    under name (list.map fun each => (each, 1)) = list.count name := by
  induction list with
  | nil => simp
  | cons first rest ih =>
      rw [List.map_cons, under_cons, ih, List.count_cons]
      by_cases h : first = name
      · simp only [h, if_true, beq_self_eq_true]
        omega
      · simp [h]

/-- A table of names says of each name in the list how often it occurs. -/
theorem mem_ofNames_iff {list : List String} :
    (name, n) ∈ ofNames list ↔ name ∈ list ∧ n = list.count name := by
  unfold ofNames
  rw [(ordered_sum _).mem_iff, mem_names_sum, under_sum, under_ones]
  simp [names]

/-- Tables of several lists of names add up to the table of all the names. -/
theorem sum_flatMap_ofNames (f : α → List String) (xs : List α) :
    sum (xs.flatMap fun x => ofNames (f x)) = ofNames (xs.flatMap f) := by
  unfold ofNames
  rw [sum_flatMap_sum, List.map_flatMap]

theorem total_ofNames (list : List String) : (ofNames list).total = list.length := by
  rw [ofNames, total_sum]
  induction list with
  | nil => rfl
  | cons name list ih =>
      rw [List.map_cons, List.map_cons, addUp_cons, ih, List.length_cons]
      omega

/-- A table has no more entries than its total, if each of them is positive. -/
theorem length_le_total (h : ∀ entry ∈ counts, 1 ≤ entry.2) :
    (counts.length : Int) ≤ counts.total := by
  induction counts with
  | nil => exact Int.le_refl 0
  | cons entry rest ih =>
      obtain ⟨hentry, hrest⟩ := List.forall_mem_cons.mp h
      have hle := ih hrest
      rw [total_cons, List.length_cons]
      omega

/-- There are no more entries than names. -/
theorem length_ofNames_le (list : List String) : (ofNames list).length ≤ list.length := by
  have hpositive : ∀ entry ∈ ofNames list, 1 ≤ entry.2 := by
    intro entry hentry
    obtain ⟨hmem, hcount⟩ := mem_ofNames_iff.mp hentry
    have hoccurs := List.count_pos_iff.mpr hmem
    omega
  have hle := length_le_total hpositive
  rw [total_ofNames] at hle
  omega

/-- There are no entries exactly if there are no names. -/
theorem length_ofNames_eq_zero_iff {list : List String} :
    (ofNames list).length = 0 ↔ list.length = 0 := by
  rw [List.length_eq_zero_iff, List.length_eq_zero_iff]
  constructor
  · intro hnil
    apply List.eq_nil_iff_forall_not_mem.mpr
    intro name hmem
    have hentry := mem_ofNames_iff.mpr ⟨hmem, rfl⟩
    simp [hnil] at hentry
  · rintro rfl
    rfl

end Counts

end CrateAtlas
