import CrateAtlas.Proofs.UseTree
import Mathlib.Data.Set.Basic

/-!
# Accessibility and the tree of modules

An element is accessible from everywhere, or from the subtree of one module: its own, the one around
that, or one that is spelled out.  Whether a module stands in a subtree is decided on written paths,
where one name may be the beginning of another, as {lit}`net` is of {lit}`network`.  The test asks
for a separator behind the path of the subtree, and names have no colons, so that it compares whole
names.

Main results:

- Theorem {lit}`NamedModule.within_text_iff`: the test for subtrees compares lists of names.
- Theorem {lit}`Namespace.StandsAt.root?_eq`: the subtree from which an element is accessible, for
  each reach.
- Theorem {lit}`isAccessibleFrom_treeLaws`: accessibility follows the tree, is kept further inside,
  and grows with the reach.
-/

namespace CrateAtlas

/-! ## The last occurrence of a text -/

namespace Text

variable {pat cs before after : List Char} {i j : Nat}

/-- The last occurrence starts where it is found. -/
theorem prefix_drop_of_lastIndexFrom (h : lastIndexFrom pat i cs = some j) :
    ∃ n, j = i + n ∧ pat <+: cs.drop n := by
  induction cs generalizing i with
  | nil => simp [lastIndexFrom] at h
  | cons c rest ih =>
      rw [lastIndexFrom] at h
      split at h
      · rename_i later hlater
        obtain ⟨n, hn, hprefix⟩ := ih (hlater.trans h)
        exact ⟨n + 1, by omega, by simpa using hprefix⟩
      · split at h
        · rename_i hprefix
          obtain rfl : i = j := by simpa using h
          exact ⟨0, rfl, by simpa using hprefix⟩
        · contradiction

/-- A text that was cut at the last occurrence of another one. -/
theorem append_of_cutLast? (h : cutLast? pat cs = some (before, after)) :
    before ++ pat ++ after = cs := by
  obtain ⟨j, hindex, hcut⟩ := Option.map_eq_some_iff.mp h
  obtain ⟨rfl, rfl⟩ := Prod.mk.inj hcut
  obtain ⟨n, hn, rest, hrest⟩ := prefix_drop_of_lastIndexFrom hindex
  obtain rfl : j = n := by omega
  have hafter : cs.drop (j + pat.length) = rest := by
    rw [← List.drop_drop, ← hrest, List.drop_left]
  rw [hafter, List.append_assoc, hrest, List.take_append_drop]

end Text

/-! ## Containment of written paths -/

namespace ScopePath

variable {path middle root : String}

theorem within_iff :
    within path root = true ↔ path = root ∨ root.toList ++ separator <+: path.toList := by
  rw [within, Bool.or_eq_true, beq_iff_eq, List.isPrefixOf_iff_prefix]

theorem within_trans (h : within path middle = true) (h' : within middle root = true) :
    within path root = true := by
  rcases within_iff.mp h with rfl | hpath
  · exact h'
  · rcases within_iff.mp h' with rfl | hmiddle
    · exact h
    · apply within_iff.mpr
      exact .inr ((hmiddle.trans (List.prefix_append _ _)).trans hpath)

theorem within_continued (path inner : String) : within (path ++ "::" ++ inner) path = true := by
  refine within_iff.mpr (.inr ?_)
  rw [String.toList_append, String.toList_append]
  exact List.prefix_append _ _

/-- A path lies within the path before its last separator. -/
theorem within_parent (h : parent path ≠ "") : within path (parent path) = true := by
  unfold parent splitLast? at h ⊢
  cases hcut : Text.cutLast? separator path.toList with
  | none => simp [hcut] at h
  | some parts =>
      obtain ⟨before, after⟩ := parts
      refine within_iff.mpr (.inr ⟨after, ?_⟩)
      simpa using Text.append_of_cutLast? hcut

/-- Nothing stands before a name alone. -/
theorem parent_of_notMem {name : String} (hcolon : ':' ∉ name.toList) : parent name = "" := by
  rw [parent, splitLast?, Text.cutLast?, Text.lastIndex?, lastIndexFrom_of_notMem hcolon]
  rfl

/-! ## Names with a separator behind each -/

/-- Names, each with a separator behind it. -/
def terminated (names : List String) : List Char :=
  names.flatMap fun name => name.toList ++ separator

theorem terminated_cons (name : String) (rest : List String) :
    terminated (name :: rest) = name.toList ++ ':' :: ':' :: terminated rest := by
  simp [terminated, separator]

theorem toList_join_append {names : List String} (hne : names ≠ [])
    (hnames : ∀ name ∈ names, IsSegment name) :
    (join names).toList ++ separator = terminated names := by
  induction names with
  | nil => exact absurd rfl hne
  | cons name rest ih =>
      obtain ⟨hname, hrest⟩ := List.forall_mem_cons.mp hnames
      by_cases hnil : rest = []
      · rw [hnil, join_singleton, terminated_cons]
        rfl
      · have hjoined : join rest ≠ "" := fun h => hnil ((join_eq_empty_iff hrest).mp h)
        rw [join_cons, toList_continued hname.1 hjoined, terminated_cons, ← ih hnil hrest]
        simp [separator]

/-- If one text starts with another, then the same name stands before the first colon of both. -/
theorem eq_and_prefix_of_prefix {a b x y : List Char} (ha : ':' ∉ a) (hb : ':' ∉ b)
    (h : a ++ ':' :: x <+: b ++ ':' :: y) : a = b ∧ x <+: y := by
  induction a generalizing b with
  | nil =>
      cases b with
      | nil => exact ⟨rfl, (List.cons_prefix_cons.mp h).2⟩
      | cons d later =>
          obtain ⟨rfl, -⟩ := List.cons_prefix_cons.mp h
          exact absurd (List.mem_cons_self ..) hb
  | cons c rest ih =>
      cases b with
      | nil =>
          obtain ⟨rfl, -⟩ := List.cons_prefix_cons.mp h
          exact absurd (List.mem_cons_self ..) ha
      | cons d later =>
          obtain ⟨rfl, hrest⟩ := List.cons_prefix_cons.mp h
          obtain ⟨rfl, hprefix⟩ := ih (fun hmem => ha (List.mem_cons_of_mem _ hmem))
            (fun hmem => hb (List.mem_cons_of_mem _ hmem)) hrest
          exact ⟨rfl, hprefix⟩

/-- Terminated names tell the list of names. -/
theorem prefix_of_terminated {root path : List String} (hroot : ∀ name ∈ root, IsSegment name)
    (hpath : ∀ name ∈ path, IsSegment name) (h : terminated root <+: terminated path) :
    root <+: path := by
  induction root generalizing path with
  | nil => exact List.nil_prefix
  | cons name rest ih =>
      obtain ⟨hname, hrest⟩ := List.forall_mem_cons.mp hroot
      rw [terminated_cons] at h
      cases path with
      | nil => simp [terminated] at h
      | cons name' rest' =>
          obtain ⟨hname', hrest'⟩ := List.forall_mem_cons.mp hpath
          rw [terminated_cons] at h
          obtain ⟨heq, hprefix⟩ := eq_and_prefix_of_prefix hname.2 hname'.2 h
          rw [String.toList_inj.mp heq]
          exact List.cons_prefix_cons.mpr
            ⟨rfl, ih hrest hrest' (List.cons_prefix_cons.mp hprefix).2⟩

end ScopePath

open ScopePath

/-! ## Modules of the tree -/

/-- A module, given by the names on the way to it from the root of the tree, which has one too. -/
structure NamedModule where
  names : List String
  ne_nil : names ≠ []
  segment : ∀ name ∈ names, IsSegment name

namespace NamedModule

/-- The written path of a module: the names with separators between them. -/
def text (path : NamedModule) : String :=
  join path.names

/-- The module around a module; the root, which has none around it, is taken for its own. -/
def around (path : NamedModule) : NamedModule :=
  if h : path.names.dropLast = [] then path
  else ⟨path.names.dropLast, h, fun name hname =>
    path.segment name ((List.dropLast_sublist _).subset hname)⟩

theorem text_ne_empty (path : NamedModule) : path.text ≠ "" :=
  fun h => path.ne_nil ((join_eq_empty_iff path.segment).mp h)

theorem toList_text_append (path : NamedModule) :
    path.text.toList ++ separator = terminated path.names :=
  toList_join_append path.ne_nil path.segment

/-- A module lies within another one if and only if the way to it leads through the other one. -/
theorem within_text_iff (path root : NamedModule) :
    within path.text root.text = true ↔ root.names <+: path.names := by
  constructor
  · intro h
    apply prefix_of_terminated root.segment path.segment
    -- With a separator behind both paths, equal paths need no case of their own.
    rw [← root.toList_text_append, ← path.toList_text_append]
    rcases within_iff.mp h with heq | hprefix
    · exact heq ▸ List.prefix_rfl
    · exact hprefix.trans (List.prefix_append _ _)
  · rintro ⟨back, hback⟩
    rw [text, ← hback]
    exact within_join root.names back root.text_ne_empty

/-- The path of the module around a module stands before the last separator, if there is one. -/
theorem text_around (path : NamedModule) :
    path.around.text = if parent path.text = "" then path.text else parent path.text := by
  obtain ⟨front, last, hnames⟩ := (List.eq_nil_or_concat' path.names).resolve_left path.ne_nil
  have hsegment : ∀ name ∈ front ++ [last], IsSegment name := hnames ▸ path.segment
  have hlast : IsSegment last := hsegment last (by simp)
  have hdrop : path.names.dropLast = front := by rw [hnames, List.dropLast_concat]
  rw [around]
  by_cases hfront : front = []
  · have htext : path.text = last := by
      rw [text, hnames, hfront, List.nil_append, join_singleton]
    rw [dif_pos (hdrop.trans hfront), htext, if_pos (parent_of_notMem hlast.2)]
  · have hjoined : join front ≠ "" := fun h =>
      hfront ((join_eq_empty_iff fun name hname => hsegment name (by simp [hname])).mp h)
    have hparent : parent path.text = join front := by
      rw [text, hnames, join_append, join_singleton]
      exact parent_join hjoined hlast.1 hlast.2
    rw [dif_neg (hdrop ▸ hfront), hparent, if_neg hjoined]
    exact congrArg join hdrop

end NamedModule

/-- The module from whose subtree an element is accessible, none if it is from everywhere.  The
element stands in a module, and its reach may be restricted to another one. -/
def Reach.outermost? (home : NamedModule) (restriction : Option NamedModule) :
    Reach → Option NamedModule
  | .everywhere | .crate => none
  | .super => some home.around
  | .within => some (restriction.getD home)
  | .home => some home

/-! ## Accessible modules -/

namespace Namespace

variable {n outer : Namespace} {path : String} {home : NamedModule}
  {restriction : Option NamedModule}

/-- An element stands in a module of the tree, and a reach that is spelled out names another one;
an empty restriction counts for none. -/
structure StandsAt (n : Namespace) (home : NamedModule) (restriction : Option NamedModule) :
    Prop where
  modulePath_eq : n.modulePath = home.text
  restriction_eq : n.reach = .within →
    n.restriction.getD "" = (restriction.map NamedModule.text).getD ""

theorem root?_of_within (h : n.reach = .within) :
    n.root? =
      some (if n.restriction.getD "" = "" then n.modulePath else n.restriction.getD "") := by
  rw [root?, h]
  cases n.restriction <;> rfl

/-- The subtree from which an element is accessible has the path that is found by its reach. -/
theorem StandsAt.root?_eq (h : n.StandsAt home restriction) :
    n.root? = (n.reach.outermost? home restriction).map NamedModule.text := by
  obtain ⟨hhome, hrestriction⟩ := h
  cases hreach : n.reach with
  | everywhere =>
      rw [root?, hreach]
      rfl
  | crate =>
      rw [root?, hreach]
      rfl
  | super =>
      rw [root?, hreach]
      simp only [Reach.outermost?, Option.map_some, home.text_around, hhome]
  | within =>
      rw [root?_of_within hreach, hrestriction hreach, hhome]
      cases restriction with
      | none => rfl
      | some root => exact congrArg some (if_neg root.text_ne_empty)
  | home =>
      rw [root?, hreach]
      exact congrArg some hhome

/-- Accessibility is decided by containment in the root of the subtree. -/
theorem isAccessibleFrom_iff :
    n.isAccessibleFrom path = true ↔ ∀ root ∈ n.root?, within path root = true := by
  unfold isAccessibleFrom
  cases n.root? <;> simp

/-- An element of the tree is accessible from the modules whose names start with those of the root
of its subtree. -/
theorem StandsAt.isAccessibleFrom_iff (h : n.StandsAt home restriction) (path : NamedModule) :
    n.isAccessibleFrom path.text = true ↔
      ∀ root ∈ n.reach.outermost? home restriction, root.names <+: path.names := by
  rw [Namespace.isAccessibleFrom_iff, h.root?_eq]
  simp [path.within_text_iff]

theorem isAccessibleFrom_iff_of_root? {root : NamedModule} (h : n.root? = some root.text)
    (path : NamedModule) : n.isAccessibleFrom path.text = true ↔ root.names <+: path.names := by
  rw [isAccessibleFrom, h]
  exact path.within_text_iff root

/-- An element is accessible inside each module from which it is accessible. -/
theorem isAccessibleFrom_of_within {inner : String} (hinner : within inner path = true)
    (h : n.isAccessibleFrom path = true) : n.isAccessibleFrom inner = true := by
  rw [isAccessibleFrom_iff] at h ⊢
  exact fun root hroot => within_trans hinner (h root hroot)

/-- The written paths from which an element is accessible. -/
def audience (n : Namespace) : Set String :=
  {path | n.isAccessibleFrom path = true}

theorem audience_eq_univ (h : n.root? = none) : n.audience = Set.univ := by
  apply Set.eq_univ_of_forall
  intro path
  show n.isAccessibleFrom path = true
  rw [isAccessibleFrom, h]

/-- What is accessible in a module alone is accessible in a part of the module around. -/
theorem audience_subset_of_super (hpath : outer.modulePath = n.modulePath)
    (hhome : n.reach = .home) (hsuper : outer.reach = .super) : n.audience ⊆ outer.audience := by
  intro path hmem
  have hwithin : within path n.modulePath = true :=
    isAccessibleFrom_iff.mp hmem _ (by rw [root?, hhome]; rfl)
  refine isAccessibleFrom_iff.mpr fun root hroot => ?_
  rw [root?, hsuper, hpath] at hroot
  obtain rfl := Option.some.inj hroot
  split_ifs with hparent
  · exact hwithin
  · exact within_trans hwithin (within_parent hparent)

/-- How accessibility follows the tree of modules. -/
structure TreeLaws (n : Namespace) : Prop where
  /-- An element that is accessible from a subtree of the tree is so from the modules whose names
  start with those of its root. -/
  contained : ∀ root : NamedModule, n.root? = some root.text → ∀ path : NamedModule,
    n.isAccessibleFrom path.text = true ↔ root.names <+: path.names
  /-- If it stands in a module of the tree, its reach tells the root, or that there is none. -/
  subtree : ∀ home restriction, n.StandsAt home restriction → ∀ path : NamedModule,
    n.isAccessibleFrom path.text = true ↔
      ∀ root ∈ n.reach.outermost? home restriction, root.names <+: path.names
  /-- An element is accessible inside each module from which it is accessible. -/
  inside : ∀ path inner, n.isAccessibleFrom path = true →
    n.isAccessibleFrom (path ++ "::" ++ inner) = true
  /-- For elements of one module, the accessible modules grow from the reach of the module itself
  to that of the module around it and to that of the crate, which is the whole. -/
  super_of_home : ∀ outer : Namespace, outer.modulePath = n.modulePath →
    n.reach = .home → outer.reach = .super → n.audience ⊆ outer.audience
  crate_of_super : ∀ outer : Namespace, outer.modulePath = n.modulePath →
    n.reach = .super → outer.reach = .crate → n.audience ⊆ outer.audience
  everywhere_of_crate : ∀ outer : Namespace, outer.modulePath = n.modulePath →
    n.reach = .crate → outer.reach = .everywhere → n.audience = outer.audience

end Namespace

/-- Accessibility follows the tree of modules: the test for subtrees holds where the names of the
root start those of the module, and the accessible modules are such subtrees, which grow with the
reach. -/
theorem isAccessibleFrom_treeLaws :
    (∀ path root : NamedModule,
        within path.text root.text = true ↔ root.names <+: path.names) ∧
      ∀ n : Namespace, n.TreeLaws := by
  refine ⟨NamedModule.within_text_iff, fun n => ?_⟩
  have hcrate : ∀ outer : Namespace, outer.reach = .crate → outer.audience = Set.univ :=
    fun outer h => Namespace.audience_eq_univ (by rw [Namespace.root?, h])
  have heverywhere : ∀ outer : Namespace, outer.reach = .everywhere →
      outer.audience = Set.univ :=
    fun outer h => Namespace.audience_eq_univ (by rw [Namespace.root?, h])
  exact {
    contained := fun _ h => Namespace.isAccessibleFrom_iff_of_root? h
    subtree := fun _ _ h => h.isAccessibleFrom_iff
    inside := fun path inner =>
      Namespace.isAccessibleFrom_of_within (within_continued path inner)
    super_of_home := fun _ hpath => Namespace.audience_subset_of_super hpath
    crate_of_super := fun outer _ _ h => hcrate outer h ▸ Set.subset_univ _
    everywhere_of_crate := fun outer _ h h' => (hcrate n h).trans (heverywhere outer h').symm }

/-! ## A module and one whose name begins like it -/

namespace Sample

/-- The module {lit}`tcp` in the module {lit}`net`. -/
def tcp : NamedModule :=
  ⟨["crate", "net", "tcp"], by decide, by decide⟩

/-- A function in {lit}`tcp` that is visible in the module around. -/
def visibleAround : Namespace where
  elementId := "src/net/tcp.rs::Function::g::1"
  simpleName := "g"
  canonicalPath := "crate::net::tcp::g"
  modulePath := "crate::net::tcp"
  aliases := []
  importPaths := []
  isPublic := false
  reach := .super
  restriction := none

end Sample

/-- The function is accessible from {lit}`net` and inside, but not from {lit}`network`; from where a
private one beside it is accessible, it is accessible too. -/
theorem isAccessibleFrom_treeLaws_sample :
    Sample.visibleAround.StandsAt Sample.tcp none ∧
      Sample.visibleAround.isAccessibleFrom "crate::net" = true ∧
      Sample.visibleAround.isAccessibleFrom ("crate::net" ++ "::" ++ "udp") = true ∧
      Sample.visibleAround.isAccessibleFrom "crate::network" = false ∧
      { Sample.visibleAround with reach := .home }.audience ⊆ Sample.visibleAround.audience := by
  have hstands : Sample.visibleAround.StandsAt Sample.tcp none := ⟨by decide, by decide⟩
  have htree := (isAccessibleFrom_treeLaws.2 Sample.visibleAround).subtree Sample.tcp none hstands
  have hnet : Sample.visibleAround.isAccessibleFrom "crate::net" = true :=
    (htree ⟨["crate", "net"], by decide, by decide⟩).mpr (by decide)
  have hnetwork : ¬Sample.visibleAround.isAccessibleFrom "crate::network" = true := fun h =>
    absurd ((htree ⟨["crate", "network"], by decide, by decide⟩).mp h) (by decide)
  exact ⟨hstands, hnet, (isAccessibleFrom_treeLaws.2 Sample.visibleAround).inside _ _ hnet,
    by simpa using hnetwork,
    (isAccessibleFrom_treeLaws.2 { Sample.visibleAround with reach := .home }).super_of_home
      Sample.visibleAround rfl rfl rfl⟩

end CrateAtlas
