import CrateAtlas.Namespace
import CrateAtlas.Proofs.Forest
import CrateAtlas.Proofs.ModulePrivacy

/-!
# Climbing to the enclosing module

The module of an element is found twice: from the stack of open scopes while the file is walked, and
later by going from parent to parent through the table of identifiers.  Nothing in the second way
bounds the climb; it ends because every parent stands before its children.  Wherever it ends, it has
passed the owners.

Main results:

- Theorem {lit}`owners_eq_of_trail`: a climb that ends has passed the owners of its start.
- Theorem {lit}`Climb.endsIn`: the climb from an element to its enclosing module ends.
- Theorem {lit}`endsIn_defer`: so does the search for the owner that decides who sees an element.
- Theorem {lit}`descends_iff_mem_owners`: the owners of an element are its ancestors.
- Theorem {lit}`build_moduleAgreement`: both ways lead to the same module.
-/

namespace CrateAtlas

/-! ## Loops -/

/-- A loop is over in a state after a number of turns; a turn is refused where the loop is over. -/
inductive EndsIn {σ : Type} (turn : σ → Option σ) : Nat → σ → σ → Prop where
  | finished {s} : turn s = none → EndsIn turn 0 s s
  | more {n s next last} : turn s = some next → EndsIn turn n next last →
      EndsIn turn (n + 1) s last

/-- A loop that is over after some turns is over after no other number of turns, and in no other
state. -/
theorem EndsIn.iff {σ : Type} {turn : σ → Option σ} {n : Nat} {s last : σ}
    (h : EndsIn turn n s last) {m : Nat} {final : σ} :
    EndsIn turn m s final ↔ m = n ∧ final = last := by
  constructor
  · intro h'
    induction h generalizing m with
    | finished hdone =>
        cases h' with
        | finished _ => exact ⟨rfl, rfl⟩
        | more hturn _ => simp [hdone] at hturn
    | more hturn _ ih =>
        cases h' with
        | finished hdone => simp [hdone] at hturn
        | more hturn' h' =>
            obtain rfl := Option.some.inj (hturn.symm.trans hturn')
            obtain ⟨rfl, rfl⟩ := ih h'
            exact ⟨rfl, rfl⟩
  · rintro ⟨rfl, rfl⟩
    exact h

/-- A loop always ends, after a number of turns within a bound and in a state with a property. -/
def Ends {σ : Type} (turn : σ → Option σ) (bound : Nat) (start : σ) (P : σ → Prop) : Prop :=
  ∃ n last, n ≤ bound ∧ P last ∧
    ∀ m final, EndsIn turn m start final ↔ m = n ∧ final = last

theorem EndsIn.ends {σ : Type} {turn : σ → Option σ} {n bound : Nat} {start last : σ}
    {P : σ → Prop} (h : EndsIn turn n start last) (hbound : n ≤ bound) (hlast : P last) :
    Ends turn bound start P :=
  ⟨n, last, hbound, hlast, fun _ _ => h.iff⟩

/-- What a loop comes to after its start, turn by turn until it is over. -/
inductive Trail {σ : Type} (turn : σ → Option σ) : σ → List σ → Prop where
  | finished {s} : turn s = none → Trail turn s []
  | more {s next rest} : turn s = some next → Trail turn next rest → Trail turn s (next :: rest)

namespace Trail

variable {σ : Type} {turn : σ → Option σ} {s : σ} {trail : List σ}

theorem unique (h : Trail turn s trail) {other : List σ} (h' : Trail turn s other) :
    other = trail := by
  induction h generalizing other with
  | finished hdone =>
      cases h' with
      | finished _ => rfl
      | more hturn _ => simp [hdone] at hturn
  | more hturn _ ih =>
      cases h' with
      | finished hdone => simp [hdone] at hturn
      | more hturn' h' =>
          obtain rfl := Option.some.inj (hturn.symm.trans hturn')
          rw [ih h']

theorem of_append {front back : List σ} {x : σ} (h : Trail turn s (front ++ x :: back)) :
    Trail turn x back := by
  induction front generalizing s with
  | nil =>
      cases h with
      | more _ hrest => exact hrest
  | cons first rest ih =>
      cases h with
      | more _ hrest => exact ih hrest

/-- A loop that ends comes to no state twice. -/
theorem nodup (h : Trail turn s trail) : trail.Nodup := by
  induction h with
  | finished _ => exact .nil
  | @more s next rest _ hrest ih =>
      refine List.nodup_cons.mpr ⟨?_, ih⟩
      intro hagain
      obtain ⟨front, back, rfl⟩ := List.append_of_mem hagain
      have hlength := congrArg List.length (hrest.unique hrest.of_append)
      simp at hlength
      omega

end Trail

namespace FileModel

variable {model : FileModel} {p e : Element} {i : Nat}

/-! ## Any climb -/

theorem mem_of_parentOf? (h : model.parentOf? e = some p) : p ∈ model.elements := by
  obtain ⟨id, -, hfound⟩ := Option.bind_eq_some_iff.mp h
  exact List.mem_reverse.mp (List.mem_of_find?_eq_some hfound)

theorem climb_eq_of_trail {trail : List Element} (h : Trail model.parentOf? e trail) :
    ∀ turns, trail.length ≤ turns → climb model.parentOf? turns e = trail := by
  induction h with
  | finished hdone => exact fun turns _ => climb_eq_nil hdone turns
  | more hturn _ ih =>
      intro turns hturns
      cases turns with
      | zero => simp at hturns
      | succ turns => rw [climb_succ hturn, ih turns (Nat.le_of_succ_le_succ hturns)]

/-- In any model, the owners of an element are what the climb from it passes, if the climb ends: it
passes no element twice. -/
theorem owners_eq_of_trail {trail : List Element} (h : Trail model.parentOf? e trail) :
    model.owners e = trail := by
  have hmem : ∀ owner ∈ trail, owner ∈ model.elements := by
    intro owner howner
    induction h with
    | finished _ => simp at howner
    | more hturn _ ih =>
        rcases List.mem_cons.mp howner with rfl | hlater
        · exact mem_of_parentOf? hturn
        · exact ih hlater
  exact climb_eq_of_trail h _ (h.nodup.length_le_of_subset hmem)

/-! ## Looking up parents -/

/-- An element that comes before another one has a smaller position. -/
theorem exists_getElem?_of_sublist (laws : ScopeLaws model.elements)
    (hsub : [p, e].Sublist model.elements) (he : model.elements[i]? = some e) :
    ∃ j < i, model.elements[j]? = some p := by
  obtain ⟨hi, hget⟩ := List.getElem?_eq_some_iff.mp he
  have hcut : model.elements = model.elements.take i ++ e :: model.elements.drop (i + 1) := by
    rw [← hget, List.getElem_cons_drop, List.take_append_drop]
  have hnodup := laws.ids_nodup
  rw [hcut] at hnodup hsub
  obtain ⟨j, hj, hp⟩ := List.getElem_of_mem (mem_before_of_sublist hnodup hsub)
  rw [List.length_take] at hj
  rw [List.getElem_take] at hp
  exact ⟨j, by omega, List.getElem?_eq_some_iff.mpr ⟨by omega, hp⟩⟩

/-- Elements are handled from the outside in, with their positions: each after its parent, which has
a smaller position and is found in the table. -/
theorem climbInduction {P : Nat → Element → Prop} (laws : ScopeLaws model.elements)
    (top : ∀ i e, model.elements[i]? = some e → e.placement.parentId = none → P i e)
    (inner : ∀ i j p e, model.elements[i]? = some e → j < i → model.elements[j]? = some p →
      p.Continues e → model.owners e = p :: model.owners p →
      e.placement.parentId.bind model.element? = some p → P j p → P i e) :
    ∀ i e, model.elements[i]? = some e → P i e := by
  have hall : ∀ e ∈ model.elements, ∀ i, model.elements[i]? = some e → P i e := by
    refine scopeInduction laws (fun e _ hparent _ i hi => top i e hi hparent) ?_
    intro p e hsub hp howners ih i hi
    obtain ⟨j, hj, hget⟩ := exists_getElem?_of_sublist laws hsub hi
    have hfound : e.placement.parentId.bind model.element? = some p := by
      rw [hp.1, Option.bind_some, element?_eq_some laws (hsub.subset (by simp))]
    exact inner i j p e hi hj hget hp howners hfound (ih j hget)
  intro i e hi
  exact hall e (List.mem_of_getElem? hi) i hi

/-! ## The climb to the enclosing module -/

/-- The state of the climb: the identifier of the next owner, and the names of the modules passed,
from the inside out. -/
structure Climb where
  next : Option String
  names : List String

namespace Climb

/-- The climb starts at the parent of an element. -/
def start (e : Element) : Climb :=
  ⟨e.placement.parentId, []⟩

/-- One turn of the climb: the next owner is passed.  The climb is over where there is none, or
where the table does not have it. -/
def turn (model : FileModel) (climb : Climb) : Option Climb :=
  (climb.next.bind model.element?).map fun owner =>
    ⟨owner.placement.parentId,
      if owner.kind = .mod then climb.names ++ [owner.name] else climb.names⟩

/-- The path of the module that the climb has found. -/
def path (model : FileModel) (climb : Climb) : String :=
  ScopePath.join (model.modulePath :: climb.names.reverse)

/-- The climb from an element passes its owners, and is over after at most one turn for each element
before it. -/
theorem endsIn (laws : ScopeLaws model.elements) :
    ∀ i e, model.elements[i]? = some e → ∀ names, ∃ n ≤ i,
      EndsIn (turn model) n ⟨e.placement.parentId, names⟩
        ⟨none, names ++ (model.modulesAround e).reverse⟩ := by
  refine climbInduction laws ?_ ?_
  · intro i e _ hparent names
    have hnone : model.modulesAround e = [] := by
      rw [modulesAround, owners_eq_nil hparent]
      rfl
    rw [hparent, hnone, List.reverse_nil, List.append_nil]
    exact ⟨0, Nat.zero_le i, .finished rfl⟩
  · intro i j p e _ hj _ _ howners hfound ih names
    have hturn : turn model ⟨e.placement.parentId, names⟩ =
        some ⟨p.placement.parentId, if p.kind = .mod then names ++ [p.name] else names⟩ := by
      rw [turn, hfound, Option.map_some]
    have hnames : (if p.kind = .mod then names ++ [p.name] else names) ++
        (model.modulesAround p).reverse = names ++ (model.modulesAround e).reverse := by
      rw [modulesAround, modulesAround, howners, List.map_reverse, List.reverse_reverse,
        List.map_reverse, List.reverse_reverse]
      by_cases hkind : p.kind = .mod <;> simp [hkind]
    obtain ⟨n, hn, hends⟩ := ih (if p.kind = .mod then names ++ [p.name] else names)
    rw [hnames] at hends
    exact ⟨n + 1, by omega, .more hturn hends⟩

/-- The climb from an element ends at its enclosing module. -/
theorem ends (laws : ScopeLaws model.elements) (hi : model.elements[i]? = some e) :
    Ends (turn model) i (start e) fun last => last.path model = model.enclosingModule e := by
  obtain ⟨n, hn, hends⟩ := endsIn laws i e hi []
  refine hends.ends hn ?_
  rw [path, enclosingModule_eq, List.nil_append, List.reverse_reverse]

end Climb

/-! ## The owner that decides who sees an element -/

/-- One turn of the search: an element without a visibility of its own leaves the decision to its
parent, if it has one. -/
def defer (model : FileModel) (e : Element) : Option Element :=
  if e.item.visibility = .inherited then e.placement.parentId.bind model.element? else none

/-- The search from an element stops at the first of it and its owners with a visibility of its own,
or else at an element that is seen wherever its file is. -/
theorem endsIn_defer (laws : ScopeLaws model.elements) :
    ∀ i e, model.elements[i]? = some e → ∃ n ≤ i, ∃ last,
      EndsIn model.defer n e last ∧
        ((e :: model.owners e).find? fun owner => owner.item.visibility ≠ .inherited) =
          if last.item.visibility = .inherited then none else some last := by
  have hstop : ∀ i e, e.item.visibility ≠ .inherited → ∃ n ≤ i, ∃ last,
      EndsIn model.defer n e last ∧
        ((e :: model.owners e).find? fun owner => owner.item.visibility ≠ .inherited) =
          if last.item.visibility = .inherited then none else some last := by
    intro i e hown
    refine ⟨0, Nat.zero_le i, e, .finished (if_neg hown), ?_⟩
    rw [if_neg hown, List.find?_cons_of_pos (by simpa using hown)]
  refine climbInduction laws ?_ ?_
  · intro i e _ hparent
    by_cases hown : e.item.visibility = .inherited
    · refine ⟨0, Nat.zero_le i, e, .finished ?_, ?_⟩
      · rw [defer, if_pos hown, hparent, Option.bind_none]
      · rw [if_pos hown, owners_eq_nil hparent]
        simp [hown]
    · exact hstop i e hown
  · intro i j p e _ hj _ _ howners hfound ih
    by_cases hown : e.item.visibility = .inherited
    · obtain ⟨n, hn, last, hends, hdecides⟩ := ih
      refine ⟨n + 1, by omega, last, .more ?_ hends, ?_⟩
      · rw [defer, if_pos hown, hfound]
      · rw [← hdecides, howners, List.find?_cons_of_neg (by simpa using hown)]
    · exact hstop i e hown

/-- Who sees what an element decides on, if the search stops at it. -/
def sightAt (model : FileModel) (last : Element) : Sight :=
  match last.item.visibility with
  | .pub | .inherited => ⟨.everywhere, none⟩
  | .priv => ⟨.home, none⟩
  | .restricted restriction => Sight.ofRestriction (model.enclosingModule last) restriction

/-- The search from an element ends at the element that decides who sees it. -/
theorem ends_defer (laws : ScopeLaws model.elements) (hi : model.elements[i]? = some e) :
    Ends model.defer i e fun last => model.sightAt last = Sight.ofElement model e := by
  obtain ⟨n, hn, last, hends, hdecides⟩ := endsIn_defer laws i e hi
  refine hends.ends hn ?_
  unfold sightAt Sight.ofElement
  simp only [hdecides]
  cases hvisibility : last.item.visibility <;> simp [hvisibility]

/-! ## Ancestors -/

open Element

/-- The ancestors of an element are its owners. -/
theorem descends_iff_mem_owners (laws : ScopeLaws model.elements) {a : Element} :
    ∀ (i : Nat) e, model.elements[i]? = some e →
      (Descends model.elements a e ↔ a ∈ model.owners e) := by
  refine climbInduction
    (P := fun _ e => Descends model.elements a e ↔ a ∈ model.owners e) laws ?_ ?_
  · intro i e _ hparent
    rw [owners_eq_nil hparent]
    constructor
    · intro hdescends
      obtain ⟨q, -, -, -, hlink⟩ := Relation.TransGen.tail'_iff.mp hdescends
      rw [hparent] at hlink
      cases hlink
    · intro hmem
      simp at hmem
  · intro i j p e hi hj hp hcontinues howners _ ih
    have hpmem := List.mem_of_getElem? hp
    have hemem := List.mem_of_getElem? hi
    have hlink : IsParent model.elements p e := ⟨hpmem, hemem, hcontinues.1⟩
    rw [howners, List.mem_cons, ← ih]
    constructor
    · intro hdescends
      obtain ⟨q, hfront, hq⟩ := Relation.TransGen.tail'_iff.mp hdescends
      have hid : q.id = p.id := Option.some.inj (hq.2.2.symm.trans hcontinues.1)
      obtain rfl : q = p := List.inj_on_of_nodup_map laws.ids_nodup hq.1 hpmem hid
      rcases Relation.reflTransGen_iff_eq_or_transGen.mp hfront with heq | htrans
      · exact .inl heq.symm
      · exact .inr htrans
    · rintro (rfl | hdescends)
      · exact .single hlink
      · exact hdescends.tail hlink

/-- Owners are listed from the inside out: each descends from those after it. -/
theorem owners_pairwise (laws : ScopeLaws model.elements) :
    ∀ (i : Nat) e, model.elements[i]? = some e →
      (model.owners e).Pairwise fun inner outer => Descends model.elements outer inner := by
  refine climbInduction
    (P := fun _ e => (model.owners e).Pairwise fun inner outer =>
      Descends model.elements outer inner) laws ?_ ?_
  · intro i e _ hparent
    rw [owners_eq_nil hparent]
    exact .nil
  · intro i j p e _ _ hp _ howners _ ih
    rw [howners, List.pairwise_cons]
    exact ⟨fun a ha => (descends_iff_mem_owners laws j p hp).mpr ha, ih⟩

/-- How the module of an element is found, and what it is. -/
structure ModuleAgreement (model : FileModel) (i : Nat) (e : Element) : Prop where
  /-- The climb to the enclosing module takes at most one turn for each element before. -/
  climb_ends : Ends (Climb.turn model) i (.start e) fun last =>
    last.path model = model.enclosingModule e
  /-- So does the search for the owner that decides who sees the element. -/
  search_ends : Ends model.defer i e fun last => model.sightAt last = Sight.ofElement model e
  /-- The module is that of the file, followed by the modules among the ancestors, each inside all
  those before it. -/
  path_eq : ∃ modules : List Element,
    (∀ a, a ∈ modules ↔ Descends model.elements a e ∧ a.kind = .mod) ∧
    modules.Pairwise (Descends model.elements) ∧
    model.enclosingModule e = ScopePath.join (model.modulePath :: modules.map Element.name)
  /-- Below modules only, it is the module of the file with the scope in which the element was
  placed, and the canonical path of the element continues it by the name. -/
  scope_eq : (∀ a, Descends model.elements a e → a.kind = .mod) →
    model.enclosingModule e = ScopePath.join [model.modulePath, e.placement.modulePath] ∧
    ∀ imports, (Resolver.namespaceOf imports model e).canonicalPath =
      ScopePath.join [model.enclosingModule e, e.name]

/-- The modules among the ancestors of an element make its enclosing module. -/
theorem exists_modules (laws : ScopeLaws model.elements) (hi : model.elements[i]? = some e) :
    ∃ modules : List Element,
      (∀ a, a ∈ modules ↔ Descends model.elements a e ∧ a.kind = .mod) ∧
      modules.Pairwise (Descends model.elements) ∧
      model.enclosingModule e =
        ScopePath.join (model.modulePath :: modules.map Element.name) := by
  refine ⟨((model.owners e).filter fun owner => owner.kind = .mod).reverse, ?_, ?_, ?_⟩
  · intro a
    rw [List.mem_reverse, List.mem_filter, descends_iff_mem_owners laws i e hi, decide_eq_true_eq]
  · exact List.pairwise_reverse.mpr ((owners_pairwise laws i e hi).filter _)
  · exact model.enclosingModule_eq e

/-- Below modules only, the enclosing module continues the module of the file by the scope. -/
theorem enclosingModule_of_modules (laws : ScopeLaws model.elements) (he : e ∈ model.elements)
    (hmods : ∀ owner ∈ model.owners e, owner.kind = .mod) :
    model.enclosingModule e = ScopePath.join [model.modulePath, e.placement.modulePath] := by
  have hall : ((model.owners e).filter fun owner => owner.kind = .mod) = model.owners e :=
    List.filter_eq_self.mpr fun owner howner => by simpa using hmods owner howner
  rw [enclosingModule_eq, modulesAround, hall, scope_eq_of_mods laws e he hmods,
    ScopePath.join_cons]

/-- In the model of a file, the climb from each element to its enclosing module ends, and so does
the search for the owner that decides who sees it.  The module found is that of the file with the
modules around the element; below modules only, it is the one in which the element was placed. -/
theorem build_moduleAgreement {path : String} {file : SourceFile} {text : String} {root : Node}
    (h : build path file text root = .ok model) :
    ∀ (i : Nat) e, model.elements[i]? = some e → ModuleAgreement model i e := by
  have laws := scopeLaws_of_build h
  intro i e hi
  have he := List.mem_of_getElem? hi
  refine ⟨Climb.ends laws hi, ends_defer laws hi, exists_modules laws hi, ?_⟩
  intro hmods
  have hpath := enclosingModule_of_modules laws he fun owner howner =>
    hmods owner ((descends_iff_mem_owners laws i e hi).mpr howner)
  refine ⟨hpath, fun imports => ?_⟩
  show ScopePath.join [model.modulePath, e.qualifiedName] = _
  rw [hpath, laws.qualifiedName_eq e he, ScopePath.join_assoc]

/-- In the sample, the member of the impl block in the module has two owners, and both it and the
impl block leave to the module who sees them.  The first function stands in the module alone. -/
theorem build_moduleAgreement_sample :
    ∃ model, build "/p/src/a.rs" (Sample.file true) Sample.text Sample.root = .ok model ∧
      (∃ e ∈ model.elements, model.elements[4]? = some e ∧ e.item.visibility = .inherited ∧
        (model.owners e).map Element.name = ["T for S", "a"] ∧
        model.enclosingModule e = "crate::a::a" ∧ ModuleAgreement model 4 e) ∧
      ∃ e ∈ model.elements, model.elements[1]? = some e ∧
        (∀ a, Descends model.elements a e → a.kind = .mod) ∧ e.placement.modulePath = "a" ∧
        model.enclosingModule e = ScopePath.join [model.modulePath, e.placement.modulePath] := by
  have h : (build "/p/src/a.rs" (Sample.file true) Sample.text Sample.root).map (fun model =>
      decide ((∃ e ∈ model.elements, model.elements[4]? = some e ∧
          e.item.visibility = .inherited ∧
          (model.owners e).map Element.name = ["T for S", "a"] ∧
          model.enclosingModule e = "crate::a::a") ∧
        ∃ e ∈ model.elements, model.elements[1]? = some e ∧
          (∀ owner ∈ model.owners e, owner.kind = .mod) ∧ e.placement.modulePath = "a")) =
      .ok true := by
    decide +kernel
  obtain ⟨model, hmodel, hfacts⟩ := Outcome.map_eq_ok_iff.mp h
  obtain ⟨⟨e, he, hat, hinherited, howners, hmodule⟩, f, hf, hfAt, hmods, hscope⟩ :=
    of_decide_eq_true hfacts
  have hagree := build_moduleAgreement hmodel
  have hancestors : ∀ a, Descends model.elements a f → a.kind = .mod := by
    intro a hdescends
    exact hmods a
      ((descends_iff_mem_owners (scopeLaws_of_build hmodel) 1 f hfAt).mp hdescends)
  exact ⟨model, hmodel, ⟨e, he, hat, hinherited, howners, hmodule, hagree 4 e hat⟩,
    f, hf, hfAt, hancestors, hscope, ((hagree 1 f hfAt).scope_eq hancestors).1⟩

end FileModel

end CrateAtlas
