import CrateAtlas.ElementId

/-!
# What an identifier tells

The components of an identifier may hold separators of their own, so not every component can
be read back.  The ordinal always can, because it holds no colon; the file path can if it holds
no separator and does not end in a colon.

Main results:

- Theorem {lit}`ordinal_eq_of_render_eq`: equal identifiers have equal ordinals.
- Theorem {lit}`filePath_eq_of_render_eq`: equal identifiers have equal file paths, if both are
  free of separators.
-/

namespace CrateAtlas.ElementId

/-! ## Texts around a separator -/

/-- A text is determined by what stands after its last colon. -/
theorem eq_of_append_colon_eq {xs ys ds es : List Char}
    (h : xs ++ ':' :: ds = ys ++ ':' :: es) (hds : ':' ∉ ds) (hes : ':' ∉ es) : ds = es := by
  rcases List.append_eq_append_iff.mp h with ⟨as, -, hright⟩ | ⟨as, -, hright⟩
  · cases as with
    | nil => simpa using hright
    | cons a as =>
        rw [List.cons_append, List.cons.injEq] at hright
        exact (hds (by rw [hright.2]; simp)).elim
  · cases as with
    | nil => simpa using hright.symm
    | cons a as =>
        rw [List.cons_append, List.cons.injEq] at hright
        exact (hes (by rw [hright.2]; simp)).elim

/-- A path from which the separator after it can be told: no separator occurs in it, and it
does not end in half of one. -/
structure Separable (path : String) : Prop where
  no_separator : ¬ScopePath.separator <:+: path.toList
  last_ne : path.toList.getLast? ≠ some ':'

/-- No continuation of a text by a separator is the front of a separable path. -/
theorem Separable.eq_nil_of_append {path : String} (h : Separable path) {xs as r r' : List Char}
    (hpath : path.toList = xs ++ as) (has : ':' :: ':' :: r = as ++ ':' :: ':' :: r') :
    as = [] := by
  match as, has with
  | [], _ => rfl
  | [a], has =>
      have ha : a = ':' := by
        simp only [List.cons_append, List.cons.injEq] at has
        exact has.1.symm
      exact (h.last_ne (by rw [hpath, ha]; simp)).elim
  | a :: b :: as, has =>
      simp only [List.cons_append, List.cons.injEq] at has
      obtain ⟨rfl, rfl, -⟩ := has
      exact (h.no_separator ⟨xs, as, by rw [hpath]; simp [ScopePath.separator]⟩).elim

/-- The path before a separator is determined, if it is separable. -/
theorem Separable.eq_of_append_separator_eq {p q : String} (hp : Separable p)
    (hq : Separable q) {r r' : List Char}
    (h : p.toList ++ ':' :: ':' :: r = q.toList ++ ':' :: ':' :: r') : p = q := by
  apply String.toList_injective
  rcases List.append_eq_append_iff.mp h with ⟨as, hleft, hright⟩ | ⟨as, hleft, hright⟩
  · have := hq.eq_nil_of_append hleft hright
    simp [hleft, this]
  · have := hp.eq_nil_of_append hleft hright
    simp [hleft, this]

/-! ## Identifiers -/

/-- The characters of an identifier. -/
theorem toList_render (id : ElementId) :
    id.render.toList = id.filePath.toList ++ ':' :: ':' :: (id.kind.toList ++ ':' :: ':' ::
      (id.qualifiedName.toList ++ ':' :: ':' :: (toString id.ordinal).toList)) := by
  simp [render, String.toList_append, List.append_assoc]

/-- A number is written without colons. -/
theorem colon_notMem_toString (n : Nat) : ':' ∉ (toString n).toList := by
  intro h
  rw [Nat.toString_eq_repr, Nat.toList_repr] at h
  have hdigit := Nat.isDigit_of_mem_toDigits (by decide) (by decide) h
  exact absurd hdigit (by decide)

/-- Identifiers with different ordinals differ, whatever their other components are. -/
theorem ordinal_eq_of_render_eq {a b : ElementId} (h : a.render = b.render) :
    a.ordinal = b.ordinal := by
  have hlists := congrArg String.toList h
  rw [toList_render, toList_render] at hlists
  have hsplit : ∀ id : ElementId, ∃ front : List Char,
      id.filePath.toList ++ ':' :: ':' :: (id.kind.toList ++ ':' :: ':' ::
        (id.qualifiedName.toList ++ ':' :: ':' :: (toString id.ordinal).toList)) =
          front ++ ':' :: (toString id.ordinal).toList := by
    intro id
    exact ⟨id.filePath.toList ++ ':' :: ':' :: (id.kind.toList ++ ':' :: ':' ::
      (id.qualifiedName.toList ++ [':'])), by simp⟩
  obtain ⟨frontA, hA⟩ := hsplit a
  obtain ⟨frontB, hB⟩ := hsplit b
  rw [hA, hB] at hlists
  have hdigits := eq_of_append_colon_eq hlists (colon_notMem_toString _) (colon_notMem_toString _)
  rw [Nat.toString_eq_repr, Nat.toString_eq_repr, Nat.toList_repr, Nat.toList_repr] at hdigits
  calc
    a.ordinal = Nat.ofDigitChars 10 (Nat.toDigits 10 a.ordinal) 0 :=
      Nat.ofDigitChars_ten_toDigits.symm
    _ = Nat.ofDigitChars 10 (Nat.toDigits 10 b.ordinal) 0 := by rw [hdigits]
    _ = b.ordinal := Nat.ofDigitChars_ten_toDigits

/-- Identifiers of different separable paths differ, whatever their other components are. -/
theorem filePath_eq_of_render_eq {a b : ElementId} (ha : Separable a.filePath)
    (hb : Separable b.filePath) (h : a.render = b.render) : a.filePath = b.filePath := by
  have hlists := congrArg String.toList h
  rw [toList_render, toList_render] at hlists
  exact ha.eq_of_append_separator_eq hb hlists

/-- An identifier with a positive ordinal is never refused. -/
theorem create_succ (filePath kind qualifiedName : String) (n : Nat) :
    create filePath kind qualifiedName (n + 1 : Nat) =
      .ok (render ⟨filePath, kind, qualifiedName, n + 1⟩) := by
  unfold create
  rw [if_neg (by omega)]
  rfl

end CrateAtlas.ElementId
