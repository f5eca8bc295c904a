import CrateAtlas.Glob.Match
import Mathlib.Data.List.Basic

/-!
# What glob patterns match

A pattern matches a path when the path can be cut into stretches of which each piece of the pattern
takes one.  Some patterns match everything below a directory once they match the directory with a
slash at its end, as one that ends in two stars does, or they never match such a path at all.

Main results:

- Theorem {lit}`covers_cons_iff`: the pieces of a pattern take one stretch after the other.
- Theorem {lit}`covers_append_iff`: two patterns after each other match two paths after each other.
- Theorem {lit}`covers_below`: patterns that match all that is below the directories they match.
-/

namespace CrateAtlas.Glob

/-! ## Stretches of a path -/

/-- The stretches that a piece takes. -/
def Piece.Takes : Piece → List Char → Prop
  | .char c, cs => cs = [c]
  | .one, cs => ∃ c, c ≠ '/' ∧ cs = [c]
  | .run, cs => '/' ∉ cs
  | .path, cs => '\n' ∉ cs
  | .directories, cs => cs = [] ∨ ∃ inner, '\n' ∉ inner ∧ cs = inner ++ ['/']
  | .group g, cs => ∃ c, g.holds c = true ∧ cs = [c]
  | .groupRun g, cs => ∀ c ∈ cs, g.holds c = true

variable {allowed : Char → Bool} {accepts : List Char → Bool} {cs rest : List Char}
  {ps qs : List Piece} {p : Piece}

theorem oneThen_iff : oneThen allowed accepts cs = true ↔
    ∃ front back, cs = front ++ back ∧ (∃ c, allowed c = true ∧ front = [c]) ∧
      accepts back = true := by
  cases cs with
  | nil => simp [oneThen]
  | cons c cs =>
      rw [oneThen, Bool.and_eq_true]
      constructor
      · rintro ⟨hc, hrest⟩
        exact ⟨[c], cs, rfl, ⟨c, hc, rfl⟩, hrest⟩
      · rintro ⟨front, back, hsplit, ⟨d, hd, rfl⟩, hback⟩
        obtain ⟨rfl, rfl⟩ := List.cons.inj hsplit
        exact ⟨hd, hback⟩

theorem someRest_iff : someRest allowed accepts cs = true ↔
    ∃ front back, cs = front ++ back ∧ (∀ c ∈ front, allowed c = true) ∧ accepts back = true := by
  induction cs with
  | nil => simp [someRest]
  | cons c cs ih =>
      rw [someRest, Bool.or_eq_true, Bool.and_eq_true, ih]
      constructor
      · rintro (h | ⟨hc, front, back, rfl, hfront, hback⟩)
        · exact ⟨[], c :: cs, rfl, by simp, h⟩
        · exact ⟨c :: front, back, rfl, List.forall_mem_cons.mpr ⟨hc, hfront⟩, hback⟩
      · rintro ⟨front, back, hsplit, hfront, hback⟩
        cases front with
        | nil => exact .inl (hsplit ▸ hback)
        | cons d front =>
            obtain ⟨rfl, rfl⟩ := List.cons.inj hsplit
            obtain ⟨hd, hfront⟩ := List.forall_mem_cons.mp hfront
            exact .inr ⟨hd, front, back, rfl, hfront, hback⟩

theorem someRestAfterSlash_iff : someRestAfterSlash accepts cs = true ↔
    ∃ inner back, cs = inner ++ '/' :: back ∧ '\n' ∉ inner ∧ accepts back = true := by
  induction cs with
  | nil => simp [someRestAfterSlash]
  | cons c cs ih =>
      rw [someRestAfterSlash, Bool.or_eq_true, Bool.and_eq_true, Bool.and_eq_true, ih]
      constructor
      · rintro (⟨hc, h⟩ | ⟨hc, inner, back, rfl, hinner, hback⟩)
        · exact ⟨[], cs, by simp [eq_of_beq hc], by simp, h⟩
        · refine ⟨c :: inner, back, rfl, ?_, hback⟩
          rw [List.mem_cons, not_or]
          exact ⟨fun heq => by simp [← heq] at hc, hinner⟩
      · rintro ⟨inner, back, hsplit, hinner, hback⟩
        cases inner with
        | nil =>
            obtain ⟨rfl, rfl⟩ := List.cons.inj hsplit
            exact .inl ⟨by simp, hback⟩
        | cons d inner =>
            obtain ⟨rfl, rfl⟩ := List.cons.inj hsplit
            rw [List.mem_cons, not_or] at hinner
            have hc : (c != '\n') = true := by simpa using fun heq => hinner.1 heq.symm
            exact .inr ⟨hc, inner, back, rfl, hinner.2, hback⟩

/-- The pieces of a pattern take one stretch after the other. -/
theorem covers_cons_iff : covers (p :: ps) cs = true ↔
    ∃ front back, cs = front ++ back ∧ p.Takes front ∧ covers ps back = true := by
  have hnot : ∀ (c : Char) (front : List Char),
      (∀ d ∈ front, (d != c) = true) ↔ c ∉ front := by
    intro c front
    constructor
    · intro h hmem
      simpa using h c hmem
    · intro h d hd
      simp only [bne_iff_ne, ne_eq]
      exact fun heq => h (heq ▸ hd)
  cases p with
  | char c =>
      rw [covers, oneThen_iff]
      simp [Piece.Takes]
  | one =>
      rw [covers, oneThen_iff]
      simp [Piece.Takes]
  | run =>
      rw [covers, someRest_iff]
      simp only [hnot, Piece.Takes]
  | path =>
      rw [covers, someRest_iff]
      simp only [hnot, Piece.Takes]
  | directories =>
      rw [covers, Bool.or_eq_true, someRestAfterSlash_iff]
      constructor
      · rintro (h | ⟨inner, back, rfl, hinner, hback⟩)
        · exact ⟨[], cs, rfl, .inl rfl, h⟩
        · exact ⟨inner ++ ['/'], back, by simp, .inr ⟨inner, hinner, rfl⟩, hback⟩
      · rintro ⟨front, back, rfl, rfl | ⟨inner, hinner, rfl⟩, hback⟩
        · exact .inl hback
        · exact .inr ⟨inner, back, by simp, hinner, hback⟩
  | group g =>
      rw [covers, oneThen_iff]
      rfl
  | groupRun g =>
      rw [covers, someRest_iff]
      rfl

/-- Two patterns after each other match two paths after each other. -/
theorem covers_append_iff : covers (ps ++ qs) cs = true ↔
    ∃ front back, cs = front ++ back ∧ covers ps front = true ∧ covers qs back = true := by
  induction ps generalizing cs with
  | nil => simp [covers]
  | cons p ps ih =>
      rw [List.cons_append, covers_cons_iff]
      constructor
      · rintro ⟨first, later, rfl, hfirst, hlater⟩
        obtain ⟨front, back, rfl, hfront, hback⟩ := ih.mp hlater
        exact ⟨first ++ front, back, (List.append_assoc _ _ _).symm,
          covers_cons_iff.mpr ⟨first, front, rfl, hfirst, hfront⟩, hback⟩
      · rintro ⟨front, back, rfl, hfront, hback⟩
        obtain ⟨first, later, rfl, hfirst, hlater⟩ := covers_cons_iff.mp hfront
        exact ⟨first, later ++ back, List.append_assoc _ _ _, hfirst,
          ih.mpr ⟨later, back, rfl, hlater, hback⟩⟩

/-- The last piece of a pattern takes the end of the path. -/
theorem covers_concat_iff : covers (ps ++ [p]) cs = true ↔
    ∃ front back, cs = front ++ back ∧ covers ps front = true ∧ p.Takes back := by
  rw [covers_append_iff]
  constructor
  · rintro ⟨front, back, rfl, hfront, hback⟩
    obtain ⟨last, nothing, rfl, hlast, hnothing⟩ := covers_cons_iff.mp hback
    rw [covers, List.isEmpty_iff] at hnothing
    subst hnothing
    exact ⟨front, last, by simp, hfront, hlast⟩
  · rintro ⟨front, back, rfl, hfront, hback⟩
    exact ⟨front, back, rfl, hfront, covers_cons_iff.mpr ⟨back, [], by simp, hback, rfl⟩⟩

/-! ## Patterns that match whole directories -/

/-- Whether pieces, given from the last to the first, match all that is below a directory if they
match the directory with a slash at its end.  Two stars at the end do, with or without a further
star; pieces that cannot take a slash never match such a directory. -/
def wholeBelow : List Piece → Bool
  | [] => true
  | .char c :: _ => c != '/'
  | .one :: _ => true
  | .group g :: _ => !g.holds '/'
  | .path :: _ => true
  | .directories :: _ => false
  | .run :: .directories :: _ => true
  | .run :: rest => wholeBelow rest
  | .groupRun g :: rest => !g.holds '/' && wholeBelow rest

/-- A pattern that can be read and matches all that is below the directories it matches. -/
def IsWhole (pattern : String) : Prop :=
  ∃ pieces, compile pattern = .ok pieces ∧ wholeBelow pieces.reverse = true

/-- The end of a path that ends in a slash is empty or ends in a slash. -/
theorem end_of_slash {directory front back : List Char} (h : directory ++ ['/'] = front ++ back) :
    back = [] ∨ ∃ inner, back = inner ++ ['/'] ∧ directory = front ++ inner := by
  rcases List.eq_nil_or_concat' back with rfl | ⟨inner, last, rfl⟩
  · exact .inl rfl
  · rw [← List.append_assoc] at h
    obtain ⟨hdirectory, hlast⟩ := List.append_inj' h rfl
    exact .inr ⟨inner, by rw [List.singleton_inj.mp hlast], hdirectory⟩

/-- A piece that takes no slash takes nothing at the end of such a path. -/
theorem eq_nil_of_slash {directory front back : List Char}
    (h : directory ++ ['/'] = front ++ back) (hslash : '/' ∉ back) : back = [] := by
  rcases end_of_slash h with hnil | ⟨inner, rfl, -⟩
  · exact hnil
  · simp at hslash

/-- A piece at the end that takes one character, and no slash, never matches a directory. -/
theorem not_covers_concat_of_single {directory : List Char}
    (hsingle : ∀ back, p.Takes back → ∃ c, c ≠ '/' ∧ back = [c]) :
    ¬covers (ps ++ [p]) (directory ++ ['/']) = true := by
  intro hcovers
  obtain ⟨front, back, hsplit, -, hback⟩ := covers_concat_iff.mp hcovers
  obtain ⟨c, hc, rfl⟩ := hsingle back hback
  obtain ⟨-, hlast⟩ := List.append_inj' hsplit rfl
  exact hc (List.singleton_inj.mp hlast).symm

/-- A piece at the end that takes no slash, and need not take anything, changes nothing about
directories and what is below them. -/
theorem covers_concat_of_slash {directory : List Char} (hnil : p.Takes [])
    (hslash : ∀ back, p.Takes back → '/' ∉ back)
    (hbelow : covers ps (directory ++ ['/']) = true → covers ps (directory ++ '/' :: rest) = true)
    (h : covers (ps ++ [p]) (directory ++ ['/']) = true) :
    covers (ps ++ [p]) (directory ++ '/' :: rest) = true := by
  obtain ⟨front, back, hsplit, hfront, hback⟩ := covers_concat_iff.mp h
  obtain rfl := eq_nil_of_slash hsplit (hslash back hback)
  rw [List.append_nil] at hsplit
  exact covers_concat_iff.mpr
    ⟨directory ++ '/' :: rest, [], by simp, hbelow (hsplit ▸ hfront), hnil⟩

/-- A path without line feeds is a number of whole directories and a name. -/
theorem exists_directories (inner rest : List Char) (hrest : '\n' ∉ rest)
    (hinner : Piece.directories.Takes inner) :
    ∃ front back, inner ++ rest = front ++ back ∧ Piece.directories.Takes front ∧
      Piece.run.Takes back := by
  by_cases hslash : '/' ∈ rest
  · obtain ⟨later, first, hreverse, hlater⟩ :=
      List.eq_append_cons_of_mem (List.mem_reverse.mpr hslash)
    have hsplit : rest = first.reverse ++ '/' :: later.reverse := by
      rw [← List.reverse_reverse rest, hreverse]
      simp
    refine ⟨inner ++ first.reverse ++ ['/'], later.reverse, by simp [hsplit], .inr ?_, ?_⟩
    · refine ⟨inner ++ first.reverse, ?_, rfl⟩
      rw [List.mem_append, not_or]
      refine ⟨?_, fun hmem => hrest (by simp [hsplit, List.mem_reverse.mp hmem])⟩
      rcases hinner with rfl | ⟨deep, hdeep, rfl⟩
      · simp
      · simpa using hdeep
    · exact fun hmem => hlater (List.mem_reverse.mp hmem)
  · exact ⟨inner, rest, rfl, hinner, hslash⟩

/-- Patterns that match all that is below the directories they match, given from the end. -/
theorem covers_reverse_below {rs : List Piece} (h : wholeBelow rs = true) :
    ∀ {directory rest : List Char}, covers rs.reverse (directory ++ ['/']) = true → '\n' ∉ rest →
      covers rs.reverse (directory ++ '/' :: rest) = true := by
  induction rs using wholeBelow.induct with
  | case1 =>
      intro directory rest hcovers _
      simp [covers] at hcovers
  | case2 c rs =>
      intro directory rest hcovers _
      rw [List.reverse_cons] at hcovers
      have hc : c ≠ '/' := by simpa [wholeBelow] using h
      refine (not_covers_concat_of_single ?_ hcovers).elim
      intro back hback
      exact ⟨c, hc, hback⟩
  | case3 rs =>
      intro directory rest hcovers _
      rw [List.reverse_cons] at hcovers
      refine (not_covers_concat_of_single ?_ hcovers).elim
      intro back hback
      exact hback
  | case4 g rs =>
      intro directory rest hcovers _
      rw [List.reverse_cons] at hcovers
      have hslash : g.holds '/' = false := by simpa [wholeBelow] using h
      refine (not_covers_concat_of_single ?_ hcovers).elim
      rintro back ⟨c, hc, hback⟩
      exact ⟨c, fun heq => by simp [heq, hslash] at hc, hback⟩
  | case5 rs =>
      intro directory rest hcovers hrest
      rw [List.reverse_cons] at hcovers ⊢
      obtain ⟨front, back, hsplit, hfront, hback⟩ := covers_concat_iff.mp hcovers
      refine covers_concat_iff.mpr ⟨front, back ++ rest, ?_, hfront, ?_⟩
      · rw [← List.append_assoc, ← hsplit]
        simp
      · simp only [Piece.Takes, List.mem_append, not_or] at hback ⊢
        exact ⟨hback, hrest⟩
  | case6 rs => simp [wholeBelow] at h
  | case7 rs =>
      intro directory rest hcovers hrest
      rw [List.reverse_cons, List.reverse_cons] at hcovers ⊢
      obtain ⟨front, back, hsplit, hfront, hback⟩ := covers_concat_iff.mp hcovers
      obtain rfl := eq_nil_of_slash hsplit hback
      rw [List.append_nil] at hsplit
      obtain ⟨outer, inner, hinside, houter, hinner⟩ := covers_concat_iff.mp (hsplit ▸ hfront)
      obtain ⟨deep, name, hdeep, hdirectories, hname⟩ := exists_directories inner rest hrest hinner
      refine covers_concat_iff.mpr ⟨outer ++ deep, name, ?_,
        covers_concat_iff.mpr ⟨outer, deep, rfl, houter, hdirectories⟩, hname⟩
      rw [List.append_assoc, ← hdeep, ← List.append_assoc, ← hinside]
      simp
  | case8 rs hother ih =>
      intro directory rest hcovers hrest
      have hwhole : wholeBelow rs = true := by
        rw [wholeBelow] at h
        · exact h
        · exact hother
      rw [List.reverse_cons] at hcovers ⊢
      exact covers_concat_of_slash (by simp [Piece.Takes]) (fun back hback => hback)
        (fun hinner => ih hwhole hinner hrest) hcovers
  | case9 g rs ih =>
      intro directory rest hcovers hrest
      rw [wholeBelow, Bool.and_eq_true, Bool.not_eq_true'] at h
      rw [List.reverse_cons] at hcovers ⊢
      have hslash : ∀ back, (Piece.groupRun g).Takes back → '/' ∉ back := by
        intro back hback hmem
        simp [hback '/' hmem] at h
      exact covers_concat_of_slash (by simp [Piece.Takes]) hslash
        (fun hinner => ih h.2 hinner hrest) hcovers

/-- Patterns that match all that is below the directories they match. -/
theorem covers_below (h : wholeBelow ps.reverse = true) {directory : List Char}
    (hdirectory : covers ps (directory ++ ['/']) = true) (hrest : '\n' ∉ rest) :
    covers ps (directory ++ '/' :: rest) = true := by
  rw [← List.reverse_reverse ps] at hdirectory ⊢
  exact covers_reverse_below h hdirectory hrest

end CrateAtlas.Glob
