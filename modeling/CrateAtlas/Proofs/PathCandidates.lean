import CrateAtlas.Proofs.ModulePrivacy
import CrateAtlas.Proofs.PathSegments
import Mathlib.Data.List.DropRight

/-!
# Candidates for a path

A path that is written in a module may denote several absolute paths.  Each of them consists of
leading segments of the module path, at least the root of the crate, and of the last segments of
the written path.  It is absolute and stands for itself, except where a module path that ends in a
colon makes two separators meet.

Main results:

- Theorem {lit}`parentModule_climbed`: climbing to the module around, which stops at the root.
- Theorem {lit}`exists_lead`: what candidates consist of.
- Theorem {lit}`join_split_or_doubled`: a candidate is kept by splitting and joining, or two
  separators meet in it.
- Theorem {lit}`candidates_laws`: candidates are absolute, they stand for themselves exactly if no
  separators meet, and relative heads climb.
- Theorem {lit}`candidates_strays`: a module path for which a candidate does not stand for itself.
-/

namespace CrateAtlas.ScopePath

variable {p q cs : List Char} {segments front back lead rest : List (List Char)}

/-! ## Parts of segments -/

theorem Segments.sealed_of_append (h : Segments (front ++ back)) (hne : back ≠ []) :
    ∀ p ∈ front, Sealed p := by
  induction front with
  | nil => simp
  | cons p later ih =>
      rw [List.cons_append] at h
      cases hsplit : later ++ back with
      | nil => exact absurd (List.append_eq_nil_iff.mp hsplit).2 hne
      | cons r more =>
          rw [hsplit] at h
          cases h with
          | cons _ hp hrest => exact List.forall_mem_cons.mpr ⟨hp, ih (hsplit ▸ hrest)⟩

theorem Segments.leading (h : Segments segments) (hfront : front <+: segments) :
    Segments front := by
  obtain ⟨back, rfl⟩ := hfront
  by_cases hne : back = []
  · rwa [hne, List.append_nil] at h
  · apply Segments.of_sealed
    intro p hp
    exact ⟨h.ne_nil p (List.mem_append_left _ hp), h.sealed_of_append hne p hp⟩

theorem Segments.trailing (h : Segments segments) (hback : back <:+ segments) :
    Segments back := by
  obtain ⟨front, rfl⟩ := hback
  induction front with
  | nil => exact h
  | cons p later ih =>
      apply ih
      cases hsplit : later ++ back with
      | nil => exact .nil
      | cons r more =>
          rw [List.cons_append, hsplit] at h
          cases h with
          | cons _ _ hrest => exact hrest

/-- Segments are all sealed, or the last one is not. -/
theorem Segments.cases_last (h : Segments segments) :
    (∀ p ∈ segments, p ≠ [] ∧ Sealed p) ∨
      ∃ front last, segments = front ++ [last] ∧ (∀ p ∈ front, p ≠ [] ∧ Sealed p) ∧
        last ≠ [] ∧ Unbroken last ∧ ¬Sealed last := by
  induction h with
  | nil => exact .inl (by simp)
  | @last p hp hunbroken =>
      by_cases hsealed : Sealed p
      · exact .inl (by simpa using ⟨hp, hsealed⟩)
      · exact .inr ⟨[], p, rfl, by simp, hp, hunbroken, hsealed⟩
  | @cons p rest hp hsealed _ ih =>
      rcases ih with hall | ⟨front, last, rfl, hfront, hlast⟩
      · exact .inl (List.forall_mem_cons.mpr ⟨⟨hp, hsealed⟩, hall⟩)
      · exact .inr ⟨p :: front, last, rfl, List.forall_mem_cons.mpr ⟨⟨hp, hsealed⟩, hfront⟩, hlast⟩

/-! ## Paths without empty segments -/

/-- The segments that are read, the empty ones included, make up the path. -/
theorem intercalate_segmentsFrom (previous : Char) (depth : Nat) (segment cs : List Char) :
    separator.intercalate (segmentsFrom previous depth segment cs) = segment.reverse ++ cs := by
  fun_induction segmentsFrom previous depth segment cs with
  | case1 previous depth segment => simp
  | case2 previous segment rest ih =>
      have hne : segmentsFrom ':' 0 [] rest ≠ [] := by
        intro hnil
        obtain ⟨front, last, hsegments, -⟩ :=
          @exists_sealed_segmentsFrom ':' 0 [] rest unbroken_nil rfl
            (fun c => depthAfter_zero_congr _ _ c) (by simp)
        simp [hsegments] at hnil
      rw [List.intercalate_cons_of_ne_nil hne, ih]
      simp [separator]
  | case3 previous depth segment c rest _ ih => simpa using ih

theorem joinChars_splitChars_of_notMem (h : [] ∉ segmentsFrom ' ' 0 [] cs) :
    joinChars (splitChars cs) = cs := by
  have hall : (segmentsFrom ' ' 0 [] cs).filter (fun segment => !segment.isEmpty) =
      segmentsFrom ' ' 0 [] cs := by
    apply List.filter_eq_self.mpr
    intro segment hsegment
    have hne : segment ≠ [] := fun hnil => h (hnil ▸ hsegment)
    simpa using hne
  rw [joinChars, splitChars, List.filter_filter]
  simp only [Bool.and_self]
  rw [hall]
  exact intercalate_segmentsFrom ' ' 0 [] cs

/-- In deeper brackets fewer separators are recognised, and no segment gets empty. -/
theorem segmentsFrom_deeper {previous : Char} {depth depth' : Nat} {segment segment' cs : List Char}
    (hdepth : depth ≤ depth') (hsegment : segment' = [] → segment = [])
    (h : [] ∉ segmentsFrom previous depth segment cs) :
    [] ∉ segmentsFrom previous depth' segment' cs := by
  fun_induction segmentsFrom previous depth segment cs generalizing depth' segment' with
  | case1 previous depth segment =>
      simp only [segmentsFrom, List.mem_singleton, List.nil_eq, List.reverse_eq_nil_iff] at h ⊢
      exact fun hnil => h (hsegment hnil)
  | case2 previous segment rest ih =>
      simp only [List.mem_cons, List.nil_eq, List.reverse_eq_nil_iff, not_or] at h
      cases depth' with
      | zero =>
          show [] ∉ segmentsFrom previous 0 segment' (separator ++ rest)
          rw [segmentsFrom_cut, List.mem_cons, not_or]
          refine ⟨?_, ih (Nat.le_refl 0) (fun _ => rfl) h.2⟩
          simpa using fun hnil => h.1 (hsegment hnil)
      | succ depth' =>
          -- Both colons are read as part of the segment.
          rw [segmentsFrom_cons (by simp), depthAfter_of_ne (by decide) (by decide),
            segmentsFrom_cons (by simp), depthAfter_of_ne (by decide) (by decide)]
          exact ih (Nat.zero_le _) (by simp) h.2
  | case3 previous depth segment c rest hnocut ih =>
      rw [segmentsFrom_cons]
      · exact ih (depthAfter_mono hdepth) (by simp) h
      · rintro ⟨rfl, rfl, hhead⟩
        obtain ⟨later, hlater⟩ := List.head?_eq_some_iff.mp hhead
        exact hnocut later (Nat.le_zero.mp hdepth) rfl hlater

/-- Segments behind an open bracket belong to the segment that opens it. -/
theorem join_split_of_open (hunbroken : Unbroken p) (hdepth : depthOf p ≠ 0)
    (hrest : Segments rest) (hne : rest ≠ []) :
    joinChars (splitChars (p ++ separator ++ joinChars rest)) =
      p ++ separator ++ joinChars rest := by
  apply joinChars_splitChars_of_notMem
  have hread := hunbroken.reads.segments (separator ++ joinChars rest) (fun h => hdepth h.1)
  rw [List.reverse_reverse] at hread
  obtain ⟨depth, hdepth⟩ := Nat.exists_eq_succ_of_ne_zero hdepth
  rw [List.append_assoc, hread, hdepth]
  -- The separator is read as part of the segment, and the rest as it stands, but in brackets.
  show [] ∉ segmentsFrom _ (depth + 1) p.reverse (':' :: ':' :: joinChars rest)
  rw [segmentsFrom_cons (by simp), depthAfter_of_ne (by decide) (by decide),
    segmentsFrom_cons (by simp), depthAfter_of_ne (by decide) (by decide)]
  apply segmentsFrom_deeper (Nat.zero_le _) (fun _ => rfl)
  rw [segmentsFrom_previous ':' ' ', hrest.segmentsFrom_joinChars hne]
  exact fun hnil => hrest.ne_nil [] hnil rfl

/-- Sealed segments in front are kept. -/
theorem join_split_behind (hfront : ∀ p ∈ front, p ≠ [] ∧ Sealed p)
    (h : joinChars (splitChars cs) = cs) :
    joinChars (splitChars (joinChars [joinChars front, cs])) = joinChars [joinChars front, cs] := by
  rw [splitChars_joinChars fun p hp => ⟨(hfront p hp).1, (hfront p hp).2.settles⟩,
    joinChars_append, h]

/-! ## Separators that meet -/

/-- Two separators meet outside angle brackets. -/
def Doubled (cs : List Char) : Prop :=
  ∃ front back, cs = front ++ separator ++ separator ++ back ∧ depthOf front = 0

/-- Where two separators meet, an empty segment is read. -/
theorem nil_mem_segmentsFrom {previous : Char} {depth : Nat} {segment front back : List Char}
    (h : depthFrom previous depth front = 0) :
    [] ∈ segmentsFrom previous depth segment (front ++ separator ++ separator ++ back) := by
  generalize hcs : front ++ separator ++ separator ++ back = cs
  fun_induction segmentsFrom previous depth segment cs generalizing front with
  | case1 previous depth segment => simp [separator] at hcs
  | case2 previous segment rest ih =>
      rcases front with _ | ⟨c, _ | ⟨d, later⟩⟩
      · obtain rfl : separator ++ back = rest := by simpa [separator] using hcs
        rw [segmentsFrom_cut]
        simp
      · -- The first colon of the two separators ends the one that is read.
        obtain ⟨-, rfl⟩ : c = ':' ∧ separator ++ ':' :: back = rest := by
          simpa [separator] using hcs
        rw [segmentsFrom_cut]
        simp
      · obtain ⟨rfl, rfl, hrest⟩ : c = ':' ∧ d = ':' ∧
            later ++ separator ++ separator ++ back = rest := by
          simpa [separator] using hcs
        rw [depthFrom, depthAfter_of_ne (by decide) (by decide), depthFrom,
          depthAfter_of_ne (by decide) (by decide)] at h
        exact List.mem_cons_of_mem _ (ih h hrest)
  | case3 previous depth segment c rest hnocut ih =>
      cases front with
      | nil =>
          obtain ⟨rfl, hrest⟩ : ':' = c ∧ ':' :: (separator ++ back) = rest := by
            simpa [separator] using hcs
          exact absurd hrest.symm (hnocut _ h rfl)
      | cons d later =>
          obtain ⟨rfl, hrest⟩ : d = c ∧ later ++ separator ++ separator ++ back = rest := by
            simpa [separator] using hcs
          exact ih h hrest

/-- In a path that splitting and joining does not change no separators meet. -/
theorem not_doubled_of_join_split (h : joinChars (splitChars cs) = cs) : ¬Doubled cs := by
  rintro ⟨front, back, rfl, hdepth⟩
  have hsegments := segments_splitChars (front ++ separator ++ separator ++ back)
  have hne : splitChars (front ++ separator ++ separator ++ back) ≠ [] := by
    intro hnil
    rw [hnil] at h
    simp [joinChars, separator] at h
  have hread := hsegments.segmentsFrom_joinChars hne
  rw [h] at hread
  have hmem := @nil_mem_segmentsFrom ' ' 0 [] front back hdepth
  rw [hread] at hmem
  exact hsegments.ne_nil [] hmem rfl

theorem depthOf_joinChars (h : ∀ p ∈ front, p ≠ [] ∧ Sealed p) : depthOf (joinChars front) = 0 := by
  induction front with
  | nil => rfl
  | cons p rest ih =>
      obtain ⟨⟨hp, hsealed⟩, hrest⟩ := List.forall_mem_cons.mp h
      rw [joinChars_cons]
      by_cases hnil : joinChars rest = []
      · rw [hnil, joinChars_nil_right]
        exact hsealed.depth_eq
      · rw [joinChars_pair hp hnil, List.append_assoc, depthOf_append hsealed.depth_eq,
          depthOf_append (by decide)]
        exact ih hrest

/-- A colon in front of a segment that does not start with one belongs to it. -/
theorem Unbroken.colon_cons (h : Unbroken p) (hhead : p.head? ≠ some ':') :
    Unbroken (':' :: p) := by
  intro front back heq hdepth
  cases front with
  | nil =>
      obtain rfl : p = ':' :: back := by simpa [separator] using heq
      exact hhead rfl
  | cons c later =>
      obtain ⟨rfl, rfl⟩ : ':' = c ∧ p = later ++ separator ++ back := by simpa using heq
      rw [← List.singleton_append, depthOf_append (by decide)] at hdepth
      exact h later back rfl hdepth

theorem Segments.colon_cons (h : Segments (p :: rest)) (hhead : p.head? ≠ some ':') :
    Segments ((':' :: p) :: rest) := by
  cases h with
  | last hp hunbroken => exact .last (by simp) (hunbroken.colon_cons hhead)
  | cons hp hsealed hrest =>
      refine .cons (by simp) ⟨?_, hsealed.unbroken.colon_cons hhead, ?_⟩ hrest
      · rw [← List.singleton_append, depthOf_append (by decide)]
        exact hsealed.depth_eq
      · obtain ⟨c, later, rfl⟩ := List.exists_cons_of_ne_nil hp
        rw [List.getLast?_cons_cons]
        exact hsealed.last_ne

theorem joinChars_cons_cons (c : Char) (hp : p ≠ []) :
    joinChars ((c :: p) :: rest) = c :: joinChars (p :: rest) := by
  rw [joinChars_cons, joinChars_cons p]
  by_cases hnil : joinChars rest = []
  · rw [hnil, joinChars_nil_right, joinChars_nil_right]
  · rw [joinChars_pair (by simp) hnil, joinChars_pair hp hnil]
    rfl

theorem joinChars_pair_append (a : List Char) (hq : q ≠ []) (b : List Char) :
    joinChars [a, q ++ b] = joinChars [a, q] ++ b := by
  by_cases ha : a = []
  · rw [ha, joinChars_nil_left, joinChars_nil_left]
  · rw [joinChars_pair ha (by simp [hq]), joinChars_pair ha hq, ← List.append_assoc]

theorem prefix_joinChars (p : List Char) (rest : List (List Char)) :
    p <+: joinChars (p :: rest) := by
  by_cases hp : p = []
  · rw [hp]
    exact List.nil_prefix
  · rw [joinChars_cons]
    by_cases hnil : joinChars rest = []
    · rw [hnil, joinChars_nil_right]
    · rw [joinChars_pair hp hnil, List.append_assoc]
      exact List.prefix_append _ _

/-- Behind a segment that ends in a colon, that colon is kept if it is the only one beside the
separator, and otherwise separators meet. -/
theorem join_split_or_doubled_of_colon (hfront : ∀ p ∈ front, p ≠ [] ∧ Sealed p)
    (hne : front ≠ []) (hunbroken : Unbroken (q ++ [':'])) (hdepth : depthOf q = 0)
    (hrest : Segments (p :: rest)) :
    joinChars (splitChars (joinChars (front ++ (q ++ [':']) :: p :: rest))) =
        joinChars (front ++ (q ++ [':']) :: p :: rest) ∨
      Doubled (joinChars (front ++ (q ++ [':']) :: p :: rest)) := by
  obtain ⟨hq, hlast⟩ := unbroken_concat_iff.mp hunbroken
  have hjoined : joinChars (p :: rest) ≠ [] := joinChars_ne_nil (by simp) hrest.ne_nil
  have hpath : joinChars (front ++ (q ++ [':']) :: p :: rest) =
      joinChars [joinChars front, q ++ ':' :: (separator ++ joinChars (p :: rest))] := by
    rw [joinChars_append, joinChars_cons (q ++ [':']), joinChars_pair (by simp) hjoined]
    simp
  rw [hpath]
  by_cases hnil : q = []
  · -- The segment is a colon between two separators.
    right
    have hfrontNe : joinChars front ≠ [] := joinChars_ne_nil hne fun r hr => (hfront r hr).1
    refine ⟨joinChars front, ':' :: joinChars (p :: rest), ?_, depthOf_joinChars hfront⟩
    rw [hnil, joinChars_pair hfrontNe (by simp)]
    simp [separator]
  · have hlead : ∀ r ∈ front ++ [q], r ≠ [] ∧ Sealed r := by
      rw [List.forall_mem_append, List.forall_mem_singleton]
      exact ⟨hfront, hnil, hdepth, hq, fun hcolon => hlast ⟨hdepth, hcolon, rfl⟩⟩
    by_cases hhead : p.head? = some ':'
    · right
      obtain ⟨later, rfl⟩ := List.head?_eq_some_iff.mp hhead
      obtain ⟨tail, htail⟩ := prefix_joinChars (':' :: later) rest
      refine ⟨joinChars (front ++ [q]), later ++ tail, ?_, depthOf_joinChars hlead⟩
      rw [joinChars_pair_append _ hnil, ← htail, joinChars_append front, joinChars_singleton]
      simp [separator]
    · -- The colon is read with the segment behind it.
      left
      have hp : p ≠ [] := hrest.ne_nil p (by simp)
      have hmoved : joinChars [joinChars front, q ++ ':' :: (separator ++ joinChars (p :: rest))] =
          joinChars ((front ++ [q]) ++ (':' :: p) :: rest) := by
        rw [List.append_assoc, List.singleton_append, joinChars_append, joinChars_cons q,
          joinChars_cons_cons ':' hp, joinChars_pair hnil (by simp)]
        simp [separator]
      rw [hmoved, (Segments.append hlead (hrest.colon_cons hhead)).splitChars_joinChars]

/-- A path is kept by splitting and joining if it consists of leading segments of a path, the first
of them sealed, and of segments of another path; or separators meet in it, where the leading
segments end in a colon. -/
theorem join_split_or_doubled (hlead : Segments lead) (hroot : ∃ p ∈ lead.head?, Sealed p)
    (hrest : Segments rest) :
    joinChars (splitChars (joinChars (lead ++ rest))) = joinChars (lead ++ rest) ∨
      Doubled (joinChars (lead ++ rest)) ∧ (joinChars lead).getLast? = some ':' := by
  rcases hlead.cases_last with hall | ⟨front, last, rfl, hfront, hlastNe, hunbroken, hnot⟩
  · left
    rw [(Segments.append hall hrest).splitChars_joinChars]
  cases rest with
  | nil =>
      left
      rw [List.append_nil, hlead.splitChars_joinChars]
  | cons p later =>
      rw [List.append_assoc, List.singleton_append]
      by_cases hdepth : depthOf last = 0
      · have hcolon : last.getLast? = some ':' :=
          by_contra fun hcolon => hnot ⟨hdepth, hunbroken, hcolon⟩
        obtain ⟨q, rfl⟩ := List.getLast?_eq_some_iff.mp hcolon
        have hfrontNe : front ≠ [] := by
          rintro rfl
          obtain ⟨p, hp, hsealed⟩ := hroot
          obtain rfl : q ++ [':'] = p := by simpa using hp
          exact hnot hsealed
        rw [depthOf_concat_colon] at hdepth
        refine (join_split_or_doubled_of_colon hfront hfrontNe hunbroken hdepth hrest).imp_right ?_
        intro hdoubled
        refine ⟨hdoubled, ?_⟩
        rw [joinChars_append, joinChars_singleton, joinChars_pair
          (joinChars_ne_nil hfrontNe fun r hr => (hfront r hr).1) hlastNe]
        simp
      · left
        have hjoined : joinChars (front ++ last :: p :: later) =
            joinChars [joinChars front, last ++ separator ++ joinChars (p :: later)] := by
          rw [joinChars_append, joinChars_cons last,
            joinChars_pair hlastNe (joinChars_ne_nil (by simp) hrest.ne_nil)]
        rw [hjoined]
        exact join_split_behind hfront (join_split_of_open hunbroken hdepth hrest (by simp))

/-! ## Climbing -/

/-- A module path: it starts at the root of the crate, and splitting and joining does not change
it. -/
structure IsModulePath (home : String) : Prop where
  head_eq : (split home).head? = some crateRoot
  join_split : join (split home) = home

instance (home : String) : Decidable (IsModulePath home) :=
  decidable_of_iff ((split home).head? = some crateRoot ∧ join (split home) = home)
    ⟨fun h => ⟨h.1, h.2⟩, fun h => ⟨h.head_eq, h.join_split⟩⟩

/-- The segments of the module some levels above a module, which are at least the root. -/
def climbed (home : String) (levels : Nat) : List String :=
  (split home).rdrop (min levels ((split home).length - 1))

variable {home path candidate : String} {heads tail : List String} {k : Nat}

theorem climbed_zero (home : String) : climbed home 0 = split home := by
  rw [climbed, Nat.zero_min, List.rdrop_zero]

theorem climbed_leads (home : String) (k : Nat) : climbed home k <+: split home :=
  List.take_prefix _ _

theorem segments_leading {front : List String} (h : front <+: split path) :
    Segments (front.map String.toList) := by
  apply (segments_splitChars path.toList).leading
  rw [← map_toList_split]
  exact h.map _

theorem segments_trailing {back : List String} (h : back <:+ split path) :
    Segments (back.map String.toList) := by
  apply (segments_splitChars path.toList).trailing
  rw [← map_toList_split]
  exact h.map _

theorem length_climbed (home : String) (k : Nat) :
    (climbed home k).length = (split home).length - min k ((split home).length - 1) := by
  rw [climbed, List.rdrop, List.length_take]
  omega

theorem climbed_ne_nil (h : IsModulePath home) (k : Nat) : climbed home k ≠ [] := by
  have hpos : 0 < (split home).length :=
    List.length_pos_of_mem (List.mem_of_head? h.head_eq)
  apply List.ne_nil_of_length_pos
  rw [length_climbed]
  omega

/-- One level more leaves out one segment more, up to the root. -/
theorem climbed_succ (home : String) (k : Nat) :
    climbed home (k + 1) =
      if (climbed home k).length ≤ 1 then climbed home k else (climbed home k).dropLast := by
  have hlength := length_climbed home k
  split_ifs with htop
  · have hlevels : min (k + 1) ((split home).length - 1) = min k ((split home).length - 1) := by
      omega
    rw [climbed, hlevels, climbed]
  · have hlevels : (split home).length - min (k + 1) ((split home).length - 1) =
        min ((climbed home k).length - 1)
          ((split home).length - min k ((split home).length - 1)) := by
      omega
    have htake : ∀ n, (climbed home k).take n = (split home).take
        (min n ((split home).length - min k ((split home).length - 1))) := by
      intro n
      rw [climbed, List.rdrop, List.take_take]
    rw [List.dropLast_eq_take, htake, ← hlevels, climbed, List.rdrop]

/-- The module around a module is one level above it, where the root stays the root. -/
theorem parentModule_climbed (h : IsModulePath home) (k : Nat) :
    parentModule (join (climbed home k)) = join (climbed home (k + 1)) := by
  have hback : split (join (climbed home k)) = climbed home k :=
    (split_join_eq_iff _).mpr (segments_leading (climbed_leads home k))
  rw [parentModule, hback, climbed_succ]
  show (if (climbed home k).length ≤ 1 then _ else _) = _
  split_ifs with htop
  · -- The only segment left is the first one, which is the root.
    obtain ⟨segment, hsegment⟩ := List.length_eq_one_iff.mp
      (Nat.le_antisymm htop (List.length_pos_iff.mpr (climbed_ne_nil h k)))
    obtain ⟨later, hlater⟩ := climbed_leads home k
    have hhead := h.head_eq
    rw [← hlater, hsegment] at hhead
    obtain rfl : segment = crateRoot := by simpa using hhead
    rw [hsegment, join_singleton]
  · rfl

theorem followHeads_self (base : String) (later : List String) :
    followHeads base ("self" :: later) = followHeads base later := by
  rw [followHeads, if_pos (by decide), if_neg (by decide)]

theorem followHeads_super (base : String) (later : List String) :
    followHeads base ("super" :: later) = followHeads (parentModule base) later := by
  rw [followHeads, if_pos (by decide), if_pos rfl]

theorem followHeads_of_not {first : String} (h : isRelativeHead first = false) (base : String)
    (later : List String) : followHeads base (first :: later) = (base, first :: later) := by
  rw [followHeads, h]
  rfl

/-- Relative heads climb one level for each one that stands for the module around. -/
theorem followHeads_climbed (h : IsModulePath home)
    (hheads : ∀ head ∈ heads, head = "self" ∨ head = "super")
    (htail : ∀ first ∈ tail.head?, first ≠ "self" ∧ first ≠ "super") :
    followHeads (join (climbed home k)) (heads ++ tail) =
      (join (climbed home (k + heads.count "super")), tail) := by
  induction heads generalizing k with
  | nil =>
      cases tail with
      | nil => rfl
      | cons first later =>
          obtain ⟨hself, hsuper⟩ := htail first rfl
          have hrelative : isRelativeHead first = false := by simp [isRelativeHead, hself, hsuper]
          rw [List.nil_append, followHeads_of_not hrelative]
          rfl
  | cons head later ih =>
      obtain ⟨hhead, hlater⟩ := List.forall_mem_cons.mp hheads
      rcases hhead with rfl | rfl
      · rw [List.cons_append, followHeads_self, ih hlater, List.count_cons_of_ne (by decide)]
      · rw [List.cons_append, followHeads_super, parentModule_climbed h, ih hlater,
          List.count_cons_self, Nat.add_assoc, Nat.add_comm 1]

/-- The only candidate of a path with relative heads. -/
theorem candidates_relative (h : IsModulePath home) (hpath : split path = heads ++ tail)
    (hne : heads ≠ []) (hheads : ∀ head ∈ heads, head = "self" ∨ head = "super")
    (htail : ∀ first ∈ tail.head?, first ≠ "self" ∧ first ≠ "super") :
    candidates path home = [join (climbed home (heads.count "super") ++ tail)] := by
  obtain ⟨head, later, rfl⟩ := List.exists_cons_of_ne_nil hne
  have hcrate : head ≠ crateRoot := by
    rcases hheads head (by simp) with rfl | rfl <;> decide
  have hrelative : isRelativeHead head = true := by
    rcases hheads head (by simp) with rfl | rfl <;> decide
  have hfollow := followHeads_climbed (k := 0) h hheads htail
  rw [climbed_zero, h.join_split, Nat.zero_add] at hfollow
  rw [candidates, hpath, List.cons_append]
  simp only [if_neg hcrate, if_pos hrelative]
  rw [← List.cons_append, hfollow, join_append, ← join_cons]

/-! ## Candidates -/

/-- A candidate consists of leading segments of the module path, at least the root of the crate,
and of the last segments of the path. -/
theorem exists_lead (h : IsModulePath home) (hcandidate : candidate ∈ candidates path home) :
    ∃ lead tail, lead ≠ [] ∧ lead <+: split home ∧ tail <:+ split path ∧
      candidate = join (lead ++ tail) := by
  obtain ⟨below, hhome⟩ := List.head?_eq_some_iff.mp h.head_eq
  have hroot : [crateRoot] <+: split home := by
    rw [hhome]
    exact List.prefix_append [crateRoot] below
  cases hsplit : split path with
  | nil => simp [candidates, hsplit] at hcandidate
  | cons head later =>
      by_cases hrelative : isRelativeHead head = true
      · -- The heads are followed as long as they are relative.
        have hheads : ∀ segment ∈ (split path).takeWhile isRelativeHead,
            segment = "self" ∨ segment = "super" := by
          intro segment hsegment
          simpa [isRelativeHead] using List.mem_takeWhile_imp hsegment
        have htail : ∀ first ∈ ((split path).dropWhile isRelativeHead).head?,
            first ≠ "self" ∧ first ≠ "super" := by
          intro first hfirst
          have hnot := List.head?_dropWhile_not isRelativeHead (split path)
          rw [Option.mem_def.mp hfirst] at hnot
          simpa [isRelativeHead] using hnot
        have hne : (split path).takeWhile isRelativeHead ≠ [] := by
          rw [hsplit, List.takeWhile_cons_of_pos hrelative]
          simp
        have honly := candidates_relative h
          (List.takeWhile_append_dropWhile (p := isRelativeHead)).symm hne hheads htail
        rw [honly, List.mem_singleton] at hcandidate
        exact ⟨_, _, climbed_ne_nil h _, climbed_leads home _, hsplit ▸ List.dropWhile_suffix _,
          hcandidate⟩
      · rw [candidates, hsplit] at hcandidate
        by_cases hcrate : head = crateRoot
        · simp only [if_pos hcrate, List.mem_singleton] at hcandidate
          exact ⟨[crateRoot], later, by simp, hroot, List.suffix_cons head later, by
            rw [hcandidate, hcrate]; rfl⟩
        · simp only [if_neg hcrate, if_neg hrelative] at hcandidate
          have hhere : join (home :: head :: later) = join (split home ++ head :: later) := by
            rw [join_append, h.join_split, join_cons]
          split at hcandidate
          · rw [List.mem_singleton] at hcandidate
            exact ⟨split home, head :: later, by simp [hhome], List.prefix_rfl, List.suffix_rfl,
              hcandidate.trans hhere⟩
          · rw [List.mem_cons, List.mem_singleton] at hcandidate
            rcases hcandidate with rfl | rfl
            · exact ⟨split home, head :: later, by simp [hhome], List.prefix_rfl, List.suffix_rfl,
                hhere⟩
            · exact ⟨[crateRoot], head :: later, by simp, hroot, List.suffix_rfl, rfl⟩

/-- Two separators meet in a path outside angle brackets. -/
def DoublesSeparator (path : String) : Prop :=
  Doubled path.toList

theorem join_split_eq_iff (path : String) :
    join (split path) = path ↔ joinChars (splitChars path.toList) = path.toList := by
  rw [← String.toList_inj, toList_join, map_toList_split]

theorem sealed_crateRoot : Sealed crateRoot.toList := by
  decide

/-- What candidates consist of starts at the root. -/
theorem exists_below_of_leads (h : IsModulePath home) {lead : List String} (hne : lead ≠ [])
    (hlead : lead <+: split home) : ∃ below, lead = crateRoot :: below := by
  obtain ⟨first, below, rfl⟩ := List.exists_cons_of_ne_nil hne
  obtain ⟨later, hlater⟩ := hlead
  have hhead := h.head_eq
  rw [← hlater] at hhead
  obtain rfl : first = crateRoot := by simpa using hhead
  exact ⟨below, rfl⟩

/-- A candidate starts at the root of the crate. -/
theorem head?_split_candidate (h : IsModulePath home)
    (hcandidate : candidate ∈ candidates path home) :
    (split candidate).head? = some crateRoot := by
  obtain ⟨lead, tail, hne, hlead, -, rfl⟩ := exists_lead h hcandidate
  obtain ⟨below, rfl⟩ := exists_below_of_leads h hne hlead
  have hword := FileModel.word_crateRoot
  have hchars := hword.settles.splitChars_pair hword.ne_nil (join (below ++ tail)).toList
  rw [List.cons_append, join_cons, split, toList_join]
  simp only [List.map_cons, List.map_nil, hchars, List.head?_cons, String.ofList_toList]

/-- A path that starts at the root denotes itself, without empty segments. -/
theorem candidates_of_root (h : (split path).head? = some crateRoot) (home : String) :
    candidates path home = [join (split path)] := by
  obtain ⟨rest, hsplit⟩ := List.head?_eq_some_iff.mp h
  rw [candidates, hsplit]
  exact if_pos rfl

/-- A candidate is kept by splitting and joining, or separators meet in it, and then the module path
ends in a colon. -/
theorem join_split_candidate (h : IsModulePath home)
    (hcandidate : candidate ∈ candidates path home) :
    join (split candidate) = candidate ∨
      DoublesSeparator candidate ∧ home.toList.getLast? = some ':' := by
  obtain ⟨lead, tail, hne, hlead, htail, rfl⟩ := exists_lead h hcandidate
  obtain ⟨below, rfl⟩ := exists_below_of_leads h hne hlead
  have hjoin : (join ((crateRoot :: below) ++ tail)).toList =
      joinChars ((crateRoot :: below).map String.toList ++ tail.map String.toList) := by
    rw [toList_join, List.map_append]
  have hleadSegments := segments_leading hlead
  have htailSegments := segments_trailing htail
  obtain ⟨more, hmore⟩ := hlead
  rw [join_split_eq_iff, DoublesSeparator, hjoin]
  by_cases hall : more = []
  · -- The candidate continues the whole module path.
    rw [hall, List.append_nil] at hmore
    have hhome : home.toList = joinChars ((crateRoot :: below).map String.toList) := by
      rw [← toList_join, hmore, h.join_split]
    rw [hhome]
    exact join_split_or_doubled hleadSegments ⟨_, rfl, sealed_crateRoot⟩ htailSegments
  · left
    have hsegments := segments_leading (List.prefix_refl (split home))
    rw [← hmore, List.map_append] at hsegments
    have hsealed := hsegments.sealed_of_append (by simpa using hall)
    have hlong : Segments ((crateRoot :: below).map String.toList ++ tail.map String.toList) :=
      Segments.append (fun p hp => ⟨hleadSegments.ne_nil p hp, hsealed p hp⟩) htailSegments
    rw [hlong.splitChars_joinChars]

/-- The laws of the candidates for a path in a module. -/
structure CandidateLaws (path home : String) : Prop where
  /-- Candidates start at the root of the crate. -/
  root : ∀ candidate ∈ candidates path home, (split candidate).head? = some crateRoot
  /-- A candidate stands for itself in every module exactly if no separators meet in it. -/
  fixed_iff : ∀ candidate ∈ candidates path home,
    (∀ home', candidates candidate home' = [candidate]) ↔ ¬DoublesSeparator candidate
  /-- None meet unless the module path ends in a colon. -/
  apart : home.toList.getLast? ≠ some ':' →
    ∀ candidate ∈ candidates path home, ¬DoublesSeparator candidate
  /-- Each head that stands for the module around takes off one segment, up to the root. -/
  relative : ∀ heads tail, split path = heads ++ tail → heads ≠ [] →
    (∀ head ∈ heads, head = "self" ∨ head = "super") →
    (∀ first ∈ tail.head?, first ≠ "self" ∧ first ≠ "super") →
    candidates path home = [join ((split home).rdrop
      (min (heads.count "super") ((split home).length - 1)) ++ tail)]

/-- The laws hold of every path, in every module. -/
theorem candidates_laws (path : String) (h : IsModulePath home) : CandidateLaws path home := by
  constructor
  case root =>
    intro candidate hcandidate
    exact head?_split_candidate h hcandidate
  case fixed_iff =>
    intro candidate hcandidate
    have honly := candidates_of_root (head?_split_candidate h hcandidate)
    constructor
    · intro hfixed
      have hsame : join (split candidate) = candidate := by
        simpa [honly] using hfixed home
      exact not_doubled_of_join_split ((join_split_eq_iff candidate).mp hsame)
    · intro hapart home'
      rcases join_split_candidate h hcandidate with hsame | ⟨hdoubled, -⟩
      · rw [honly, hsame]
      · exact absurd hdoubled hapart
  case apart =>
    intro hcolon candidate hcandidate
    rcases join_split_candidate h hcandidate with hsame | ⟨-, hends⟩
    · exact not_doubled_of_join_split ((join_split_eq_iff candidate).mp hsame)
    · exact absurd hends hcolon
  case relative =>
    intro heads tail hpath hne hheads htail
    exact candidates_relative h hpath hne hheads htail

/-- Four heads, three of them for the module around, lead from two levels below the root to the
root. -/
theorem candidates_laws_sample :
    IsModulePath "crate::net<A>::tcp" ∧
      candidates "super::self::super::super::T<B::C>::new" "crate::net<A>::tcp" =
        ["crate::T<B::C>::new"] ∧
      ∀ home, candidates "crate::T<B::C>::new" home = ["crate::T<B::C>::new"] := by
  have h : IsModulePath "crate::net<A>::tcp" := by decide +kernel
  have laws := candidates_laws "super::self::super::super::T<B::C>::new" h
  have hsplit : split "super::self::super::super::T<B::C>::new" =
      ["super", "self", "super", "super"] ++ ["T<B::C>", "new"] := by
    decide +kernel
  have hpath : join ((split "crate::net<A>::tcp").rdrop (min 3
      ((split "crate::net<A>::tcp").length - 1)) ++ ["T<B::C>", "new"]) =
        "crate::T<B::C>::new" := by
    decide +kernel
  have honly := laws.relative _ _ hsplit (by decide) (by decide) (by decide)
  rw [show ["super", "self", "super", "super"].count "super" = 3 by decide, hpath] at honly
  refine ⟨h, honly, ?_⟩
  have hmem : "crate::T<B::C>::new" ∈
      candidates "super::self::super::super::T<B::C>::new" "crate::net<A>::tcp" := by
    rw [honly]
    exact List.mem_singleton_self _
  exact (laws.fixed_iff _ hmem).mpr (laws.apart (by decide +kernel) _ hmem)

/-- The module path of a file with a colon for a name: behind it the separators meet, and the
candidate loses one. -/
theorem candidates_strays :
    modulePathOf "src/:.rs" = .ok "crate:::" ∧ IsModulePath "crate:::" ∧
      "crate:::::x" ∈ candidates "x" "crate:::" ∧
      ∀ home, candidates "crate:::::x" home = ["crate:::x"] ∧
        candidates "crate:::::x" home ≠ ["crate:::::x"] := by
  have hroot : (split "crate:::::x").head? = some crateRoot := by decide +kernel
  have hjoin : join (split "crate:::::x") = "crate:::x" := by decide +kernel
  refine ⟨by decide +kernel, by decide +kernel, by decide +kernel, fun home => ?_⟩
  rw [candidates_of_root hroot, hjoin]
  exact ⟨rfl, by decide⟩

end CrateAtlas.ScopePath
