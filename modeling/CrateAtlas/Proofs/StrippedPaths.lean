import CrateAtlas.Proofs.LineScanner
import CrateAtlas.Proofs.PathSegments
import CrateAtlas.Proofs.SeparatorCuts
import CrateAtlas.Proofs.SpacedText

/-!
# Paths without generic arguments

Generic arguments are dropped from a path in two ways.  Either all groups in angle brackets are
dropped first and the text that is left is cut at separators, or the path is split at the separators
outside brackets first and the groups are dropped from each segment.  The two can differ where a
group is all that stands between colons, or where colons outside brackets do not come in pairs.
Otherwise they agree, and nothing is left to drop.

Main results:

- Theorem {lit}`cutFrom_outsideFrom`: cutting what stands outside brackets, segment by segment.
- Theorem {lit}`withoutGenericsChars_eq_join`: both ways drop the groups of every segment.
- Theorem {lit}`withoutGenericsChars_joinChars`: stripped segments have nothing to drop.
- Theorem {lit}`withoutGenerics_agree`: both ways agree, and dropping twice is dropping once.
-/

namespace CrateAtlas

theorem Text.trimChars_trimChars (cs : List Char) : trimChars (trimChars cs) = trimChars cs := by
  obtain ⟨hstart, hend⟩ := trimChars_ends cs
  have hback : StartsSolid (trimChars cs).reverse := by
    intro c hc
    rw [List.head?_reverse] at hc
    exact hend c hc
  have hkept : (trimChars cs).reverse.dropWhile isBlank = (trimChars cs).reverse :=
    hback.trimStartChars
  rw [trimChars, hstart.trimStartChars, trimEndChars, hkept, List.reverse_reverse]

namespace ScopePath

variable {p w cs : List Char} {c : Char} {segments words : List (List Char)}

/-! ## Colons in pairs -/

/-- In a text that is read at a bracket depth, behind a character, every run of colons outside angle
brackets consists of two. -/
def PairedColons (previous : Char) (depth : Nat) (cs : List Char) : Prop :=
  ∀ front back, cs = front ++ back → depthFrom previous depth front = 0 →
    front.getLastD previous ≠ ':' → back.head? = some ':' →
      (back.takeWhile (· == ':')).length = 2

instance (previous : Char) (depth : Nat) (cs : List Char) :
    Decidable (PairedColons previous depth cs) :=
  decidable_of_iff (∀ front ∈ cs.inits, depthFrom previous depth front = 0 →
      front.getLastD previous ≠ ':' → (cs.drop front.length).head? = some ':' →
        ((cs.drop front.length).takeWhile (· == ':')).length = 2) (by
    constructor
    · rintro h front back rfl
      have hfront := h front ((List.mem_inits _ _).mpr (List.prefix_append _ _))
      rwa [List.drop_left] at hfront
    · intro h front hfront
      obtain ⟨back, rfl⟩ := (List.mem_inits _ _).mp hfront
      rw [List.drop_left]
      exact h front back rfl)

theorem PairedColons.tail {previous : Char} {depth : Nat}
    (h : PairedColons previous depth (c :: cs)) :
    PairedColons c (depthAfter previous depth c) cs := by
  rintro front back rfl hdepth hlast hback
  apply h (c :: front) back rfl hdepth _ hback
  rwa [List.getLastD_cons]

/-- Outside brackets a run of colons is a separator, behind which no colon follows. -/
theorem PairedColons.head {previous : Char} (h : PairedColons previous 0 (':' :: cs))
    (hprevious : previous ≠ ':') :
    ∃ rest, cs = ':' :: rest ∧ rest.head? ≠ some ':' := by
  have hrun := h [] (':' :: cs) rfl rfl hprevious rfl
  match cs with
  | [] => simp at hrun
  | d :: rest =>
      by_cases hd : d = ':'
      · subst hd
        refine ⟨rest, rfl, fun hhead => ?_⟩
        obtain ⟨later, rfl⟩ := List.head?_eq_some_iff.mp hhead
        simp at hrun
      · simp [hd] at hrun

/-! ## Groups dropped segment by segment -/

/-- What stands outside brackets, cut at separators, is what stands outside brackets in each of the
segments, in which no colon is left. -/
theorem cutFrom_outsideFrom {previous : Char} {depth : Nat} {segment cs : List Char}
    (hpaired : PairedColons previous depth cs) (hreads : Reads segment previous depth)
    (hstart : depth = 0 → previous = ':' → cs.head? ≠ some ':')
    (hcolon : ':' ∉ outsideFrom ' ' 0 segment.reverse) :
    Text.cutFrom separator 0 (outsideFrom ' ' 0 segment.reverse).reverse
        (outsideFrom previous depth cs) =
      (segmentsFrom previous depth segment cs).map (outsideFrom ' ' 0) ∧
    ∀ p ∈ segmentsFrom previous depth segment cs, ':' ∉ outsideFrom ' ' 0 p := by
  fun_induction segmentsFrom previous depth segment cs with
  | case1 previous depth segment =>
      constructor
      · simp [outsideFrom, Text.cutFrom]
      · simpa using hcolon
  | case2 previous segment rest ih =>
      have hprevious : previous ≠ ':' := fun heq => hstart rfl heq rfl
      obtain ⟨later, hlater, hend⟩ := hpaired.head hprevious
      obtain rfl : rest = later := by simpa using hlater
      have hrest : PairedColons ':' 0 rest := hpaired.tail.tail
      obtain ⟨hcut, hall⟩ := ih hrest (.start ':') (fun _ _ => hend) (by simp [outsideFrom])
      have houtside : outsideFrom previous 0 (':' :: ':' :: rest) =
          ':' :: ':' :: outsideFrom ':' 0 rest := rfl
      rw [houtside, cutFrom_separator, List.map_cons, List.reverse_reverse]
      exact ⟨congrArg _ hcut, List.forall_mem_cons.mpr ⟨hcolon, hall⟩⟩
  | case3 previous depth segment c rest hnocut ih =>
      -- A colon outside brackets would be half of a separator.
      have hc : depth = 0 → c ≠ ':' := by
        rintro rfl rfl
        obtain ⟨later, rfl, -⟩ := hpaired.head fun heq => hstart rfl heq rfl
        exact hnocut later rfl rfl rfl
      have hnext : Reads (c :: segment) c (depthAfter previous depth c) :=
        hreads.cons fun h => hc h.1 h.2.2
      have houtside : outsideFrom ' ' 0 (c :: segment).reverse =
          outsideFrom ' ' 0 segment.reverse ++ outsideFrom previous depth [c] := by
        rw [List.reverse_cons]
        exact hreads.outside [c]
      have hafter : depthAfter previous depth c = 0 → c = ':' → rest.head? ≠ some ':' := by
        rintro hzero rfl
        rw [depthAfter_of_ne (by decide) (by decide)] at hzero
        exact absurd rfl (hc hzero)
      rw [outsideFrom_cons]
      by_cases hkept : depth = 0 ∧ depthAfter previous depth c = 0
      · have hone : outsideFrom previous depth [c] = [c] := by
          simp only [outsideFrom, if_pos hkept]
        have hne := hc hkept.1
        rw [hone] at houtside ⊢
        have hnot : ¬separator <+: c :: outsideFrom c (depthAfter previous depth c) rest := by
          rw [separator, List.cons_prefix_cons]
          exact fun h => hne h.1.symm
        rw [List.singleton_append, cutFrom_cons hnot]
        have hnew := ih hpaired.tail hnext hafter (by
          rw [houtside, List.mem_append, List.mem_singleton, not_or]
          exact ⟨hcolon, Ne.symm hne⟩)
        rwa [houtside, List.reverse_append] at hnew
      · have hnone : outsideFrom previous depth [c] = [] := by
          simp only [outsideFrom, if_neg hkept]
        rw [hnone, List.append_nil] at houtside
        rw [hnone, List.nil_append]
        have hnew := ih hpaired.tail hnext hafter (by rwa [houtside])
        rwa [houtside] at hnew

theorem cut_outsideFrom (h : PairedColons ' ' 0 cs) :
    Text.cut separator (outsideFrom ' ' 0 cs) =
        (segmentsFrom ' ' 0 [] cs).map (outsideFrom ' ' 0) ∧
      ∀ p ∈ segmentsFrom ' ' 0 [] cs, ':' ∉ outsideFrom ' ' 0 p :=
  cutFrom_outsideFrom h (.start ' ') (fun _ hblank => absurd hblank (by decide))
    (by simp [outsideFrom])

/-- A segment with its groups dropped, and the blanks at its ends. -/
def strippedSegment (segment : List Char) : List Char :=
  Text.trimChars (outsideFrom ' ' 0 segment)

theorem withoutGenericsChars_of_notMem (h : ':' ∉ outsideFrom ' ' 0 p) :
    withoutGenericsChars p = strippedSegment p := by
  rw [withoutGenericsChars, cut_of_notMem h, List.map_singleton, joinChars_singleton,
    strippedSegment]

/-- Segments that are empty count for nothing, before and after their groups are dropped. -/
theorem joinChars_map_filter {f : List Char → List Char} (hf : f [] = [])
    (segments : List (List Char)) :
    joinChars ((segments.filter fun segment => !segment.isEmpty).map f) =
      joinChars (segments.map f) := by
  induction segments with
  | nil => rfl
  | cons p rest ih =>
      by_cases hp : p = []
      · rw [List.filter_cons_of_neg (by simp [hp]), ih, List.map_cons, hp, hf, joinChars_cons []]
        rw [joinChars_nil_left]
      · rw [List.filter_cons_of_pos (by simpa using hp), List.map_cons, List.map_cons,
          joinChars_cons (f p), ih, ← joinChars_cons]

/-- Both ways drop the groups of every segment. -/
theorem withoutGenericsChars_eq_join (hpaired : PairedColons ' ' 0 cs)
    (hheads : ∀ segment ∈ splitChars cs, segment.head? ≠ some '<') :
    withoutGenericsChars cs = joinChars ((splitChars cs).map strippedSegment) ∧
      withoutSegmentGenericsChars cs = joinChars ((splitChars cs).map strippedSegment) := by
  obtain ⟨hcut, hcolon⟩ := cut_outsideFrom hpaired
  constructor
  · rw [withoutGenericsChars, hcut, List.map_map, splitChars,
      joinChars_map_filter (f := strippedSegment) rfl]
    rfl
  · rw [withoutSegmentGenericsChars]
    congr 1
    apply List.map_congr_left
    intro segment hsegment
    rw [plainSegment, if_neg (hheads segment hsegment)]
    exact withoutGenericsChars_of_notMem (hcolon segment (List.mem_of_mem_filter hsegment))

/-! ## Stripped segments -/

/-- A segment with nothing to drop. -/
structure Stripped (w : List Char) : Prop where
  colon : ':' ∉ w
  opening : '<' ∉ w
  trim : Text.trimChars w = w

/-- An opening bracket does not stand outside brackets. -/
theorem opening_notMem_outsideFrom (previous : Char) (depth : Nat) (cs : List Char) :
    '<' ∉ outsideFrom previous depth cs := by
  induction cs generalizing previous depth with
  | nil => simp [outsideFrom]
  | cons c rest ih =>
      rw [outsideFrom]
      by_cases hkept : depth = 0 ∧ depthAfter previous depth c = 0
      · have hc : '<' ≠ c := by
          rintro rfl
          simp [depthAfter] at hkept
        simp only [if_pos hkept, List.mem_cons, not_or]
        exact ⟨hc, ih _ _⟩
      · simp only [if_neg hkept]
        exact ih _ _

theorem stripped_strippedSegment (h : ':' ∉ outsideFrom ' ' 0 p) : Stripped (strippedSegment p) :=
  ⟨fun hmem => h ((LineClass.infix_trimChars _).subset hmem),
    fun hmem => opening_notMem_outsideFrom ' ' 0 p ((LineClass.infix_trimChars _).subset hmem),
    Text.trimChars_trimChars _⟩

/-- Without opening brackets no bracket is ever open. -/
theorem depthFrom_of_notMem (h : '<' ∉ w) : ∀ previous, depthFrom previous 0 w = 0 := by
  induction w with
  | nil =>
      intro previous
      rfl
  | cons c rest ih =>
      intro previous
      simp only [List.mem_cons, not_or] at h
      rw [depthFrom, depthAfter_zero_of_ne (Ne.symm h.1)]
      exact ih h.2 c

theorem Stripped.sealed (h : Stripped w) : Sealed w := by
  refine ⟨depthFrom_of_notMem h.opening ' ', ?_, fun hlast => h.colon (List.mem_of_getLast? hlast)⟩
  rintro front back rfl
  exact absurd (by simp [separator]) h.colon

theorem Stripped.strippedSegment_eq (h : Stripped w) : strippedSegment w = w := by
  rw [strippedSegment, outsideFrom_of_notMem h.opening, h.trim]

theorem Stripped.withoutGenericsChars_eq (h : Stripped w) : withoutGenericsChars w = w := by
  rw [withoutGenericsChars_of_notMem, h.strippedSegment_eq]
  rw [outsideFrom_of_notMem h.opening]
  exact h.colon

/-- Characters of a path come from its segments, or from separators. -/
theorem mem_joinChars (h : c ∈ joinChars segments) : c = ':' ∨ ∃ p ∈ segments, c ∈ p := by
  induction segments with
  | nil => simp [joinChars] at h
  | cons p rest ih =>
      have hlater : c ∈ joinChars rest → c = ':' ∨ ∃ q ∈ p :: rest, c ∈ q := by
        intro hrest
        rcases ih hrest with hcolon | ⟨q, hq, hc⟩
        · exact .inl hcolon
        · exact .inr ⟨q, List.mem_cons_of_mem _ hq, hc⟩
      rw [joinChars_cons] at h
      by_cases hp : p = []
      · rw [hp, joinChars_nil_left] at h
        exact hlater h
      · by_cases hnil : joinChars rest = []
        · rw [hnil, joinChars_nil_right] at h
          exact .inr ⟨p, by simp, h⟩
        · rw [joinChars_pair hp hnil, List.mem_append, List.mem_append] at h
          rcases h with (h | h) | h
          · exact .inr ⟨p, by simp, h⟩
          · exact .inl (by simpa [separator] using h)
          · exact hlater h

theorem opening_notMem_joinChars (h : ∀ w ∈ words, Stripped w) : '<' ∉ joinChars words := by
  intro hmem
  rcases mem_joinChars hmem with hcolon | ⟨w, hw, hopening⟩
  · exact absurd hcolon (by decide)
  · exact (h w hw).opening hopening

/-- A path of stripped segments is cut into them. -/
theorem cut_joinChars (h : ∀ w ∈ words, w ≠ [] ∧ Stripped w) (hne : words ≠ []) :
    Text.cut separator (joinChars words) = words := by
  induction words with
  | nil => exact absurd rfl hne
  | cons w rest ih =>
      obtain ⟨⟨hw, hstripped⟩, hrest⟩ := List.forall_mem_cons.mp h
      by_cases hnil : rest = []
      · rw [hnil, joinChars_singleton, cut_of_notMem hstripped.colon]
      · have heven : Even (trailingColons w) := by
          rw [trailingColons_of_notMem hstripped.colon]
          exact Even.zero
        have hcut : Text.cut separator (w ++ separator ++ joinChars rest) =
            Text.cut separator w ++ Text.cut separator (joinChars rest) := by
          rw [List.append_assoc]
          exact cut_append_separator heven (joinChars rest)
        rw [joinChars_cons, joinChars_pair hw (joinChars_ne_nil hnil fun q hq => (hrest q hq).1),
          hcut, ih hrest hnil, cut_of_notMem hstripped.colon]
        rfl

/-- Stripped segments have nothing to drop, in either way. -/
theorem withoutGenericsChars_joinChars (h : ∀ w ∈ words, w ≠ [] ∧ Stripped w) :
    withoutGenericsChars (joinChars words) = joinChars words ∧
      withoutSegmentGenericsChars (joinChars words) = joinChars words := by
  have hopening := opening_notMem_joinChars fun w hw => (h w hw).2
  constructor
  · by_cases hne : words = []
    · rw [hne]
      rfl
    · have htrim : words.map Text.trimChars = words.map id :=
        List.map_congr_left fun w hw => (h w hw).2.trim
      rw [withoutGenericsChars, outsideFrom_of_notMem hopening, cut_joinChars h hne, htrim,
        List.map_id]
  · have hplain : words.map plainSegment = words.map id := by
      apply List.map_congr_left
      intro w hw
      have hhead : w.head? ≠ some '<' :=
        fun hhead => (h w hw).2.opening (List.mem_of_mem_head? hhead)
      rw [plainSegment, if_neg hhead, (h w hw).2.withoutGenericsChars_eq]
      rfl
    have hsplit := (Segments.of_sealed fun w hw =>
      ⟨(h w hw).1, (h w hw).2.sealed⟩).splitChars_joinChars
    rw [withoutSegmentGenericsChars, hsplit, hplain, List.map_id]

/-! ## Agreement -/

theorem withoutGenericsChars_agree (hpaired : PairedColons ' ' 0 cs)
    (hheads : ∀ segment ∈ splitChars cs, segment.head? ≠ some '<') :
    withoutGenericsChars cs = withoutSegmentGenericsChars cs ∧
      '<' ∉ withoutGenericsChars cs ∧
      withoutGenericsChars (withoutGenericsChars cs) = withoutGenericsChars cs ∧
      withoutSegmentGenericsChars (withoutGenericsChars cs) = withoutGenericsChars cs := by
  obtain ⟨hwhole, hsegments⟩ := withoutGenericsChars_eq_join hpaired hheads
  obtain ⟨-, hcolon⟩ := cut_outsideFrom hpaired
  -- A segment that is one group leaves nothing behind, which the path drops.
  obtain ⟨words, hwords, hjoin⟩ : ∃ words : List (List Char),
      (∀ w ∈ words, w ≠ [] ∧ Stripped w) ∧ withoutGenericsChars cs = joinChars words := by
    refine ⟨((splitChars cs).map strippedSegment).filter fun w => !w.isEmpty, ?_, ?_⟩
    · intro w hw
      obtain ⟨hmem, hne⟩ := List.mem_filter.mp hw
      obtain ⟨p, hp, rfl⟩ := List.mem_map.mp hmem
      exact ⟨by simpa using hne, stripped_strippedSegment (hcolon p (List.mem_of_mem_filter hp))⟩
    · have hdropped := joinChars_map_filter (f := id) rfl ((splitChars cs).map strippedSegment)
      rw [hwhole, ← List.map_id (((splitChars cs).map strippedSegment).filter _), hdropped,
        List.map_id]
  obtain ⟨hagain, hagainSegments⟩ := withoutGenericsChars_joinChars hwords
  refine ⟨hwhole.trans hsegments.symm, ?_, ?_, ?_⟩
  · rw [hjoin]
    exact opening_notMem_joinChars fun w hw => (hwords w hw).2
  · rw [hjoin, hagain]
  · rw [hjoin, hagainSegments]

/-- Where colons come in pairs and no segment starts with a group, generic arguments are dropped in
both ways alike, and with them every opening bracket, so that nothing is left to drop. -/
theorem withoutGenerics_agree (path : String) (hcolons : PairedColons ' ' 0 path.toList)
    (hheads : ∀ segment ∈ split path, segment.toList.head? ≠ some '<') :
    withoutGenerics path = withoutSegmentGenerics path ∧
      '<' ∉ (withoutGenerics path).toList ∧
      withoutGenerics (withoutGenerics path) = withoutGenerics path ∧
      withoutSegmentGenerics (withoutGenerics path) = withoutGenerics path := by
  have hsegments : ∀ segment ∈ splitChars path.toList, segment.head? ≠ some '<' := by
    rw [← map_toList_split]
    exact List.forall_mem_map.mpr hheads
  obtain ⟨hboth, hopening, hagain, hagainSegments⟩ :=
    withoutGenericsChars_agree hcolons hsegments
  simp only [withoutGenerics, withoutSegmentGenerics, String.toList_ofList]
  exact ⟨congrArg _ hboth, hopening, congrArg _ hagain, congrArg _ hagainSegments⟩

/-- Blanks, an arrow and a separator in brackets, a group between separators, a bracket that closes
nothing and one that is never closed. -/
theorem withoutGenerics_agree_sample :
    PairedColons ' ' 0 "dyn Fn<(a::B) -> C> :: <T> ::g > h<T".toList ∧
      (∀ segment ∈ split "dyn Fn<(a::B) -> C> :: <T> ::g > h<T", segment.toList.head? ≠ some '<') ∧
      withoutGenerics "dyn Fn<(a::B) -> C> :: <T> ::g > h<T" = "dyn Fn::g > h" ∧
      withoutSegmentGenerics "dyn Fn<(a::B) -> C> :: <T> ::g > h<T" = "dyn Fn::g > h" := by
  have hcolons : PairedColons ' ' 0 "dyn Fn<(a::B) -> C> :: <T> ::g > h<T".toList := by
    decide +kernel
  have hheads : ∀ segment ∈ split "dyn Fn<(a::B) -> C> :: <T> ::g > h<T",
      segment.toList.head? ≠ some '<' := by
    decide +kernel
  have hvalue : withoutGenerics "dyn Fn<(a::B) -> C> :: <T> ::g > h<T" = "dyn Fn::g > h" := by
    decide +kernel
  exact ⟨hcolons, hheads, hvalue, (withoutGenerics_agree _ hcolons hheads).1.symm.trans hvalue⟩

/-- A single colon moves to the next segment with one of the ways, and keeps its blanks. -/
example :
    withoutGenerics "a:<T>:: b" = "a::: b" ∧ withoutSegmentGenerics "a:<T>:: b" = "a:::b" := by
  decide +kernel

end ScopePath

end CrateAtlas
