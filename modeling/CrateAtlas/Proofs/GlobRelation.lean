import CrateAtlas.Proofs.GlobMatch

/-!
# The meaning of glob patterns

What a pattern matches can be said without tokens and pieces, by reading the pattern from the left:
each star, question mark and class takes some stretch of the path, and every other character takes
itself.  Matching by pieces agrees with that on paths without line feeds, as long as the classes of
the pattern list their members one by one.

Main results:

- Theorem {lit}`Means.cons`: a piece at the front says what the front of a pattern says.
- Theorem {lit}`exists_means`: every pattern whose classes list their members has such pieces.
- Theorem {lit}`Readied.unique`: a pattern is meant in one way, which is the one that is read.
- Theorem {lit}`test_iff_matches`: such a pattern can be read, and it selects the paths that match.
-/

namespace CrateAtlas.Glob

/-! ## Reading a pattern from the left -/

/-- A class holds its members, or the characters that are none of them if an exclamation mark stands
before them. -/
def InClass (c : Char) : (body : List Char) → Prop
  | '!' :: members => c ∉ members
  | members => c ∈ members

/-- A path matches a pattern. -/
inductive Matches : (pattern path : List Char) → Prop where
  | nil : Matches [] []
  /-- A character takes itself. -/
  | char {c : Char} {pattern path : List Char} : c ∉ ['*', '?', '['] → Matches pattern path →
      Matches (c :: pattern) (c :: path)
  /-- A question mark takes one character other than a slash. -/
  | one {c : Char} {pattern path : List Char} : c ≠ '/' → Matches pattern path →
      Matches ('?' :: pattern) (c :: path)
  /-- A single star takes any run without a slash. -/
  | run {pattern inner path : List Char} : pattern.head? ≠ some '*' → '/' ∉ inner →
      Matches pattern path → Matches ('*' :: pattern) (inner ++ path)
  /-- Two stars take any run. -/
  | path {pattern inner path : List Char} : pattern.head? ≠ some '/' → Matches pattern path →
      Matches ('*' :: '*' :: pattern) (inner ++ path)
  /-- Two stars and a slash take nothing, … -/
  | noDirectory {pattern path : List Char} : Matches pattern path →
      Matches ('*' :: '*' :: '/' :: pattern) path
  /-- … or any run that ends in a slash. -/
  | directories {pattern inner path : List Char} : Matches pattern path →
      Matches ('*' :: '*' :: '/' :: pattern) (inner ++ '/' :: path)
  /-- A class takes one character that it holds. -/
  | group {c : Char} {body pattern path : List Char} : ']' ∉ body → InClass c body →
      Matches pattern path → Matches ('[' :: (body ++ ']' :: pattern)) (c :: path)
  /-- A bracket that is never closed takes itself. -/
  | unclosed {pattern path : List Char} : ']' ∉ pattern → Matches pattern path →
      Matches ('[' :: pattern) ('[' :: path)

/-- The body of a class lists characters: after an exclamation mark, if there is one, stands at
least one character, and no mark, caret, hyphen or bracket.  Letters, digits, underscores and dots
in any number are fine. -/
def IsListing (body : List Char) : Prop :=
  ∃ members, (body = members ∨ body = '!' :: members) ∧ members ≠ [] ∧
    ∀ c ∈ ['!', '^', '-', '['], c ∉ members

/-- All classes of a pattern list their members. -/
def ListsMembers (pattern : List Char) : Prop :=
  ∀ front body back, pattern = front ++ '[' :: (body ++ ']' :: back) → ']' ∉ body → IsListing body

variable {c : Char} {pattern rest body body' back back' : List Char} {pieces : List Piece}
  {p : Piece}

/-! ## Classes -/

theorem ListsMembers.of_append {front : List Char} (h : ListsMembers (front ++ rest)) :
    ListsMembers rest := by
  intro before body back hrest hbody
  apply h (front ++ before) body back _ hbody
  rw [hrest, List.append_assoc]

/-- A class ends at the first closing bracket. -/
theorem body_eq_of_append (hbody : ']' ∉ body) (hbody' : ']' ∉ body')
    (h : body ++ ']' :: back = body' ++ ']' :: back') : body = body' ∧ back = back' := by
  induction body generalizing body' with
  | nil =>
      cases body' with
      | nil => exact ⟨rfl, (List.cons.inj h).2⟩
      | cons c rest =>
          obtain ⟨rfl, -⟩ := List.cons.inj h
          simp at hbody'
  | cons c rest ih =>
      rw [List.mem_cons, not_or] at hbody
      cases body' with
      | nil => exact absurd (List.cons.inj h).1.symm hbody.1
      | cons c' rest' =>
          rw [List.mem_cons, not_or] at hbody'
          obtain ⟨rfl, htail⟩ := List.cons.inj h
          obtain ⟨rfl, hback⟩ := ih hbody.2 hbody'.2 htail
          exact ⟨rfl, hback⟩

theorem findIdx?_of_notMem (h : ']' ∉ rest) : rest.findIdx? (· == ']') = none := by
  rw [List.findIdx?_eq_none_iff]
  intro c hc
  rw [beq_eq_false_iff_ne]
  rintro rfl
  exact h hc

theorem findIdx?_close (hbody : ']' ∉ body) :
    (body ++ ']' :: back).findIdx? (· == ']') = some body.length := by
  rw [List.findIdx?_append, findIdx?_of_notMem hbody, Option.none_or, List.findIdx?_cons,
    if_pos (by rfl)]
  simp

/-- Without hyphens a class holds the characters that are written in it. -/
theorem membersOf_plain : ∀ {body : List Char}, '-' ∉ body →
    membersOf (body.map .plain) = .ok (body.map .single)
  | [], _ => rfl
  | [_], _ => rfl
  | [_, _], _ => rfl
  | c :: d :: e :: rest, hhyphen => by
      have hd : ¬(Written.plain d).isHyphen = true := by
        intro h
        apply hhyphen
        simp [show d = '-' by simpa [Written.isHyphen, Written.plain] using h]
      have htail := @membersOf_plain (d :: e :: rest) fun hmem => hhyphen (.tail _ hmem)
      rw [List.map_cons, List.map_cons, List.map_cons, membersOf, if_neg hd, ← List.map_cons,
        ← List.map_cons, htail]
      rfl

theorem holds_single (negated : Bool) :
    CharClass.holds ⟨negated, body.map .single⟩ c = true ↔ (c ∈ body ↔ negated = false) := by
  have hany : (body.map Member.single).any (Member.holds c) = decide (c ∈ body) := by
    rw [Bool.eq_iff_iff]
    simp [Member.holds]
  rw [CharClass.holds, hany]
  cases negated <;> simp

/-! ## Tokens -/

theorem tokensFrom_drop (skip : Nat) : ∀ cs, tokensFrom skip cs = tokensFrom 0 (cs.drop skip) := by
  induction skip with
  | zero => exact fun _ => rfl
  | succ skip ih =>
      intro cs
      cases cs with
      | nil => rfl
      | cons c cs => exact ih cs

theorem tokensFrom_char (hc : c ∉ ['*', '?', '[']) :
    tokensFrom 0 (c :: rest) = .char c :: tokensFrom 0 rest := by
  simp only [List.mem_cons, List.not_mem_nil, or_false, not_or] at hc
  rw [tokensFrom, if_neg hc.1, if_neg hc.2.1, if_neg hc.2.2]

theorem isPrefixOf_of_head? (h : rest.head? ≠ some c) (more : List Char) :
    (c :: more).isPrefixOf rest = false := by
  cases rest with
  | nil => rfl
  | cons d cs =>
      have hne : ¬ c = d := by simpa [eq_comm] using h
      simp [List.isPrefixOf, hne]

theorem tokensFrom_run (h : rest.head? ≠ some '*') :
    tokensFrom 0 ('*' :: rest) = .run :: tokensFrom 0 rest := by
  rw [tokensFrom, if_pos rfl, isPrefixOf_of_head? h, isPrefixOf_of_head? h]
  rfl

theorem tokensFrom_path (h : rest.head? ≠ some '/') :
    tokensFrom 0 ('*' :: '*' :: rest) = .path :: tokensFrom 0 rest := by
  have hslash : ['*', '/'].isPrefixOf ('*' :: rest) = false := isPrefixOf_of_head? h []
  rw [tokensFrom, if_pos rfl, hslash]
  rfl

theorem tokensFrom_group (hbody : ']' ∉ body) :
    tokensFrom 0 ('[' :: (body ++ ']' :: rest)) = .ofBody body :: tokensFrom 0 rest := by
  have hdrop : (body ++ ']' :: rest).drop (body.length + 1) = rest := by simp
  rw [tokensFrom, if_neg (by decide), if_neg (by decide), if_pos rfl, findIdx?_close hbody]
  simp only [List.take_left']
  rw [tokensFrom_drop, hdrop]

theorem tokensFrom_unclosed (h : ']' ∉ rest) :
    tokensFrom 0 ('[' :: rest) = .char '[' :: tokensFrom 0 rest := by
  rw [tokensFrom, if_neg (by decide), if_neg (by decide), if_pos rfl, findIdx?_of_notMem h]

/-! ## Pieces that mean a pattern -/

/-- The pieces of a pattern are read without fault, and they cover the paths without line feeds that
match the pattern. -/
structure Means (pattern : List Char) (pieces : List Piece) : Prop where
  pieces_eq : piecesFrom none (tokensFrom 0 pattern) = .ok pieces
  covers_iff : ∀ path, '\n' ∉ path → (covers pieces path = true ↔ Matches pattern path)

theorem Means.nil : Means [] [] := by
  refine ⟨rfl, fun path _ => ?_⟩
  rw [covers, List.isEmpty_iff]
  constructor
  · rintro rfl
    exact .nil
  · intro h
    cases h
    rfl

/-- A piece at the front, if it takes what the front of the pattern takes. -/
theorem Means.cons (h : Means rest pieces)
    (hpieces : piecesFrom none (tokensFrom 0 pattern) =
      (piecesFrom none (tokensFrom 0 rest)).map (p :: ·))
    (hmatches : ∀ path, '\n' ∉ path → (Matches pattern path ↔
      ∃ front back, path = front ++ back ∧ p.Takes front ∧ Matches rest back)) :
    Means pattern (p :: pieces) := by
  constructor
  · rw [hpieces, h.pieces_eq]
    rfl
  · intro path hpath
    rw [covers_cons_iff, hmatches path hpath]
    apply exists_congr
    intro front
    apply exists_congr
    intro back
    apply and_congr_right
    rintro rfl
    rw [h.covers_iff back fun hmem => hpath (List.mem_append_right _ hmem)]

theorem Means.char (h : Means rest pieces) (hc : c ∉ ['*', '?', '[']) :
    Means (c :: rest) (.char c :: pieces) := by
  apply h.cons
  · rw [tokensFrom_char hc, piecesFrom]
  · intro path _
    constructor
    · intro hmatch
      cases hmatch with
      | char _ hrest => exact ⟨[c], _, rfl, rfl, hrest⟩
      | _ => simp at hc
    · rintro ⟨front, back, rfl, rfl, hback⟩
      exact .char hc hback

theorem Means.one (h : Means rest pieces) : Means ('?' :: rest) (.one :: pieces) := by
  apply h.cons
  · rfl
  · intro path _
    constructor
    · intro hmatch
      cases hmatch with
      | char hc _ => simp at hc
      | one hc hrest => exact ⟨[_], _, rfl, ⟨_, hc, rfl⟩, hrest⟩
    · rintro ⟨front, back, rfl, ⟨c, hc, rfl⟩, hback⟩
      exact .one hc hback

theorem Means.run (h : Means rest pieces) (hhead : rest.head? ≠ some '*') :
    Means ('*' :: rest) (.run :: pieces) := by
  apply h.cons
  · rw [tokensFrom_run hhead, piecesFrom]
  · intro path _
    constructor
    · intro hmatch
      cases hmatch with
      | char hc _ => simp at hc
      | run _ hinner hrest => exact ⟨_, _, rfl, hinner, hrest⟩
      | _ => simp at hhead
    · rintro ⟨front, back, rfl, hfront, hback⟩
      exact .run hhead hfront hback

theorem Means.path (h : Means rest pieces) (hhead : rest.head? ≠ some '/') :
    Means ('*' :: '*' :: rest) (.path :: pieces) := by
  apply h.cons
  · rw [tokensFrom_path hhead, piecesFrom]
  · intro path hpath
    constructor
    · intro hmatch
      cases hmatch with
      | char hc _ => simp at hc
      | run hsingle _ _ => simp at hsingle
      | path _ hrest => exact ⟨_, _, rfl, fun hmem => hpath (List.mem_append_left _ hmem), hrest⟩
      | _ => simp at hhead
    · rintro ⟨front, back, rfl, -, hback⟩
      exact .path hhead hback

theorem Means.directories (h : Means rest pieces) :
    Means ('*' :: '*' :: '/' :: rest) (.directories :: pieces) := by
  apply h.cons
  · rfl
  · intro path hpath
    constructor
    · intro hmatch
      cases hmatch with
      | char hc _ => simp at hc
      | run hsingle _ _ => simp at hsingle
      | path hhead _ => simp at hhead
      | noDirectory hrest => exact ⟨[], _, rfl, .inl rfl, hrest⟩
      | @directories _ inner path hrest =>
          refine ⟨inner ++ ['/'], path, by simp, .inr ⟨inner, ?_, rfl⟩, hrest⟩
          exact fun hmem => hpath (List.mem_append_left _ hmem)
    · rintro ⟨front, back, rfl, rfl | ⟨inner, -, rfl⟩, hback⟩
      · exact .noDirectory hback
      · rw [List.append_assoc]
        exact .directories hback

theorem Means.unclosed (h : Means rest pieces) (hclose : ']' ∉ rest) :
    Means ('[' :: rest) (.char '[' :: pieces) := by
  apply h.cons
  · rw [tokensFrom_unclosed hclose, piecesFrom]
  · intro path _
    constructor
    · intro hmatch
      cases hmatch with
      | char hc _ => simp at hc
      | unclosed _ hrest => exact ⟨['['], _, rfl, rfl, hrest⟩
      | _ => simp at hclose
    · rintro ⟨front, back, rfl, rfl, hback⟩
      exact .unclosed hclose hback

/-- The token of a class that lists its members. -/
theorem IsListing.exists_token (h : IsListing body) :
    ∃ negated members, Token.ofBody body = .group negated members ∧ members ≠ [] ∧
      '-' ∉ members ∧ ∀ c, InClass c body ↔ (c ∈ members ↔ negated = false) := by
  obtain ⟨members, hwritten, hne, hspecial⟩ := h
  have hhyphen : '-' ∉ members := hspecial '-' (by simp)
  rcases hwritten with rfl | rfl
  · obtain ⟨first, later, rfl⟩ := List.exists_cons_of_ne_nil hne
    have hmark : first ≠ '!' := fun heq => hspecial '!' (by simp) (by simp [heq])
    have hcaret : first ≠ '^' := fun heq => hspecial '^' (by simp) (by simp [heq])
    refine ⟨false, first :: later, ?_, hne, hhyphen, ?_⟩
    · simp [Token.ofBody, hmark, hcaret]
    · intro c
      simp [InClass, hmark]
  · refine ⟨true, members, rfl, hne, hhyphen, ?_⟩
    intro c
    simp [InClass]

/-- The piece of a class without hyphens. -/
theorem piecesFrom_group {negated : Bool} {members : List Char} {tokens : List Token}
    (hne : members ≠ []) (hhyphen : '-' ∉ members) :
    piecesFrom none (.group negated members :: tokens) =
      (piecesFrom none tokens).map (.group ⟨negated, members.map .single⟩ :: ·) := by
  have hempty : ¬members.isEmpty = true := by simpa using hne
  rw [piecesFrom, if_neg hempty, classOf, membersOf_plain hhyphen]
  cases piecesFrom none tokens <;> rfl

theorem Means.group (h : Means rest pieces) (hbody : ']' ∉ body) (hlisting : IsListing body) :
    ∃ g, Means ('[' :: (body ++ ']' :: rest)) (.group g :: pieces) := by
  obtain ⟨negated, members, htoken, hne, hhyphen, hclass⟩ := hlisting.exists_token
  refine ⟨⟨negated, members.map .single⟩, h.cons ?_ ?_⟩
  · rw [tokensFrom_group hbody, htoken, piecesFrom_group hne hhyphen]
  · intro path _
    constructor
    · intro hmatch
      generalize hpattern : '[' :: (body ++ ']' :: rest) = pattern at hmatch
      cases hmatch with
      | @group c body' rest' path' hbody' hc hrest =>
          obtain ⟨rfl, rfl⟩ := body_eq_of_append hbody hbody' (List.cons.inj hpattern).2
          exact ⟨[c], path', rfl, ⟨c, (holds_single negated).mpr ((hclass c).mp hc), rfl⟩, hrest⟩
      | char hc _ =>
          obtain ⟨rfl, -⟩ := List.cons.inj hpattern
          simp at hc
      | unclosed hclose _ =>
          obtain ⟨-, rfl⟩ := List.cons.inj hpattern
          simp at hclose
      | _ => simp at hpattern
    · rintro ⟨front, back, rfl, ⟨c, hc, rfl⟩, hback⟩
      exact .group hbody ((hclass c).mpr ((holds_single negated).mp hc)) hback

/-- Every pattern whose classes list their members has pieces that mean it. -/
theorem exists_means (pattern : List Char) (h : ListsMembers pattern) :
    ∃ pieces, Means pattern pieces := by
  -- The cases are those of reading: a bracket, a question mark, stars and any other character.
  cases pattern with
  | nil => exact ⟨[], .nil⟩
  | cons c rest =>
      have hrest : ListsMembers rest := @ListsMembers.of_append rest [c] h
      by_cases hbracket : c = '['
      · subst hbracket
        by_cases hclose : ']' ∈ rest
        · obtain ⟨body, back, rfl, hbody⟩ := List.eq_append_cons_of_mem hclose
          have hback : ListsMembers back := by
            apply @ListsMembers.of_append back (body ++ [']'])
            rwa [List.append_assoc]
          obtain ⟨pieces, hmeans⟩ := exists_means back hback
          obtain ⟨g, hgroup⟩ := hmeans.group hbody (h [] body back rfl hbody)
          exact ⟨_, hgroup⟩
        · obtain ⟨pieces, hmeans⟩ := exists_means rest hrest
          exact ⟨_, hmeans.unclosed hclose⟩
      by_cases hone : c = '?'
      · subst hone
        obtain ⟨pieces, hmeans⟩ := exists_means rest hrest
        exact ⟨_, hmeans.one⟩
      by_cases hstar : c = '*'
      · subst hstar
        by_cases hsecond : rest.head? = some '*'
        · obtain ⟨later, rfl⟩ := List.head?_eq_some_iff.mp hsecond
          have hlater : ListsMembers later := @ListsMembers.of_append later ['*'] hrest
          by_cases hslash : later.head? = some '/'
          · obtain ⟨last, rfl⟩ := List.head?_eq_some_iff.mp hslash
            obtain ⟨pieces, hmeans⟩ :=
              exists_means last (@ListsMembers.of_append last ['/'] hlater)
            exact ⟨_, hmeans.directories⟩
          · obtain ⟨pieces, hmeans⟩ := exists_means later hlater
            exact ⟨_, hmeans.path hslash⟩
        · obtain ⟨pieces, hmeans⟩ := exists_means rest hrest
          exact ⟨_, hmeans.run hsecond⟩
      · obtain ⟨pieces, hmeans⟩ := exists_means rest hrest
        exact ⟨_, hmeans.char (by simp [hbracket, hone, hstar])⟩
termination_by pattern.length
decreasing_by
  all_goals
    subst_vars
    simp only [List.length_cons, List.length_append]
    omega

/-! ## Patterns as they are written -/

/-- Two texts agree character by character, where a backslash of the first is a slash of the
second. -/
inductive Slashed : (written meant : List Char) → Prop where
  | nil : Slashed [] []
  | backslash {written meant : List Char} : Slashed written meant →
      Slashed ('\\' :: written) ('/' :: meant)
  | plain {c : Char} {written meant : List Char} : c ≠ '\\' → Slashed written meant →
      Slashed (c :: written) (c :: meant)

/-- A pattern as it is meant: with slashes for the backslashes, and without the leading {lit}`./`
that it has then, if it has one. -/
inductive Readied : (written meant : List Char) → Prop where
  | dropped {written meant : List Char} : Slashed written ('.' :: '/' :: meant) →
      Readied written meant
  | whole {written meant : List Char} : Slashed written meant →
      (∀ rest, meant ≠ '.' :: '/' :: rest) → Readied written meant

variable {written meant meant' : List Char}

theorem Slashed.unique (h : Slashed written meant) (h' : Slashed written meant') :
    meant = meant' := by
  induction h generalizing meant' with
  | nil =>
      cases h'
      rfl
  | backslash _ ih =>
      cases h' with
      | backslash hrest => rw [ih hrest]
      | plain hc _ => exact absurd rfl hc
  | plain hc _ ih =>
      cases h' with
      | backslash _ => exact absurd rfl hc
      | plain _ hrest => rw [ih hrest]

/-- A pattern is meant in one way. -/
theorem Readied.unique (h : Readied written meant) (h' : Readied written meant') :
    meant = meant' := by
  cases h with
  | dropped hslashed =>
      cases h' with
      | dropped hslashed' => simpa using hslashed.unique hslashed'
      | whole hslashed' hnot => exact absurd (hslashed'.unique hslashed) (hnot meant)
  | whole hslashed hnot =>
      cases h' with
      | dropped hslashed' => exact absurd (hslashed.unique hslashed') (hnot meant')
      | whole hslashed' _ => exact hslashed.unique hslashed'

theorem slashed_map (written : List Char) :
    Slashed written (written.map fun c => if c = '\\' then '/' else c) := by
  induction written with
  | nil => exact .nil
  | cons c written ih =>
      rw [List.map_cons]
      split
      next hc =>
        subst hc
        exact .backslash ih
      next hc => exact .plain hc ih

/-- The tokens of a pattern are those of the pattern as it is meant. -/
theorem readied_prepare (written : List Char) : Readied written (prepare written) := by
  have hslashed := slashed_map written
  rw [prepare]
  split
  next hdot =>
    obtain ⟨meant, hmeant⟩ := List.isPrefixOf_iff_prefix.mp hdot
    rw [← hmeant] at hslashed ⊢
    exact .dropped hslashed
  next hdot =>
    refine .whole hslashed fun rest hrest => hdot ?_
    rw [hrest]
    exact List.isPrefixOf_iff_prefix.mpr ⟨rest, rfl⟩

/-! ## Classes of the pattern as it is meant -/

theorem Slashed.mem_iff (h : Slashed written meant) {d : Char} (hd : d ≠ '/')
    (hback : d ≠ '\\') : d ∈ meant ↔ d ∈ written := by
  induction h with
  | nil => simp
  | backslash _ ih => simp [ih, hd, hback]
  | plain _ _ ih => simp [ih]

/-- What a text is cut into, the other text is cut into as well. -/
theorem Slashed.exists_append {front back : List Char}
    (h : Slashed written (front ++ back)) :
    ∃ front' back', written = front' ++ back' ∧ Slashed front' front ∧ Slashed back' back := by
  induction front generalizing written with
  | nil => exact ⟨[], written, rfl, .nil, h⟩
  | cons c front ih =>
      rw [List.cons_append] at h
      cases h with
      | backslash hrest =>
          obtain ⟨front', back', rfl, hfront, hback⟩ := ih hrest
          exact ⟨'\\' :: front', back', rfl, .backslash hfront, hback⟩
      | plain hc hrest =>
          obtain ⟨front', back', rfl, hfront, hback⟩ := ih hrest
          exact ⟨c :: front', back', rfl, .plain hc hfront, hback⟩

/-- A character that is no slash was written as it is. -/
theorem Slashed.exists_cons {c : Char} (hc : c ≠ '/') (h : Slashed written (c :: meant)) :
    ∃ written', written = c :: written' ∧ Slashed written' meant := by
  cases h with
  | backslash _ => exact absurd rfl hc
  | plain _ hrest => exact ⟨_, rfl, hrest⟩

theorem IsListing.of_slashed (h : IsListing body) (hslashed : Slashed body body') :
    IsListing body' := by
  obtain ⟨members, hwritten, hne, hspecial⟩ := h
  have hlisting : ∀ {members' : List Char}, Slashed members members' →
      members' ≠ [] ∧ ∀ c ∈ ['!', '^', '-', '['], c ∉ members' := by
    intro members' hmembers
    constructor
    · rintro rfl
      cases hmembers
      exact hne rfl
    · intro c hc
      have hplain : c ≠ '/' ∧ c ≠ '\\' := by
        constructor
        all_goals
          rintro rfl
          simp at hc
      rw [hmembers.mem_iff hplain.1 hplain.2]
      exact hspecial c hc
  rcases hwritten with rfl | rfl
  · exact ⟨body', .inl rfl, hlisting hslashed⟩
  · cases hslashed with
    | plain _ hmembers => exact ⟨_, .inr rfl, hlisting hmembers⟩

/-- Reading a backslash as a slash leaves the classes in place. -/
theorem ListsMembers.of_slashed (h : ListsMembers written) (hslashed : Slashed written meant) :
    ListsMembers meant := by
  rintro front body back rfl hbody
  obtain ⟨front', later, rfl, -, hlater⟩ := hslashed.exists_append
  obtain ⟨opened, rfl, hopened⟩ := hlater.exists_cons (by decide)
  obtain ⟨body', later, rfl, hinside, hlast⟩ := hopened.exists_append
  obtain ⟨back', rfl, -⟩ := hlast.exists_cons (by decide)
  refine (h front' body' back' rfl ?_).of_slashed hinside
  rwa [← hinside.mem_iff (by decide) (by decide)]

/-- So does dropping a leading {lit}`./`. -/
theorem ListsMembers.of_readied (h : ListsMembers written) (hreadied : Readied written meant) :
    ListsMembers meant := by
  cases hreadied with
  | dropped hslashed => exact @ListsMembers.of_append meant ['.', '/'] (h.of_slashed hslashed)
  | whole hslashed _ => exact h.of_slashed hslashed

/-! ## Patterns and paths -/

/-- A pattern whose classes list their members can be read, and it selects the paths without line
feeds that match it as it is meant: a backslash is a slash, and one leading {lit}`./` does not
count. -/
theorem test_iff_matches {pattern path : String} (hclasses : ListsMembers pattern.toList)
    (hpath : '\n' ∉ path.toList) :
    (∃ pieces, compile pattern = .ok pieces) ∧
      (test pattern path = .ok true ↔
        ∃ meant, Readied pattern.toList meant ∧ Matches meant path.toList) := by
  have hreadied := readied_prepare pattern.toList
  obtain ⟨pieces, hmeans⟩ := exists_means _ (hclasses.of_readied hreadied)
  have hcompile : compile pattern = .ok pieces := hmeans.pieces_eq
  refine ⟨⟨pieces, hcompile⟩, ?_⟩
  have htest : test pattern path = .ok (covers pieces path.toList) := by
    rw [test, hcompile]
    rfl
  rw [htest, Except.ok.injEq, hmeans.covers_iff _ hpath]
  constructor
  · intro hmatches
    exact ⟨_, hreadied, hmatches⟩
  · rintro ⟨meant, hmeant, hmatches⟩
    rwa [hreadied.unique hmeant]

/-- A class after two stars and a slash, in a pattern that is written with backslashes and begins
at the directory itself. -/
theorem test_iff_matches_sample :
    ListsMembers ".\\src\\**/[!_.]?.r*".toList ∧ '\n' ∉ "src/a/bx.rs".toList ∧
      (∃ pieces, compile ".\\src\\**/[!_.]?.r*" = .ok pieces) ∧
      test ".\\src\\**/[!_.]?.r*" "src/a/bx.rs" = .ok true ∧
      Readied ".\\src\\**/[!_.]?.r*".toList "src/**/[!_.]?.r*".toList ∧
      Matches "src/**/[!_.]?.r*".toList "src/a/bx.rs".toList := by
  have hclasses : ListsMembers ".\\src\\**/[!_.]?.r*".toList := by
    intro front body back hpattern hbody
    have hsplit : ".\\src\\**/".toList ++ '[' :: ("!_.".toList ++ ']' :: "?.r*".toList) =
      front ++ '[' :: (body ++ ']' :: back) := hpattern
    obtain ⟨-, -, hrest⟩ :=
      (List.append_cons_inj_of_notMem (by decide) (by decide)).mp hsplit
    obtain ⟨rfl, -⟩ := body_eq_of_append (by decide) hbody hrest
    exact ⟨"_.".toList, .inr rfl, by decide, by simp⟩
  have hpath : '\n' ∉ "src/a/bx.rs".toList := by decide
  have htest : test ".\\src\\**/[!_.]?.r*" "src/a/bx.rs" = .ok true := rfl
  have hreadied : Readied ".\\src\\**/[!_.]?.r*".toList "src/**/[!_.]?.r*".toList :=
    .dropped (slashed_map _)
  obtain ⟨hcompile, hmatches⟩ := test_iff_matches hclasses hpath
  obtain ⟨meant, hmeant, hmatch⟩ := hmatches.mp htest
  obtain rfl := hmeant.unique hreadied
  exact ⟨hclasses, hpath, hcompile, htest, hreadied, hmatch⟩

end CrateAtlas.Glob
