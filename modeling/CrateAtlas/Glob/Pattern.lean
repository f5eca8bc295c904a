/-!
# Glob patterns

A glob pattern selects paths.  A star matches a run of characters without a slash, a
question mark one such character, two stars any run, two stars and a slash any number of
whole directories, and a bracketed class one character in or out of a set.  An opening
bracket that is never closed stands for itself, and so does every other character.

A pattern is read in two steps: it is cut into tokens, and the tokens become pieces to
match.  A class with nothing between its brackets takes the closing bracket for its first
member and runs on into what follows, up to the next bracket that a token ends with.
-/

namespace CrateAtlas.Glob

/-! ## Tokens -/

/-- A token of a pattern. -/
inductive Token where
  /-- A character that stands for itself. -/
  | char (c : Char)
  /-- The question mark. -/
  | one
  /-- The star. -/
  | run
  /-- Two stars. -/
  | path
  /-- Two stars and a slash. -/
  | directories
  /-- A bracketed class. -/
  | group (negated : Bool) (body : List Char)
deriving DecidableEq, Repr

/-- The body of a class and whether it is negated: by an exclamation mark or a caret at its
front. -/
def Token.ofBody : List Char → Token
  | '!' :: body => group true body
  | '^' :: body => group true body
  | body => group false body

/-- Cut a pattern into tokens; {lit}`skip` characters belong to the token before. -/
def tokensFrom : (skip : Nat) → List Char → List Token
  | _, [] => []
  | skip + 1, _ :: cs => tokensFrom skip cs
  | 0, c :: cs =>
      if c = '*' then
        if ['*', '/'].isPrefixOf cs then .directories :: tokensFrom 2 cs
        else if ['*'].isPrefixOf cs then .path :: tokensFrom 1 cs
        else .run :: tokensFrom 0 cs
      else if c = '?' then .one :: tokensFrom 0 cs
      else if c = '[' then
        match cs.findIdx? (· == ']') with
        | some i => Token.ofBody (cs.take i) :: tokensFrom (i + 1) cs
        | none => .char c :: tokensFrom 0 cs
      else .char c :: tokensFrom 0 cs

/-- The characters of a pattern as they are read: a backslash is a slash, and one leading
{lit}`./` is dropped. -/
def prepare (pattern : List Char) : List Char :=
  let slashed := pattern.map fun c => if c = '\\' then '/' else c
  if ['.', '/'].isPrefixOf slashed then slashed.drop 2 else slashed

/-- The tokens of a pattern. -/
def tokens (pattern : List Char) : List Token :=
  tokensFrom 0 (prepare pattern)

/-! ## Pieces -/

/-- A member of a class. -/
inductive Member where
  | single (c : Char)
  | range (first last : Char)
deriving DecidableEq, Repr

/-- Whether a character is a member. -/
def Member.holds (c : Char) : Member → Bool
  | single d => c == d
  | range first last => first ≤ c && c ≤ last

/-- A set of characters, or the characters outside it. -/
structure CharClass where
  negated : Bool
  members : List Member
deriving DecidableEq, Repr

/-- Whether a class holds a character. -/
def CharClass.holds (g : CharClass) (c : Char) : Bool :=
  g.members.any (Member.holds c) != g.negated

/-- A piece of a pattern, ready to be matched. -/
inductive Piece where
  | char (c : Char)
  | one
  | run
  | path
  | directories
  | group (g : CharClass)
  | groupRun (g : CharClass)
deriving DecidableEq, Repr

/-- A pattern that cannot be read: a class runs backwards or is not closed. -/
structure BadPattern where
deriving DecidableEq, Repr

/-! ## Classes -/

/-- A character written in a class; one that is guarded never makes a range. -/
structure Written where
  char : Char
  guarded : Bool
deriving DecidableEq, Repr

/-- A character written as it is. -/
def Written.plain (c : Char) : Written := ⟨c, false⟩

/-- The characters that are guarded when they stand for themselves. -/
def isGuarded (c : Char) : Bool :=
  ['(', ')', '[', ']', '\x7b', '\x7d', '?', '*', '+', '-', '|', '^', '$', '\\', '.', '&', '~', '#',
    ' ', '\t', '\n', '\r', '\x0b', '\x0c'].contains c

/-- A hyphen that makes a range. -/
def Written.isHyphen (w : Written) : Bool :=
  w.char == '-' && !w.guarded

/-- The members of a class: a hyphen between two characters makes a range, which must not
run backwards; a hyphen at the end is a member. -/
def membersOf : List Written → Except BadPattern (List Member)
  | [] => .ok []
  | [w] => .ok [.single w.char]
  | [w, h] => .ok [.single w.char, .single h.char]
  | w :: h :: d :: rest =>
      if h.isHyphen then
        if d.char < w.char then .error ⟨⟩
        else (membersOf rest).map fun members => .range w.char d.char :: members
      else (membersOf (h :: d :: rest)).map fun members => .single w.char :: members

/-- The class of a body between brackets. -/
def classOf (negated : Bool) (written : List Written) : Except BadPattern CharClass :=
  (membersOf written).map fun members => ⟨negated, members⟩

/-- What is written, inside a class that runs on, for tokens that do not close it. -/
def runOn : Token → List Written
  | .char c => [⟨c, isGuarded c⟩]
  | .path => ['.', '*'].map .plain
  | .directories => ['(', '?', ':', '.', '*', '/', ')', '?'].map .plain
  | _ => []

/-- What is written in a class that runs on into a star or a question mark. -/
def anyButSlash : List Written :=
  ['[', '^', '/'].map .plain

/-- The caret of a negated body is written like any other character. -/
def bodyText (negated : Bool) (body : List Char) : List Char :=
  if negated then '^' :: body else body

/-- The pieces of the tokens.  {lit}`open?` holds a class that runs on: whether it is negated
and what is written in it so far. -/
def piecesFrom : (open? : Option (Bool × List Written)) → List Token →
    Except BadPattern (List Piece)
  | none, [] => .ok []
  | some _, [] => .error ⟨⟩
  | none, .group negated body :: rest =>
      if body.isEmpty then piecesFrom (some (negated, [.plain ']'])) rest
      else do
        let g ← classOf negated (body.map .plain)
        let later ← piecesFrom none rest
        return .group g :: later
  | none, .char c :: rest => (piecesFrom none rest).map (.char c :: ·)
  | none, .one :: rest => (piecesFrom none rest).map (.one :: ·)
  | none, .run :: rest => (piecesFrom none rest).map (.run :: ·)
  | none, .path :: rest => (piecesFrom none rest).map (.path :: ·)
  | none, .directories :: rest => (piecesFrom none rest).map (.directories :: ·)
  | some (negated, written), .group inner body :: rest => do
      let g ← classOf negated (written ++ ('[' :: bodyText inner body).map .plain)
      let later ← piecesFrom none rest
      return .group g :: later
  | some (negated, written), .one :: rest => do
      let g ← classOf negated (written ++ anyButSlash)
      let later ← piecesFrom none rest
      return .group g :: later
  | some (negated, written), .run :: rest => do
      let g ← classOf negated (written ++ anyButSlash)
      let later ← piecesFrom none rest
      return .groupRun g :: later
  | some (negated, written), token :: rest =>
      piecesFrom (some (negated, written ++ runOn token)) rest

/-- The pieces of a pattern. -/
def compile (pattern : String) : Except BadPattern (List Piece) :=
  piecesFrom none (tokens pattern.toList)

end CrateAtlas.Glob
