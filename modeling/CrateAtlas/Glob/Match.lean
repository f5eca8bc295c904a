import CrateAtlas.Glob.Pattern

/-!
# Matching paths against glob patterns

A path matches a pattern when its pieces cover the whole path.  Two stars never reach
across a line feed.

A list of patterns is tried in order, and a pattern is read only when it is tried.
-/

namespace CrateAtlas.Glob

/-- Whether some rest of the characters is accepted, where all characters skipped are
allowed. -/
def someRest (allowed : Char → Bool) (accepts : List Char → Bool) : List Char → Bool
  | [] => accepts []
  | c :: cs => accepts (c :: cs) || (allowed c && someRest allowed accepts cs)

/-- Whether some rest that follows a slash is accepted, where no line feed is skipped. -/
def someRestAfterSlash (accepts : List Char → Bool) : List Char → Bool
  | [] => false
  | c :: cs => (c == '/' && accepts cs) || (c != '\n' && someRestAfterSlash accepts cs)

/-- Whether the first character is allowed and the rest is accepted. -/
def oneThen (allowed : Char → Bool) (accepts : List Char → Bool) : List Char → Bool
  | [] => false
  | c :: cs => allowed c && accepts cs

/-- Whether pieces cover all characters. -/
def covers : List Piece → List Char → Bool
  | [], cs => cs.isEmpty
  | .char c :: rest, cs => oneThen (· == c) (covers rest) cs
  | .one :: rest, cs => oneThen (· != '/') (covers rest) cs
  | .run :: rest, cs => someRest (· != '/') (covers rest) cs
  | .path :: rest, cs => someRest (· != '\n') (covers rest) cs
  | .directories :: rest, cs => covers rest cs || someRestAfterSlash (covers rest) cs
  | .group g :: rest, cs => oneThen g.holds (covers rest) cs
  | .groupRun g :: rest, cs => someRest g.holds (covers rest) cs

/-- Whether a path matches a pattern. -/
def test (pattern path : String) : Except BadPattern Bool :=
  (compile pattern).map fun pieces => covers pieces path.toList

/-- Whether a path matches one of several patterns, tried in order up to the first match. -/
def testAny : List String → String → Except BadPattern Bool
  | [], _ => .ok false
  | pattern :: rest, path => do
      if ← test pattern path then return true else testAny rest path

/-- Whether a path is selected: it matches no pattern of {lit}`exclude` and some pattern of
{lit}`select`. -/
def selects (select exclude : List String) (path : String) : Except BadPattern Bool := do
  if ← testAny exclude path then return false else testAny select path

end CrateAtlas.Glob
