import CrateAtlas.Node.Basic
import CrateAtlas.Text.Utf8

/-!
# Source text under a tree

A tree refers to its source by byte offsets.  This file cuts stretches of bytes out of a
source, turns offsets into rows and columns, and reads the text of a node.
-/

namespace CrateAtlas

/-- The bytes of a source file. -/
abbrev Source := List UInt8

namespace Source

/-- The bytes from one offset up to another. -/
def slice (source : Source) (start stop : Nat) : List UInt8 :=
  (source.take stop).drop start

/-- The number of line feeds before an offset. -/
def row (source : Source) (offset : Nat) : Nat :=
  (source.take offset).count 0x0A

/-- The distance of an offset from the start of its line, in bytes. -/
def column (source : Source) (offset : Nat) : Nat :=
  let before := source.take offset
  let tail := before.reverse.takeWhile (· != 0x0A)
  offset - (before.length - tail.length)

/-- The text under a label; fails if its bytes are not UTF-8. -/
def text (source : Source) (label : Label) : Except Text.Utf8.Refusal String :=
  Text.Utf8.decode (source.slice label.start label.stop)

/-- The text under a label with replacement characters for bytes that are not UTF-8. -/
def lenientText (source : Source) (label : Label) : String :=
  Text.Utf8.decodeLenient (source.slice label.start label.stop)

end Source

/-- The span of a node in its file: lines count from one, columns from zero. -/
structure Location where
  filePath : String
  lineStart : Nat
  lineEnd : Nat
  columnStart : Nat
  columnEnd : Nat
  byteStart : Nat
  byteEnd : Nat
deriving DecidableEq, Repr

/-- Where a label stands. -/
def Location.of (source : Source) (filePath : String) (label : Label) : Location where
  filePath := filePath
  lineStart := source.row label.start + 1
  lineEnd := source.row label.stop + 1
  columnStart := source.column label.start
  columnEnd := source.column label.stop
  byteStart := label.start
  byteEnd := label.stop

end CrateAtlas
