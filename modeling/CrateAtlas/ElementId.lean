import CrateAtlas.ScopePath.Basic
import CrateAtlas.Text.Digit
import CrateAtlas.Text.Quoted

/-!
# Element identifiers

An element is identified by its file, its kind, its qualified name and its ordinal, the
position at which it is declared in the file, joined by the scope separator:
{lit}`src/lib.rs::Function::net::connect::3`.  The qualified name may hold separators of
its own.
-/

namespace CrateAtlas

/-- The components of an element identifier. -/
structure ElementId where
  filePath : String
  kind : String
  qualifiedName : String
  ordinal : Nat
deriving DecidableEq, Repr

namespace ElementId

/-- The written form of an identifier. -/
def render (id : ElementId) : String :=
  id.filePath ++ "::" ++ id.kind ++ "::" ++ id.qualifiedName ++ "::" ++ toString id.ordinal

/-- Ordinals start at one. -/
structure InvalidOrdinal where
  ordinal : Int
deriving DecidableEq, Repr

/-- The wording of the refusal of an ordinal. -/
def InvalidOrdinal.message (fault : InvalidOrdinal) : String :=
  s!"ordinal must be >= 1, got {fault.ordinal}"

/-- Write an identifier for an ordinal that is at least one. -/
def create (filePath kind qualifiedName : String) (ordinal : Int) :
    Except InvalidOrdinal String :=
  if ordinal < 1 then .error ⟨ordinal⟩
  else .ok (render ⟨filePath, kind, qualifiedName, ordinal.toNat⟩)

/-! ## Reading identifiers -/

/-- Why a text is not an identifier. -/
inductive ParseFault where
  /-- Too few components, or a last component that is not made of digits. -/
  | malformed (text : String)
  /-- The last component holds a digit that is not a decimal digit. -/
  | notDecimal (literal : String)
  /-- The last component has more decimal digits than are read. -/
  | tooLong (digits : Nat)
deriving DecidableEq, Repr

/-- The largest number of digits of an ordinal that is read. -/
def maxDigits : Nat := 4300

/-- The longest stretch of a refused literal that a message shows. -/
def shownLength : Nat := 200

/-- The wording of a refusal. -/
def ParseFault.message : ParseFault → String
  | .malformed text => "Malformed element id: " ++ text
  | .notDecimal literal =>
      "invalid literal for int() with base 10: " ++
        String.ofList ((Text.quoted literal).toList.take shownLength)
  | .tooLong digits =>
      s!"Exceeds the limit ({maxDigits} digits) for integer string conversion: value has " ++
        s!"{digits} digits; use sys.set_int_max_str_digits() to increase the limit"

/-- Read an ordinal from a text of digits. -/
def readOrdinal (text : String) : Except ParseFault Nat :=
  let digits := Text.leadingDigits text.toList
  if maxDigits < digits.length then .error (.tooLong digits.length)
  else if digits.length < text.length then .error (.notDecimal text)
  else .ok (Text.numberOfDigits digits)

/-- Read an identifier from its parts between separators. -/
def ofParts (text : String) (parts : List String) : Except ParseFault ElementId :=
  match parts with
  | filePath :: kind :: name :: rest =>
      match (name :: rest).dropLast, rest.getLast? with
      | names, some last =>
          if last.toList.isEmpty || !last.toList.all Text.isDigit then .error (.malformed text)
          else
            (readOrdinal last).map fun ordinal =>
              ⟨filePath, kind,
                String.ofList (ScopePath.separator.intercalate (names.map String.toList)), ordinal⟩
      | _, none => .error (.malformed text)
  | _ => .error (.malformed text)

/-- Read an identifier: the first two components are the file and the kind, the last one
is the ordinal, and what stands between is the qualified name. -/
def parse (text : String) : Except ParseFault ElementId :=
  ofParts text (Text.splitOn "::" text)

end ElementId

end CrateAtlas
