/-!
# Documents

A document is a value as data files hold it: settings, manifests and reports.  Mappings
keep the order of their entries.  Their keys are texts, but for some settings files, where
a key may also be a number, a truth value or nothing at all.
-/

namespace CrateAtlas

/-- A key of a mapping that is no text. -/
inductive OddKey where
  | null
  | bool (value : Bool)
  | int (value : Int)
  | real (value : Float)

/-- A value as data files hold it. -/
inductive Document where
  | null
  | bool (value : Bool)
  | int (value : Int)
  | real (value : Float)
  | text (value : String)
  | list (items : List Document)
  | mapping (entries : List (String × Document))
  /-- A mapping with a key that is no text: the entries before the first such key, that key
  and its value, and the entries after it. -/
  | mixed (front : List (String × Document)) (key : OddKey) (value : Document)
      (back : List ((String ⊕ OddKey) × Document))

namespace Document

instance : Inhabited Document := ⟨null⟩

/-- The document of a list of texts. -/
def texts (items : List String) : Document :=
  list (items.map text)

/-- The document of a natural number. -/
def nat (n : Nat) : Document :=
  int (Int.ofNat n)

/-- A key that is no text, as a value. -/
def ofOddKey : OddKey → Document
  | .null => null
  | .bool value => bool value
  | .int value => int value
  | .real value => real value

/-- A key as a value. -/
def ofKey : String ⊕ OddKey → Document
  | .inl value => text value
  | .inr key => ofOddKey key

/-- The entries whose keys are texts. -/
def textEntries (entries : List ((String ⊕ OddKey) × Document)) : List (String × Document) :=
  entries.filterMap fun
    | (.inl key, value) => some (key, value)
    | (.inr _, _) => none

/-- A document that may be absent. -/
def option (render : α → Document) : Option α → Document
  | some value => render value
  | none => null

/-- The entry of a key among entries. -/
def entry? (entries : List (String × Document)) (key : String) : Option Document :=
  (entries.find? fun entry => entry.1 == key).map Prod.snd

/-- The entry of a key, if the document is a mapping that has one. -/
def get? (document : Document) (key : String) : Option Document :=
  match document with
  | mapping entries => entry? entries key
  | mixed front _ _ back => entry? (front ++ textEntries back) key
  | _ => none

end Document

end CrateAtlas
