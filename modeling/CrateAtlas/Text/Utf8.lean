/-!
# Reading UTF-8

A reader for UTF-8 that says where and why it refuses.  The bytes are scanned from
left to right into items: a character, or a refused stretch of bytes with the reason.
A stretch ends just before the first byte that cannot continue the character begun,
and that byte is looked at afresh.

Strict decoding fails at the first refused stretch; lenient decoding writes the
replacement character for each of them.  Both are views of one scan.
-/

namespace CrateAtlas.Text.Utf8

/-- Why a stretch of bytes is not a character. -/
inductive Reason where
  | invalidStart
  | invalidContinuation
  | unexpectedEnd
deriving DecidableEq, Repr

/-- The wording of a reason. -/
def Reason.message : Reason → String
  | .invalidStart => "invalid start byte"
  | .invalidContinuation => "invalid continuation byte"
  | .unexpectedEnd => "unexpected end of data"

/-- A refused stretch: its bytes, where the first of them stands, and the reason. -/
structure Refusal where
  offset : Nat
  bytes : List UInt8
  reason : Reason
deriving DecidableEq, Repr

/-- One item of a scan. -/
inductive Item where
  | char (c : Char)
  | refused (r : Refusal)
deriving DecidableEq, Repr

/-- A character begun but not complete: its offset, its bytes so far in reverse, the
number of bytes still missing, the value collected, and the range that the next byte
has to lie in. -/
structure Pending where
  offset : Nat
  seen : List UInt8
  missing : Nat
  value : Nat
  low : Nat
  high : Nat
deriving DecidableEq, Repr

/-- The refusal of a character that was begun and not completed. -/
def Pending.refusal (p : Pending) (reason : Reason) : Refusal :=
  ⟨p.offset, p.seen.reverse, reason⟩

/-- What a first byte can be. -/
inductive Lead where
  | single (c : Char)
  | opens (p : Pending)
  | invalid

/-- Classify a first byte: the ranges for the second byte rule out overlong forms,
surrogates and values above U+10FFFF. -/
def lead (offset : Nat) (byte : UInt8) : Lead :=
  let b := byte.toNat
  if b < 0x80 then .single (Char.ofNat b)
  else if b < 0xC2 then .invalid
  else if b < 0xE0 then .opens ⟨offset, [byte], 1, b - 0xC0, 0x80, 0xBF⟩
  else if b < 0xF0 then
    .opens ⟨offset, [byte], 2, b - 0xE0,
      if b = 0xE0 then 0xA0 else 0x80, if b = 0xED then 0x9F else 0xBF⟩
  else if b < 0xF5 then
    .opens ⟨offset, [byte], 3, b - 0xF0,
      if b = 0xF0 then 0x90 else 0x80, if b = 0xF4 then 0x8F else 0xBF⟩
  else .invalid

/-- Read one byte while no character is open. -/
def start (offset : Nat) (byte : UInt8) : List Item × Option Pending :=
  match lead offset byte with
  | .single c => ([.char c], none)
  | .opens p => ([], some p)
  | .invalid => ([.refused ⟨offset, [byte], .invalidStart⟩], none)

/-- Read one byte in a state: the items it completes and the state after it. -/
def step (offset : Nat) (byte : UInt8) : Option Pending → List Item × Option Pending
  | none => start offset byte
  | some p =>
      if p.low ≤ byte.toNat ∧ byte.toNat ≤ p.high then
        let value := p.value * 64 + (byte.toNat - 0x80)
        if p.missing ≤ 1 then ([.char (Char.ofNat value)], none)
        else ([], some ⟨p.offset, byte :: p.seen, p.missing - 1, value, 0x80, 0xBF⟩)
      else
        let (items, state) := start offset byte
        (.refused (p.refusal .invalidContinuation) :: items, state)

/-- Scan the bytes from a state on, where the first of them stands at {lit}`offset`. -/
def scanFrom : (offset : Nat) → Option Pending → List UInt8 → List Item
  | _, none, [] => []
  | _, some p, [] => [.refused (p.refusal .unexpectedEnd)]
  | offset, state, byte :: rest =>
      let (items, next) := step offset byte state
      items ++ scanFrom (offset + 1) next rest

/-- The items of a list of bytes. -/
def scan (bytes : List UInt8) : List Item :=
  scanFrom 0 none bytes

/-- The characters of a scan, or its first refused stretch. -/
def strict : List Item → Except Refusal (List Char)
  | [] => .ok []
  | .refused r :: _ => .error r
  | .char c :: rest => (strict rest).map (c :: ·)

/-- The character that stands for a refused stretch. -/
def replacement : Char := Char.ofNat 0xFFFD

/-- Read an item, writing the replacement character for a refused stretch. -/
def Item.lenient : Item → Char
  | .char c => c
  | .refused _ => replacement

/-- Decode bytes, failing at the first refused stretch. -/
def decode (bytes : List UInt8) : Except Refusal String :=
  (strict (scan bytes)).map String.ofList

/-- Decode bytes, writing the replacement character for each refused stretch. -/
def decodeLenient (bytes : List UInt8) : String :=
  String.ofList ((scan bytes).map Item.lenient)

/-- Two hexadecimal digits of a byte, in lower case. -/
def hexByte (byte : UInt8) : String :=
  let digits := Nat.toDigits 16 byte.toNat
  String.ofList (if digits.length < 2 then '0' :: digits else digits)

/-- Why a text cannot be read: one byte is shown with its value, several by their
positions. -/
def Refusal.message (r : Refusal) : String :=
  match r.bytes with
  | [byte] =>
      s!"'utf-8' codec can't decode byte 0x{hexByte byte} in position {r.offset}: {r.reason.message}"
  | bytes =>
      s!"'utf-8' codec can't decode bytes in position {r.offset}-{r.offset + bytes.length - 1}: " ++
        r.reason.message

end CrateAtlas.Text.Utf8
