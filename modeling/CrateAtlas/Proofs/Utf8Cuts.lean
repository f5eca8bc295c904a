import CrateAtlas.Node.Source
import CrateAtlas.Proofs.Outcome
import Mathlib.Data.List.Basic
import Mathlib.Tactic.SplitIfs

/-!
# Cutting and joining UTF-8

Bytes spell characters when their scan has no refused stretch.  Texts can be joined, and cut wherever
the bytes before the cut are whole characters, so that every slice of a source between two such
places spells characters too.

Main results:

- Theorem {lit}`Spells.append`: what is spelled by bytes one after the other.
- Theorem {lit}`Spells.of_append`: what the rest spells, once the front spells something.
- Theorem {lit}`exists_spells_slice`: slices between the borders of characters spell characters.
-/

namespace CrateAtlas

namespace Text.Utf8

variable {xs ys : List UInt8} {cs ds : List Char}

/-- The bytes are the characters {lit}`cs` in UTF-8. -/
def Spells (bytes : List UInt8) (cs : List Char) : Prop :=
  scan bytes = cs.map Item.char

/-! ## Decoding -/

theorem strict_eq_ok_iff {items : List Item} : strict items = .ok cs ↔ items = cs.map Item.char := by
  induction items generalizing cs with
  | nil =>
      cases cs with
      | nil => simp [strict]
      | cons c cs => simp [strict]
  | cons item items ih =>
      cases item with
      | refused r => cases cs <;> simp [strict]
      | char c =>
          rw [strict, Outcome.map_eq_ok_iff]
          constructor
          · rintro ⟨later, hlater, rfl⟩
            rw [ih.mp hlater, List.map_cons]
          · intro h
            cases cs with
            | nil => simp at h
            | cons d cs =>
                obtain ⟨heq, hitems⟩ := List.cons.inj h
                obtain rfl := Item.char.inj heq
                exact ⟨cs, ih.mpr hitems, rfl⟩

theorem decode_eq_ok_iff {bytes : List UInt8} {text : String} :
    decode bytes = .ok text ↔ Spells bytes text.toList := by
  rw [decode, Outcome.map_eq_ok_iff]
  constructor
  · rintro ⟨cs, hcs, rfl⟩
    rw [String.toList_ofList]
    exact strict_eq_ok_iff.mp hcs
  · intro h
    exact ⟨text.toList, strict_eq_ok_iff.mpr h, String.ofList_toList⟩

/-- Bytes that spell characters are decoded leniently as these. -/
theorem Spells.decodeLenient_eq {bytes : List UInt8} (h : Spells bytes cs) :
    decodeLenient bytes = String.ofList cs := by
  rw [decodeLenient, show scan bytes = cs.map Item.char from h, List.map_map]
  congr 1
  exact List.map_id cs

theorem spells_nil : Spells [] [] :=
  rfl

/-! ## Moving a scan -/

/-- A refusal that stands further back. -/
def Refusal.shift (k : Nat) (r : Refusal) : Refusal :=
  { r with offset := r.offset + k }

/-- An item that stands further back. -/
def Item.shift (k : Nat) : Item → Item
  | char c => char c
  | refused r => refused (r.shift k)

/-- A character that was begun further back. -/
def Pending.shift (k : Nat) (p : Pending) : Pending :=
  { p with offset := p.offset + k }

/-- What a byte begins does not depend on where it stands, its offset apart. -/
theorem start_shift (k offset : Nat) (byte : UInt8) :
    start (offset + k) byte =
      ((start offset byte).1.map (Item.shift k), (start offset byte).2.map (Pending.shift k)) := by
  unfold start lead
  simp only
  split_ifs <;> simp [Item.shift, Refusal.shift, Pending.shift]

theorem step_shift (k offset : Nat) (byte : UInt8) (state : Option Pending) :
    step (offset + k) byte (state.map (Pending.shift k)) =
      ((step offset byte state).1.map (Item.shift k),
        (step offset byte state).2.map (Pending.shift k)) := by
  cases state with
  | none => exact start_shift k offset byte
  | some p =>
      simp only [step, Option.map_some, start_shift]
      split_ifs <;> simp_all [Pending.shift, Item.shift, Refusal.shift, Pending.refusal]

/-- Bytes further back are scanned as the same items, further back. -/
theorem scanFrom_shift (k : Nat) (bytes : List UInt8) (offset : Nat) (state : Option Pending) :
    scanFrom (offset + k) (state.map (Pending.shift k)) bytes =
      (scanFrom offset state bytes).map (Item.shift k) := by
  induction bytes generalizing offset state with
  | nil =>
      cases state with
      | none => rfl
      | some p => simp [scanFrom, Item.shift, Refusal.shift, Pending.refusal, Pending.shift]
  | cons byte rest ih =>
      rw [scanFrom, scanFrom, step_shift, List.map_append, ← ih, Nat.add_right_comm]

theorem scanFrom_none (offset : Nat) (bytes : List UInt8) :
    scanFrom offset none bytes = (scan bytes).map (Item.shift offset) := by
  have hshift := scanFrom_shift offset bytes 0 none
  rwa [Nat.zero_add, Option.map_none] at hshift

/-! ## Scanning in two parts -/

/-- The items that some bytes complete from a state on, and the state after them. -/
def scanPart : (offset : Nat) → Option Pending → List UInt8 → List Item × Option Pending
  | _, state, [] => ([], state)
  | offset, state, byte :: rest =>
      let (items, next) := step offset byte state
      let (later, last) := scanPart (offset + 1) next rest
      (items ++ later, last)

theorem scanFrom_append (ys : List UInt8) (xs : List UInt8) (offset : Nat) (state : Option Pending) :
    scanFrom offset state (xs ++ ys) = (scanPart offset state xs).1 ++
      scanFrom (offset + xs.length) (scanPart offset state xs).2 ys := by
  induction xs generalizing offset state with
  | nil => rfl
  | cons byte rest ih =>
      simp only [List.cons_append, scanFrom, scanPart, ih, List.length_cons, List.append_assoc]
      rw [Nat.add_assoc, Nat.add_comm 1]

/-- After bytes that spell characters no character is open. -/
theorem Spells.scanPart_eq (h : Spells xs cs) : scanPart 0 none xs = (cs.map Item.char, none) := by
  have happend := scanFrom_append [] xs 0 none
  rw [List.append_nil, show scanFrom 0 none xs = cs.map Item.char from h] at happend
  cases hlast : (scanPart 0 none xs).2 with
  | none =>
      rw [hlast, scanFrom, List.append_nil] at happend
      exact Prod.ext happend.symm hlast
  | some p =>
      -- An open character would be refused at the end of the bytes.
      rw [hlast, scanFrom] at happend
      have hmem : Item.refused (p.refusal .unexpectedEnd) ∈ cs.map Item.char := by
        rw [happend]
        exact List.mem_append_right _ List.mem_cons_self
      obtain ⟨c, -, hc⟩ := List.mem_map.mp hmem
      cases hc

theorem Spells.scan_append (h : Spells xs cs) (ys : List UInt8) :
    scan (xs ++ ys) = cs.map Item.char ++ (scan ys).map (Item.shift xs.length) := by
  rw [scan, scanFrom_append, h.scanPart_eq, Nat.zero_add, scanFrom_none]

theorem map_shift_eq_iff {k : Nat} {items : List Item} :
    items.map (Item.shift k) = cs.map Item.char ↔ items = cs.map Item.char := by
  induction items generalizing cs with
  | nil => cases cs <;> simp
  | cons item items ih =>
      cases cs with
      | nil => simp
      | cons c cs => cases item <;> simp [Item.shift, ih]

/-- Texts one after the other are spelled by their bytes one after the other. -/
theorem Spells.append (hx : Spells xs cs) (hy : Spells ys ds) : Spells (xs ++ ys) (cs ++ ds) := by
  unfold Spells
  rw [hx.scan_append, List.map_append, map_shift_eq_iff.mpr hy]

/-- If some bytes spell characters, and so does their front, then the rest spells what is left. -/
theorem Spells.of_append {es : List Char} (hx : Spells xs cs) (h : Spells (xs ++ ys) es) :
    ∃ ds, es = cs ++ ds ∧ Spells ys ds := by
  have hscan := hx.scan_append ys
  rw [show scan (xs ++ ys) = es.map Item.char from h] at hscan
  obtain ⟨front, back, rfl, hfront, hback⟩ := List.map_eq_append_iff.mp hscan
  obtain rfl := (List.map_inj_right fun _ _ => Item.char.inj).mp hfront
  exact ⟨back, rfl, map_shift_eq_iff.mp hback.symm⟩

end Text.Utf8

namespace Source

open Text.Utf8

/-- Whether an offset lies in a source, where the bytes before it are whole characters. -/
def isBorder (source : Source) (offset : Nat) : Bool :=
  decide (offset ≤ source.length) && (decode (source.take offset)).isOk

theorem isBorder_iff {source : Source} {offset : Nat} : source.isBorder offset = true ↔
    offset ≤ source.length ∧ ∃ cs, Spells (source.take offset) cs := by
  rw [isBorder, Bool.and_eq_true, decide_eq_true_eq]
  refine and_congr_right fun _ => ?_
  cases hdecode : decode (source.take offset) with
  | error refusal =>
      constructor
      · intro h
        cases h
      · rintro ⟨cs, hcs⟩
        rw [← String.toList_ofList (l := cs), ← decode_eq_ok_iff, hdecode] at hcs
        cases hcs
  | ok text => exact ⟨fun _ => ⟨text.toList, decode_eq_ok_iff.mp hdecode⟩, fun _ => rfl⟩

theorem take_append_slice (source : Source) {first last : Nat} (h : first ≤ last) :
    source.take first ++ source.slice first last = source.take last := by
  have hcut := List.take_append_drop first (source.take last)
  rwa [List.take_take, Nat.min_eq_left h] at hcut

/-- The bytes between the borders of characters spell characters. -/
theorem exists_spells_slice {source : Source} {first last : Nat}
    (hfirst : source.isBorder first = true) (hlast : source.isBorder last = true) :
    ∃ cs, Spells (source.slice first last) cs := by
  obtain ⟨-, before, hbefore⟩ := isBorder_iff.mp hfirst
  obtain ⟨-, whole, hwhole⟩ := isBorder_iff.mp hlast
  rcases Nat.le_total first last with hle | hle
  · rw [← source.take_append_slice hle] at hwhole
    obtain ⟨cs, -, hcs⟩ := hbefore.of_append hwhole
    exact ⟨cs, hcs⟩
  · refine ⟨[], ?_⟩
    rw [slice, List.drop_eq_nil_of_le]
    · exact spells_nil
    · exact Nat.le_trans (List.length_take_le last source) hle

end Source

end CrateAtlas
