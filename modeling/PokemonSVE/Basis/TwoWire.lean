-- SUMMARY: A two-wire serial bus: the receiver that reads starts, stops, and acknowledged bytes off the lines, with one rule for each change of the lines.
import Mathlib.Data.List.OfFn

/-!
# A two-wire serial bus

A start or a stop is a change of the data line while the clock is high. All other data is
sampled when the clock rises, and counts when it falls. Every ninth bit is the
acknowledgement, which belongs to the receiver.
-/

namespace TwoWire

/-- The levels of the two lines in one tick. -/
structure Lines where
  scl : Bool
  sda : Bool
  deriving DecidableEq, Repr

/-- A transfer in progress: its clock pulses, and its bits without the acknowledgements. -/
structure Transfer where
  pulses : ℕ
  bits : List Bool
  deriving DecidableEq, Repr

/-- One more pulse. -/
def Transfer.clock (t : Transfer) (b : Bool) : Transfer :=
  ⟨t.pulses + 1, if t.pulses % 9 = 8 then t.bits else t.bits ++ [b]⟩

structure Receiver where
  /-- The lines in the tick before. -/
  lines : Lines
  /-- The bit sampled at the last rise, if there was no start or stop since. -/
  bit : Option Bool
  transfer : Option Transfer
  /-- The bits of each transfer that is over. -/
  transfers : List (List Bool)
  deriving DecidableEq, Repr

namespace Receiver

/-- A receiver that has heard nothing yet. -/
def listening (lines : Lines) : Receiver := ⟨lines, none, none, []⟩

/-- The transfers, with the one in progress. -/
def heard (r : Receiver) : List (List Bool) := r.transfers ++ (r.transfer.map Transfer.bits).toList

/-- What one tick of the lines does. -/
def step (r : Receiver) (l : Lines) : Receiver :=
  match r.lines.scl, l.scl with
  | false, false => { r with lines := l }
  | false, true => { r with lines := l, bit := some l.sda }
  | true, false =>
    { r with
      lines := l
      bit := none
      transfer := r.bit.elim r.transfer fun b => r.transfer.map fun t => t.clock b }
  | true, true =>
    if l.sda = r.lines.sda then { r with lines := l }
    else
      { lines := l
        bit := none
        transfer := if l.sda then none else some ⟨0, []⟩
        transfers := r.heard }

variable {r : Receiver} {l : Lines}

/-! ## The rules -/

/-- Nothing, with the clock low and no bit sampled. -/
theorem step_low (hl : l.scl = false) (hbit : r.bit = none) : r.step l = { r with lines := l } := by
  cases hr : r.lines.scl <;> simp [step, hr, hl, hbit]

theorem step_rise (hr : r.lines.scl = false) (hl : l.scl = true) :
    r.step l = { r with lines := l, bit := some l.sda } := by
  simp [step, hr, hl]

/-- Nothing, with the clock high and the data line as it was. -/
theorem step_high (hr : r.lines.scl = true) (hl : l.scl = true) (hsda : l.sda = r.lines.sda) :
    r.step l = { r with lines := l } := by
  simp [step, hr, hl, hsda]

/-- The bit that was sampled counts. -/
theorem step_fall (hr : r.lines.scl = true) (hl : l.scl = false) {b : Bool}
    (hbit : r.bit = some b) :
    r.step l =
      { r with lines := l, bit := none, transfer := r.transfer.map fun t => t.clock b } := by
  simp [step, hr, hl, hbit]

/-- A start. -/
theorem step_start (hr : r.lines = ⟨true, true⟩) :
    r.step ⟨true, false⟩ = ⟨⟨true, false⟩, none, some ⟨0, []⟩, r.heard⟩ := by
  simp [step, hr]

/-- A stop. -/
theorem step_stop (hr : r.lines = ⟨true, false⟩) :
    r.step ⟨true, true⟩ = ⟨⟨true, true⟩, none, none, r.heard⟩ := by
  simp [step, hr]

/-! ## Runs -/

theorem step_lines (r : Receiver) (l : Lines) : (r.step l).lines = l := by
  unfold step
  split
  · rfl
  · rfl
  · rfl
  · split_ifs <;> rfl

/-- With the clock low no bit is waiting. -/
def Tidy (r : Receiver) : Prop := r.lines.scl = false → r.bit = none

theorem tidy_listening : (listening l).Tidy := fun _ => rfl

theorem Tidy.step (h : r.Tidy) (l : Lines) : (r.step l).Tidy := by
  intro hlow
  have hl : l.scl = false := by rwa [step_lines] at hlow
  cases hr : r.lines.scl
  · rw [step_low hl (h hr)]
    exact h hr
  · simp [Receiver.step, hr, hl]

end Receiver

/-! ## Words on the bus -/

variable {w j : ℕ} {x : BitVec w} {b : Bool}

/-- The bits of a word in the order in which they are sent. -/
def msbFirst (x : BitVec w) : List Bool := List.ofFn fun k : Fin w => x.getMsbD k

@[simp] theorem length_msbFirst : (msbFirst x).length = w := List.length_ofFn

theorem getElem_msbFirst {k : ℕ} (hk : k < (msbFirst x).length) :
    (msbFirst x)[k] = x.getMsbD k := by
  simp [msbFirst]

namespace Transfer

/-- After `j` pulses of a transfer of `x`. -/
def upTo (x : BitVec w) (j : ℕ) : Transfer := ⟨j, (msbFirst x).take (j - j / 9)⟩

@[simp] theorem upTo_zero : upTo x 0 = ⟨0, []⟩ := rfl

/-- A pulse with any acknowledgement. -/
theorem clock_upTo_ack (hack : j % 9 = 8) : (upTo x j).clock b = upTo x (j + 1) := by
  have hsame : j + 1 - (j + 1) / 9 = j - j / 9 := by omega
  simp [clock, upTo, hack, hsame]

/-- A pulse with the next bit of the word. -/
theorem clock_upTo (hbit : j % 9 ≠ 8) (hj : j - j / 9 < w) :
    (upTo x j).clock (x.getMsbD (j - j / 9)) = upTo x (j + 1) := by
  have hsucc : j + 1 - (j + 1) / 9 = j - j / 9 + 1 := by omega
  have hlen : j - j / 9 < (msbFirst x).length := by rwa [length_msbFirst]
  simp [clock, upTo, hbit, hsucc, ← List.take_append_getElem hlen, getElem_msbFirst]

/-- After all pulses the whole word is there. -/
theorem upTo_bits (hj : w ≤ j - j / 9) : (upTo x j).bits = msbFirst x :=
  List.take_of_length_le (by rwa [length_msbFirst])

end Transfer

end TwoWire
