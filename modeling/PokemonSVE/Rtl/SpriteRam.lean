-- SUMMARY: The modules `CharacterRam` and `GymMapRam`: memories of colour codes with a palette in front of the registered read port.
import PokemonSVE.Rtl.FramebufferRam

/-!
# CharacterRam and GymMapRam

The two sprite memories in `ram.sv`. They differ in their size and in their palette,
and share their ports with `FramebufferRam`.
-/

namespace SpriteRam

structure Regs (depth : ℕ) where
  mem : Fin depth → BitVec 8
  data_Out : BitVec 24

/-- The colour of the default arm. -/
def defaultColour : BitVec 24 := 0xFF00FF#24

/-- The `unique case` over a word, whose arms are the codes from 0 on. -/
def palette (colours : List (BitVec 24)) (code : BitVec 8) : BitVec 24 :=
  colours.getD code.toNat defaultColour

/-- `decoded`. Past the end the word is undefined, which no arm but the default one
matches. -/
def decoded {depth : ℕ} (colours : List (BitVec 24)) (mem : Fin depth → BitVec 8)
    (read_address : BitVec 19) : BitVec 24 :=
  if h : read_address.toNat < depth then palette colours (mem ⟨read_address.toNat, h⟩)
  else defaultColour

/-- The write that an edge does, which cuts `data_In` to a word. -/
def write (depth : ℕ) (i : FramebufferRam.In) : Option (Fin depth × BitVec 8) :=
  if h : i.we = true ∧ i.write_address.toNat < depth then
    some (⟨i.write_address.toNat, h.2⟩, i.data_In.setWidth 8)
  else none

/-- The registers after a `posedge Clk`. -/
def Regs.posedge {depth : ℕ} (colours : List (BitVec 24)) (r : Regs depth)
    (i : FramebufferRam.In) : Regs depth where
  mem := Memory.write r.mem (write depth i)
  data_Out := decoded colours r.mem i.read_address

variable {depth : ℕ} {colours : List (BitVec 24)}

/-- With the write disabled the memory stays. -/
theorem posedge_mem (r : Regs depth) {i : FramebufferRam.In} (h : i.we = false) :
    (r.posedge colours i).mem = r.mem := by
  have hwrite : write depth i = none := dif_neg (by simp [h])
  rw [Regs.posedge, hwrite]
  rfl

/-- A word past the palette shows the colour of the default arm. -/
theorem palette_of_le {code : BitVec 8} (h : colours.length ≤ code.toNat) :
    palette colours code = defaultColour := by
  rw [palette, List.getD_eq_getElem?_getD, List.getElem?_eq_none h]
  rfl

end SpriteRam

namespace CharacterRam

/-- The number of words of `mem`. -/
abbrev depth : ℕ := 30352

def colours : List (BitVec 24) := [
  0x000000#24, 0x101010#24, 0xFFD8CF#24, 0xE8E8F8#24, 0xFFD8CF#24, 0xFFF8FF#24, 0xD0D0D8#24,
  0x8F8890#24, 0xCFC8CF#24, 0x4F3030#24, 0x784040#24, 0x7F4040#24, 0x682828#24, 0x7F5850#24,
  0x90382F#24, 0xAF403F#24, 0xC04040#24, 0xC03838#24, 0xEFA09F#24, 0x785850#24, 0xC86048#24,
  0xCF6860#24, 0xF86058#24, 0xC89070#24, 0x501000#24, 0xE0B898#24, 0xDF9070#24, 0xE0684F#24,
  0xEF7040#24, 0xF86848#24, 0xF87058#24, 0x584028#24, 0x886048#24, 0xD89070#24, 0xA87840#24,
  0xD8B898#24, 0xEFB090#24, 0xF0B890#24, 0xF8C090#24, 0xFFD0B0#24, 0x3F381F#24, 0xB89858#24,
  0xB89838#24, 0xD0B080#24, 0xD8B068#24, 0xF8C058#24, 0xFFD84F#24, 0xFFC86A#24, 0xF8D858#24,
  0xF8D868#24, 0xF8E0B0#24, 0xFFE080#24, 0x306888#24, 0x5088B0#24, 0x70A0C0#24, 0x78B8D8#24,
  0x50608F#24, 0x182850#24, 0x9FB0CF#24, 0x7F88B0#24, 0x383878#24, 0xC0C0D0#24, 0x5860B8#24,
  0xB0B0D0#24, 0xC0C0D8#24, 0x4F485F#24, 0x403860#24, 0x6F50BF#24, 0xA088EF#24, 0xFF00FF#24]

abbrev Regs := SpriteRam.Regs depth

def Regs.posedge (r : Regs) (i : FramebufferRam.In) : Regs := SpriteRam.Regs.posedge colours r i

/-- The code that the sheet has for what is not drawn. -/
def clear : BitVec 8 := 0x45#8

/-- The colour that is not drawn is that of the codes from `clear` on: no other arm of
the palette has it. -/
theorem palette_eq_default_iff {code : BitVec 8} :
    SpriteRam.palette colours code = SpriteRam.defaultColour ↔ clear ≤ code := by
  have harms : ((List.range 70).all fun k =>
      decide (colours.getD k SpriteRam.defaultColour = SpriteRam.defaultColour ↔ 69 ≤ k)) =
        true := by decide
  have hclear : clear ≤ code ↔ 69 ≤ code.toNat := by
    unfold clear
    bv_omega
  rw [hclear]
  rcases Nat.lt_or_ge code.toNat 70 with hlt | hge
  · have harm := List.all_eq_true.mp harms _ (List.mem_range.mpr hlt)
    exact of_decide_eq_true harm
  · have hdefault : SpriteRam.palette colours code = SpriteRam.defaultColour :=
      SpriteRam.palette_of_le hge
    simp only [hdefault, true_iff]
    omega

end CharacterRam

namespace GymMapRam

/-- The number of words of `mem`. -/
abbrev depth : ℕ := 180032

def colours : List (BitVec 24) := [
  0x000000#24, 0xCFF0FF#24, 0xFFD8FF#24, 0xFFF8FF#24, 0xB0B0A0#24, 0xDFE0E0#24, 0x90909F#24,
  0x7F7880#24, 0x7F787F#24, 0xF0A070#24, 0xFFE090#24, 0x40C850#24, 0xB0F8C0#24, 0x5090C0#24,
  0x60C0EF#24, 0x9FD0FF#24, 0x8090C0#24, 0x50506F#24, 0x6F78AF#24, 0x9FA8E0#24, 0xC0B8D0#24,
  0xB088DF#24, 0xCFA8F0#24, 0xDFC8FF#24, 0xE088E0#24, 0xB07890#24]

abbrev Regs := SpriteRam.Regs depth

def Regs.posedge (r : Regs) (i : FramebufferRam.In) : Regs := SpriteRam.Regs.posedge colours r i

end GymMapRam
