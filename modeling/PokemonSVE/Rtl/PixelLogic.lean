-- SUMMARY: The pixel logic of `frameDrawer`: the read addresses of the three memories, and the next pixel.
import PokemonSVE.Rtl.FrameDrawer

/-!
# The pixel logic of frameDrawer

The part of `always_comb` in `framebuffer.sv` that is about pixels. An unsized
literal makes an expression 32 bits wide and unsigned, and the assignment cuts the
result to the width of its target.
-/

namespace FrameDrawer

/-- The nets that the pixel logic reads: ports, registers, and the outputs of
`tileinstance` and of the memories. -/
structure PixelIn where
  stateNum : BitVec 4
  DRAWX : BitVec 10
  DRAWY : BitVec 10
  charxcurrpos : BitVec 10
  charycurrpos : BitVec 10
  charIsMoving : Bool
  charIsRunning : Bool
  direction : BitVec 2
  charMoveFrame : BitVec 2
  atTile : Bool
  spinDirection : BitVec 2
  FBdata_Out : BitVec 24
  Gymdata_Out : BitVec 24
  Chardata_Out : BitVec 24

namespace PixelIn

variable (i : PixelIn)

/-- A net in an expression with unsized literals. -/
abbrev wide {w : ℕ} (v : BitVec w) : BitVec 32 := v.setWidth 32

/-! ## The display -/

/-- The window of the scan that shows the frame buffer. -/
def InDisplay : Prop :=
  i.DRAWX > 79#10 ∧ i.DRAWX < 560#10 ∧ i.DRAWY > 79#10 ∧ i.DRAWY < 400#10

instance : Decidable i.InDisplay := inferInstanceAs (Decidable (_ ∧ _))

def FBread_address : BitVec 19 :=
  if i.InDisplay then
    ((wide i.DRAWY - 80#32) / 2#32 * 240#32 + (wide i.DRAWX - 80#32) / 2#32).setWidth 19
  else 0#19

def R : BitVec 8 := if i.InDisplay then i.FBdata_Out.extractLsb' 16 8 else 0#8
def G : BitVec 8 := if i.InDisplay then i.FBdata_Out.extractLsb' 8 8 else 0#8
def B : BitVec 8 := if i.InDisplay then i.FBdata_Out.extractLsb' 0 8 else 0#8

/-! ## The map -/

def DRAWX_next : BitVec 10 := (wide i.DRAWX - 560#32).setWidth 10
def DRAWY_next : BitVec 10 := (wide i.DRAWY - 80#32).setWidth 10

/-- The pixel of the map, at full width. -/
def mapx : BitVec 32 := wide i.DRAWX_next + wide i.charxcurrpos - 111#32
def mapy : BitVec 32 := wide i.DRAWY_next + wide i.charycurrpos - 69#32

def Gymread_address : BitVec 19 :=
  if i.stateNum = 3#4 then (i.mapy * 464#32 + i.mapx).setWidth 19
  else (wide i.DRAWY_next * 464#32 + wide i.DRAWX_next).setWidth 19

/-- The test for a pixel of the gym image. -/
def OnMap : Prop := i.mapy ≥ 0#32 ∧ i.mapy < 388#32 ∧ i.mapx ≥ 0#32 ∧ i.mapx < 464#32

instance : Decidable i.OnMap := inferInstanceAs (Decidable (_ ∧ _))

/-! ## The character -/

/-- The test for the character box. -/
def InBox : Prop :=
  i.DRAWX_next ≥ 111#10 ∧ i.DRAWX_next < 128#10 ∧ i.DRAWY_next ≥ 69#10 ∧ i.DRAWY_next < 91#10

instance : Decidable i.InBox := inferInstanceAs (Decidable (_ ∧ _))

/-- The address for a character that does not walk. The source has it twice, with
`spin_direction` and with `direction`. -/
def standing (direction : BitVec 2) : BitVec 32 :=
  if direction = 3#2 then
    (wide i.DRAWY_next - 69#32 + 42#32) * 271#32 - (wide i.DRAWX_next - 111#32) + 31#32
  else
    (wide i.DRAWY_next - 69#32 + wide direction * 21#32) * 271#32 +
      (wide i.DRAWX_next - 111#32 + 16#32)

/-- The address for a character that walks. -/
def walking (direction : BitVec 2) : BitVec 32 :=
  if direction = 3#2 then
    (wide i.DRAWY_next - 69#32 + 42#32) * 271#32 - (wide i.DRAWX_next - 111#32) +
      wide i.charMoveFrame * 16#32 + wide (BitVec.ofBool i.charIsRunning) * 48#32 + 15#32
  else
    (wide i.DRAWY_next - 69#32 + wide direction * 21#32) * 271#32 +
      (wide i.DRAWX_next - 111#32 + wide i.charMoveFrame * 16#32 +
        wide (BitVec.ofBool i.charIsRunning) * 48#32)

def Charread_address : BitVec 19 :=
  if i.stateNum = 3#4 ∧ i.InBox then
    if i.atTile then (i.standing i.spinDirection).setWidth 19
    else if !i.charIsMoving then (i.standing i.direction).setWidth 19
    else (i.walking i.direction).setWidth 19
  else 0#19

/-! ## The next pixel -/

/-- The colour that is not drawn. -/
def transparent : BitVec 24 := 0xFF00FF#24

/-- `state_num` 2: the channels are taken down one after another. -/
def fade : BitVec 24 :=
  let p := i.FBdata_Out
  let p := if i.R < 5#8 then p &&& 0x00FFFF#24
    else (p.extractLsb' 16 8 - 1#8) ++ p.extractLsb' 0 16
  let p := if i.G < 5#8 then p &&& 0xFF00FF#24
    else p.extractLsb' 16 8 ++ (p.extractLsb' 8 8 - 1#8) ++ p.extractLsb' 0 8
  if i.B < 5#8 then p &&& 0xFFFF00#24
  else p.extractLsb' 8 16 ++ (p.extractLsb' 0 8 - 1#8)

def next_pixel : BitVec 24 :=
  if i.stateNum = 2#4 then i.fade
  else if i.stateNum = 3#4 then
    let pixel := if i.OnMap then i.Gymdata_Out else 0x000000#24
    if i.InBox ∧ i.Chardata_Out ≠ transparent then i.Chardata_Out else pixel
  else i.FBdata_Out

/-! ## Positions as numbers -/

theorem DRAWX_next_toNat : i.DRAWX_next.toNat = (i.DRAWX.toNat + 464) % 1024 := by
  unfold DRAWX_next
  have hx := i.DRAWX.isLt
  simp only [BitVec.toNat_setWidth, BitVec.toNat_sub, BitVec.toNat_ofNat]
  omega

theorem DRAWY_next_toNat : i.DRAWY_next.toNat = (i.DRAWY.toNat + 944) % 1024 := by
  unfold DRAWY_next
  have hy := i.DRAWY.isLt
  simp only [BitVec.toNat_setWidth, BitVec.toNat_sub, BitVec.toNat_ofNat]
  omega

/-- The pixel within the character box. -/
def dx : ℕ := i.DRAWX_next.toNat - 111
def dy : ℕ := i.DRAWY_next.toNat - 69

variable {i}

/-- The box is 17 pixels wide and 22 high. -/
theorem InBox.bounds (h : i.InBox) :
    i.DRAWX_next.toNat = i.dx + 111 ∧ i.DRAWY_next.toNat = i.dy + 69 ∧ i.dx ≤ 16 ∧ i.dy ≤ 21 := by
  obtain ⟨hx, hx', hy, hy'⟩ := h
  unfold dx dy
  bv_omega

theorem standing_toNat (h : i.InBox) (d : BitVec 2) :
    ((i.standing d).setWidth 19).toNat =
      if d = 3#2 then (i.dy + 42) * 271 + 31 - i.dx
      else (i.dy + 21 * d.toNat) * 271 + i.dx + 16 := by
  obtain ⟨hx, hy, hdx, hdy⟩ := h.bounds
  have hd := d.isLt
  unfold standing
  split_ifs <;>
    simp only [BitVec.toNat_setWidth, BitVec.toNat_add, BitVec.toNat_sub, BitVec.toNat_mul,
      BitVec.toNat_ofNat, hx, hy] <;> omega

theorem walking_toNat (h : i.InBox) (d : BitVec 2) :
    ((i.walking d).setWidth 19).toNat =
      if d = 3#2 then
        (i.dy + 42) * 271 + 16 * i.charMoveFrame.toNat + 48 * i.charIsRunning.toNat + 15 - i.dx
      else
        (i.dy + 21 * d.toNat) * 271 + i.dx + 16 * i.charMoveFrame.toNat +
          48 * i.charIsRunning.toNat := by
  obtain ⟨hx, hy, hdx, hdy⟩ := h.bounds
  have hd := d.isLt
  have hf := i.charMoveFrame.isLt
  have hr := Bool.toNat_le i.charIsRunning
  unfold walking
  split_ifs <;>
    simp only [BitVec.toNat_setWidth, BitVec.toNat_add, BitVec.toNat_sub, BitVec.toNat_mul,
      BitVec.toNat_ofNat, BitVec.toNat_ofBool, hx, hy] <;> omega

end PixelIn

end FrameDrawer
