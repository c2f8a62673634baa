-- SUMMARY: The module `frameDrawer`: the position registers and their next values, and the write port of the frame buffer.
import Mathlib.Data.Nat.Basic
import Mathlib.Tactic.SplitIfs

/-!
# frameDrawer

The position logic of `framebuffer.sv`, clocked by `negedge VGA_VS`, and the
registered write enable and data of the frame buffer, clocked by `posedge Clk`.
-/

namespace FrameDrawer

/-! ## Position -/

/-- The top left corner of the character box. -/
abbrev Pos := BitVec 10 × BitVec 10

/-- The registers clocked by `negedge VGA_VS`. They have no reset. -/
structure Regs where
  charxcurrpos : BitVec 10
  charycurrpos : BitVec 10
  everyotherframe : Bool
  deriving DecidableEq, Repr

def charxgymstartpos : BitVec 10 := 288#10
def charygymstartpos : BitVec 10 := 315#10

/-- The nets the position logic reads: ports, and the outputs of `tileinstance`
and of the bounds checker. -/
structure Wires where
  stateNum : BitVec 4
  charIsMoving : Bool
  charIsRunning : Bool
  direction : BitVec 2
  atBounds : Bool
  atTile : Bool
  xleftNext : BitVec 10
  ytopNext : BitVec 10
  deriving DecidableEq, Repr

/-- One coordinate in one arm of `unique case (direction)`: a pixel on every
other frame, and on the frames between if the character runs. -/
def stride (everyotherframe charIsRunning : Bool) (curr next : BitVec 10) : BitVec 10 :=
  if everyotherframe then next else if charIsRunning then next else curr

/-- `charxnextpos`, `charynextpos` and `everyotherframe_next`. -/
def Regs.next (r : Regs) (w : Wires) : Regs :=
  if w.stateNum = 0#4 then
    { charxcurrpos := charxgymstartpos
      charycurrpos := charygymstartpos
      everyotherframe := false }
  else if w.stateNum = 3#4 then
    let x := r.charxcurrpos
    let y := r.charycurrpos
    let e := r.everyotherframe
    let run := w.charIsRunning
    let walked : Regs :=
      if w.charIsMoving && !w.atBounds then
        if w.direction = 0#2 then { r with charycurrpos := stride e run y (y + 1#10) }
        else if w.direction = 1#2 then { r with charycurrpos := stride e run y (y - 1#10) }
        else if w.direction = 2#2 then { r with charxcurrpos := stride e run x (x - 1#10) }
        else { r with charxcurrpos := stride e run x (x + 1#10) }
      else r
    let walked := { walked with everyotherframe := !e }
    -- The tile logic has the last word on the position.
    if w.atTile then { walked with charxcurrpos := w.xleftNext, charycurrpos := w.ytopNext }
    else walked
  else r

def Regs.pos (r : Regs) : Pos := (r.charxcurrpos, r.charycurrpos)

def startPos : Pos := (charxgymstartpos, charygymstartpos)

/-- The neighbouring pixel in a direction. -/
def neighbour (direction : BitVec 2) (p : Pos) : Pos :=
  if direction = 0#2 then (p.1, p.2 + 1#10)
  else if direction = 1#2 then (p.1, p.2 - 1#10)
  else if direction = 2#2 then (p.1 - 1#10, p.2)
  else (p.1 + 1#10, p.2)

@[simp] theorem neighbour_down (p : Pos) : neighbour 0#2 p = (p.1, p.2 + 1#10) := rfl
@[simp] theorem neighbour_up (p : Pos) : neighbour 1#2 p = (p.1, p.2 - 1#10) := rfl
@[simp] theorem neighbour_left (p : Pos) : neighbour 2#2 p = (p.1 - 1#10, p.2) := rfl
@[simp] theorem neighbour_right (p : Pos) : neighbour 3#2 p = (p.1 + 1#10, p.2) := rfl

/-- Coordinates wrap at 1024. -/
theorem toNat_add_one (v : BitVec 10) :
    (v + 1#10).toNat = if v.toNat = 1023 then 0 else v.toNat + 1 := by
  split_ifs <;> bv_omega

theorem toNat_sub_one (v : BitVec 10) :
    (v - 1#10).toNat = if v.toNat = 0 then 1023 else v.toNat - 1 := by
  split_ifs <;> bv_omega

/-- The frame on which the character takes a pixel, tile logic apart. -/
def Regs.Walks (r : Regs) (w : Wires) : Prop :=
  w.charIsMoving = true ∧ w.atBounds = false ∧
    (r.everyotherframe = true ∨ w.charIsRunning = true)

instance (r : Regs) (w : Wires) : Decidable (r.Walks w) := inferInstanceAs (Decidable (_ ∧ _))

/-- `state_num` 0 puts the character back to the start position. -/
theorem next_start (r : Regs) {w : Wires} (h : w.stateNum = 0#4) :
    (r.next w).pos = startPos ∧ (r.next w).everyotherframe = false := by
  simp [Regs.next, Regs.pos, startPos, h]

/-- The screens between the start screen and the main game keep the position. -/
theorem next_other (r : Regs) {w : Wires} (h0 : w.stateNum ≠ 0#4) (h3 : w.stateNum ≠ 3#4) :
    r.next w = r := by
  simp [Regs.next, h0, h3]

theorem next_everyotherframe (r : Regs) {w : Wires} (h : w.stateNum = 3#4) :
    (r.next w).everyotherframe = !r.everyotherframe := by
  simp only [Regs.next, h]
  split_ifs <;> first | rfl | contradiction

/-- In the main game the tile logic overrides the walk. -/
theorem next_atTile (r : Regs) {w : Wires} (h : w.stateNum = 3#4) (ht : w.atTile = true) :
    (r.next w).pos = (w.xleftNext, w.ytopNext) := by
  simp [Regs.next, Regs.pos, h, ht]

/-- In the main game and off the tiles the character takes the pixel in front of
it, or stays. -/
theorem next_walk (r : Regs) {w : Wires} (h : w.stateNum = 3#4) (ht : w.atTile = false) :
    (r.next w).pos = if r.Walks w then neighbour w.direction r.pos else r.pos := by
  rcases w with ⟨num, moving, running, d, bounds, tile, xl, yt⟩
  obtain rfl : num = 3#4 := h
  obtain rfl : tile = false := ht
  rcases r with ⟨x, y, e⟩
  cases moving <;> cases bounds <;> cases e <;> cases running <;>
    simp [Regs.next, Regs.pos, Regs.Walks, neighbour, stride] <;> split_ifs <;> rfl

/-! ## The write port of the frame buffer

`next_pixel` is combinational logic over the sprite memories. Nothing here looks
at a pixel, so it is an input of the cycle. -/

/-- The registers clocked by `posedge Clk`. They have no reset. -/
structure Port (Pixel : Type*) where
  FBwe : Bool
  FBdata_In : Pixel

/-- The nets that the port reads in a cycle of `Clk`. -/
structure PortIn (Pixel : Type*) where
  DRAWX : BitVec 10
  DRAWY : BitVec 10
  stateNum : BitVec 4
  nextPixel : Pixel

variable {Pixel : Type*}

/-- The registers after a `posedge Clk`. -/
def Port.posedge (r : Port Pixel) (i : PortIn Pixel) : Port Pixel :=
  if i.DRAWX > 79#10 ∧ i.DRAWX < 560#10 ∧ i.DRAWY > 79#10 ∧ i.DRAWY < 400#10 then
    { r with FBwe := false }
  else if i.DRAWX ≥ 560#10 ∧ i.DRAWX ≤ 799#10 ∧ i.DRAWY > 79#10 ∧ i.DRAWY ≤ 239#10 ∧
      i.stateNum ≠ 0#4 then
    { FBwe := true
      FBdata_In := i.nextPixel }
  else { r with FBwe := false }

/-- `FBwrite_address`, which is not registered: the unsized literals make it 32 bits
wide, and the assignment cuts it to 19. -/
def FBwrite_address (DRAWX DRAWY : BitVec 10) : BitVec 19 :=
  ((DRAWY.setWidth 32 - 80#32) * 240#32 + (DRAWX.setWidth 32 - 560#32)).setWidth 19

/-- The pixels that are drawn: columns 560 to 799 of rows 80 to 239. -/
def InWindow (c : ℕ × ℕ) : Prop := 560 ≤ c.1 ∧ c.1 < 800 ∧ 80 ≤ c.2 ∧ c.2 < 240

instance (c : ℕ × ℕ) : Decidable (InWindow c) := inferInstanceAs (Decidable (_ ∧ _))

/-- An edge in the window takes the pixel and enables the write, any other edge
disables it. -/
theorem port_posedge (r : Port Pixel) (i : PortIn Pixel) :
    ((r.posedge i).FBwe = true ↔
      InWindow (i.DRAWX.toNat, i.DRAWY.toNat) ∧ i.stateNum ≠ 0#4) ∧
      ((r.posedge i).FBwe = true → (r.posedge i).FBdata_In = i.nextPixel) := by
  unfold Port.posedge InWindow
  split_ifs with h1 h2
  · simp only [false_iff, false_imp_iff, and_true]
    bv_omega
  · obtain ⟨hx, hx', hy, hy', hstate⟩ := h2
    simp only [true_iff, imp_self, and_true, ne_eq, hstate, not_false_eq_true]
    bv_omega
  · simp only [false_iff, false_imp_iff, and_true]
    rintro ⟨hw, hstate⟩
    refine h2 ⟨?_, ?_, ?_, ?_, hstate⟩ <;> bv_omega

/-- The address as a number: 80 rows of 240 and 560 columns are taken off modulo
2 ^ 19. -/
theorem FBwrite_address_toNat (DRAWX DRAWY : BitVec 10) :
    (FBwrite_address DRAWX DRAWY).toNat =
      (240 * DRAWY.toNat + DRAWX.toNat + 504528) % 524288 := by
  unfold FBwrite_address
  have hx := DRAWX.isLt
  have hy := DRAWY.isLt
  simp only [BitVec.toNat_setWidth, BitVec.toNat_add, BitVec.toNat_mul, BitVec.toNat_sub,
    BitVec.toNat_ofNat]
  omega

end FrameDrawer
