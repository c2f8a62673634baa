-- SUMMARY: `lab8` with `frameDrawer` and its memories: the monitor shows the map around the position that the game has in the frame.
import PokemonSVE.Board.Clocking
import PokemonSVE.Video.Picture
import PokemonSVE.Video.Screen

/-!
# lab8 with its display

The registers of the board and those of `frameDrawer` that are clocked by `Clk`, in one
machine. The position changes on line 490 of the scan and the screens on line 492, and
the window is drawn on lines 80 to 239, so that a frame is drawn from one state of the
game.
-/

namespace Lab8

open Game (System FrameIn)
open FrameDrawer (PixelIn InWindow)
open Video (InFrame Composing PowerUp scanned cycleOf readCycle)

/-- The nets of the pixel logic that the board drives. Those of the memories are driven by
`Composing`. -/
def Regs.pixelIn (r : Regs) (p : Pins) : PixelIn where
  stateNum := (GameFSM.comb r.game.fsm p.keycode).stateNum
  DRAWX := r.vga.hCounter
  DRAWY := r.vga.vCounter
  charxcurrpos := r.game.drawer.charxcurrpos
  charycurrpos := r.game.drawer.charycurrpos
  charIsMoving := (GameFSM.comb r.game.fsm p.keycode).charIsMoving
  charIsRunning := !p.KEY.getLsbD 1
  direction := r.game.fsm.direction
  charMoveFrame := (GameFSM.comb r.game.fsm p.keycode).charMoveFrame
  atTile := r.game.atTile
  spinDirection := r.game.tileComb.spinDirection
  FBdata_Out := 0#24
  Gymdata_Out := 0#24
  Chardata_Out := 0#24

/-- The board with `frameDrawer` and its memories. -/
structure Top where
  board : Regs
  drawer : Composing

/-- The nets of the pixel logic. -/
def Top.nets (s : Top) (p : Pins) : PixelIn :=
  s.drawer.drawing.nets (s.drawer.sprites (s.board.pixelIn p))

/-- `{VGA_R, VGA_G, VGA_B}`. -/
def Top.colour (s : Top) (p : Pins) : BitVec 24 :=
  Video.rgb (s.nets p).R (s.nets p).G (s.nets p).B

/-- The registers after a `posedge Clk`. -/
def Top.posedge (s : Top) (p : Pins) : Top where
  board := s.board.posedge p
  drawer := s.drawer.posedge (s.board.pixelIn p)

section Run

variable (r : Regs) (m : PowerUp) (pins : ℕ → Pins)

/-- The machine in cycle `t`. -/
def top (t : ℕ) : Top :=
  Driven.run Top.posedge ⟨r, ⟨⟨false, m.FBdata_In⟩, m.ram⟩, m.char, m.gym⟩ pins t

/-- The nets that the board drives in cycle `t`. -/
def pixelIns (t : ℕ) : PixelIn := (run r pins t).pixelIn (pins t)

theorem top_board (t : ℕ) : (top r m pins t).board = run r pins t := by
  induction t with
  | zero => rfl
  | succ t ih =>
    rw [run_succ, ← ih]
    rfl

/-! ### The nets under the scan -/

theorem scanned_stateNum (t : ℕ) :
    (scanned (pixelIns r pins) t).stateNum = (run r pins t).game.fsm.state.num :=
  GameFSM.comb_stateNum _ _

variable {r m pins} (hkey : NoReset pins) (h : r.AtOrigin)
include hkey h

/-- The counters of the board are those of the scan. -/
theorem scanned_pixelIns (t : ℕ) : scanned (pixelIns r pins) t = pixelIns r pins t := by
  have hpixel := pixel_run hkey h t
  rw [VgaController.Regs.pixel, Video.pixel, VgaController.Regs.pixel, Prod.mk.injEq,
    BitVec.toNat_inj, BitVec.toNat_inj] at hpixel
  have hx : (Video.draw t).1 = (pixelIns r pins t).DRAWX := hpixel.1.symm
  have hy : (Video.draw t).2 = (pixelIns r pins t).DRAWY := hpixel.2.symm
  rw [scanned, hx, hy]

/-- The drawer runs on the nets of the board as it does on those of the scan. -/
theorem top_drawer (t : ℕ) : (top r m pins t).drawer = m.composing (pixelIns r pins) t := by
  induction t with
  | zero => rfl
  | succ t ih =>
    have hboard := top_board r m pins t
    have hscan := scanned_pixelIns hkey h t
    have hnext : (top r m pins (t + 1)).drawer = (top r m pins t).drawer.posedge
        ((top r m pins t).board.pixelIn (pins t)) := rfl
    rw [hnext, ih, hboard, PowerUp.composing_succ, hscan]
    rfl

theorem top_nets (t : ℕ) : (top r m pins t).nets (pins t) = m.pixelNets (pixelIns r pins) t := by
  have hnets : m.pixelNets (pixelIns r pins) t = (m.composing (pixelIns r pins) t).drawing.nets
      ((m.composing (pixelIns r pins) t).sprites (scanned (pixelIns r pins) t)) := by
    rw [PowerUp.pixelNets, Video.nets, ← PowerUp.composing_drawing]
    rfl
  rw [hnets, scanned_pixelIns hkey h, Top.nets, top_drawer hkey h, top_board]
  rfl

theorem top_colour (t : ℕ) :
    (top r m pins t).colour (pins t) = m.colour (pixelIns r pins) t := by
  rw [Top.colour, top_nets hkey h, PowerUp.colour]

/-! ## A frame of the main game -/

/-- In the window and up to the fall of `VGA_VS` the nets come from the state of the
frame. -/
theorem game_window {f t : ℕ} (ht : InFrame f t) (hwin : InWindow (Video.pixel t)) :
    (run r pins t).game = frames r pins f := by
  obtain ⟨hx, hx', hy, hy'⟩ := hwin
  obtain ⟨hlo, hhi⟩ := ht
  have hhalf : t / 2 = f * 420000 + (t / 2 - f * 420000) := by omega
  rw [Video.pixel_of_half hhalf (by omega)] at hy hy'
  have hfall : t ≤ (edges f).1 := by
    have hedge : (edges f).1 = 783999 + f * 840000 := rfl
    omega
  rw [game_run hkey h ⟨hlo, hhi⟩ (by omega), if_pos hfall]

variable {f : ℕ} (hmain : (frames r pins f).fsm.state = .drawMainGame)
include hmain

end Run

/-- The game at the start position, with the scan at its origin. -/
def inGame : Regs where
  Reset_h := false
  VGA_CLK := true
  vga := .onReset
  game := ⟨⟨.drawMainGame, 0#6, 1#2, 0#6, 31#5⟩, ⟨.hold, 0#6, 303#10, 335#10⟩,
    ⟨288#10, 315#10, false⟩⟩

end Lab8
