-- SUMMARY: The three clocked components wired as in `lab8.sv`, one frame as a negative and a positive edge of `VGA_VS`, and the runs from `Reset`.
import PokemonSVE.Basis.Run
import PokemonSVE.Rtl.GameFSM
import PokemonSVE.Rtl.GymTileLogic
import PokemonSVE.Rtl.GymBoundsChecker
import PokemonSVE.Rtl.FrameDrawer
import Mathlib.Tactic.Tauto

/-!
# The game

`gameFSM` and `frameDrawer` with its `tileinstance`, on the two edges of
`VGA_VS`. A frame is the negative edge, on which the position registers load,
then the positive edge, on which the two state machines load. `keycode` is a PIO
register that software writes at any time, so a frame has one keycode for each
edge, and every combination of the two is an input.
-/

namespace Game

open FrameDrawer (Pos)

/-- The registers of the three components. -/
structure System where
  fsm : GameFSM.Regs
  tile : GymTileLogic.Regs
  drawer : FrameDrawer.Regs
  deriving DecidableEq, Repr

/-- The inputs of one frame. -/
structure FrameIn where
  /-- `keycode` at the negative edge. -/
  keycodeNeg : BitVec 8
  /-- The run button at the negative edge. -/
  charIsRunning : Bool
  /-- The net `atBounds` at the negative edge. -/
  atBounds : Bool
  /-- `keycode` at the positive edge. -/
  keycodePos : BitVec 8
  /-- `Reset` at the positive edge. -/
  reset : Bool
  deriving DecidableEq, Repr

/-- A key held over both edges of a frame. -/
def FrameIn.press (keycode : BitVec 8) : FrameIn := ⟨keycode, false, false, keycode, false⟩

/-- A key held over both edges of a frame together with the run button. -/
def FrameIn.pressRun (keycode : BitVec 8) : FrameIn := ⟨keycode, true, false, keycode, false⟩

/-- A frame on which nothing is pressed. -/
def FrameIn.noKey : FrameIn := .press 0#8

namespace System

/-! ## Nets -/

def xright (s : System) : BitVec 10 := s.drawer.charxcurrpos + 15#10
def ybottom (s : System) : BitVec 10 := s.drawer.charycurrpos + 20#10

/-- `{xright, ybottom}`, the coordinate the tile logic compares. -/
def currxy (s : System) : BitVec 20 := s.xright ++ s.ybottom

def tileComb (s : System) : GymTileLogic.Comb := GymTileLogic.comb s.tile s.xright s.ybottom

def atTile (s : System) : Bool := s.tileComb.atTile

def pos (s : System) : Pos := s.drawer.pos

/-- The nets `frameDrawer` reads at a negative edge. -/
def wires (s : System) (i : FrameIn) : FrameDrawer.Wires where
  stateNum := (GameFSM.comb s.fsm i.keycodeNeg).stateNum
  charIsMoving := (GameFSM.comb s.fsm i.keycodeNeg).charIsMoving
  charIsRunning := i.charIsRunning
  direction := s.fsm.direction
  atBounds := i.atBounds
  atTile := s.atTile
  xleftNext := s.tileComb.xleftNextOut
  ytopNext := s.tileComb.ytopNextOut

/-! ## Edges -/

def negedge (s : System) (i : FrameIn) : System :=
  { s with drawer := s.drawer.next (s.wires i) }

/-- `VGA_VS` still reads 0 at its positive edge. -/
def posedge (s : System) (i : FrameIn) : System where
  fsm := s.fsm.posedge i.reset i.keycodePos
  tile := s.tile.posedge false i.reset s.xright s.ybottom
  drawer := s.drawer

def frame (s : System) (i : FrameIn) : System := (s.negedge i).posedge i

/-- The state after a positive edge with `Reset`: the position registers, which
have no reset, are left as they were. -/
def onReset (drawer : FrameDrawer.Regs) : System := ⟨.onReset, .onReset, drawer⟩

end System

/-! ## Runs -/

/-- The position registers as the device powers them up. -/
def powerUp : FrameDrawer.Regs := ⟨0#10, 0#10, false⟩

/-- The state after `n` frames from a `Reset`. -/
def run (drawer : FrameDrawer.Regs) (ins : ℕ → FrameIn) (n : ℕ) : System :=
  Driven.run System.frame (.onReset drawer) ins n

/-- An input with `atBounds` driven by a net. -/
def wire (net : System → Bool) (s : System) (i : FrameIn) : FrameIn :=
  { i with atBounds := net s }

/-- The run in which `net` drives `atBounds`. -/
def runWired (net : System → Bool) (drawer : FrameDrawer.Regs) (ins : ℕ → FrameIn) (n : ℕ) :
    System :=
  Driven.run (Driven.feedback System.frame (wire net)) (.onReset drawer) ins n

/-- The inputs of that run, with the net that drives `atBounds` read off. -/
def wiredIn (net : System → Bool) (drawer : FrameDrawer.Regs) (ins : ℕ → FrameIn) (n : ℕ) :
    FrameIn :=
  wire net (runWired net drawer ins n) (ins n)

/-- `atBounds` as the committed code leaves it: an undriven net, which reads 0. -/
def undriven : System → Bool := fun _ => false

/-- `atBounds` as the instance `gyminstance`, commented out in `framebuffer.sv`,
drives it. -/
def gyminstance (s : System) : Bool :=
  GymBoundsChecker.atBounds s.fsm.direction s.drawer.charxcurrpos s.drawer.charycurrpos

section Runs

variable (net : System → Bool) (drawer : FrameDrawer.Regs) (ins : ℕ → FrameIn)

@[simp] theorem run_zero : run drawer ins 0 = .onReset drawer := rfl

theorem run_succ (n : ℕ) : run drawer ins (n + 1) = (run drawer ins n).frame (ins n) := rfl

theorem runWired_succ (n : ℕ) :
    runWired net drawer ins (n + 1) =
      (runWired net drawer ins n).frame (wiredIn net drawer ins n) := rfl

/-- A wired run is a run, so what holds of every run holds of it. -/
theorem runWired_eq_run (n : ℕ) :
    runWired net drawer ins n = run drawer (wiredIn net drawer ins) n :=
  Driven.run_feedback (wire net) n

/-- A property of the states reached by runs is a property of those reached by
wired runs. -/
theorem runWired_of_run {P : System → Prop} (h : ∀ drawer ins n, P (run drawer ins n)) (n : ℕ) :
    P (runWired net drawer ins n) := by
  rw [runWired_eq_run]
  exact h _ _ n

end Runs

/-- From a `Reset` on: press `Enter`, and wait for the fade to end. -/
def openGame : List (ℕ × FrameIn) := [(1, .press GameFSM.keyEnter), (51, .noKey)]

/-- The run that plays a script from power-up, then holds one input. -/
theorem run_script (rest : FrameIn) (entries : List (ℕ × FrameIn)) (m : ℕ) :
    run powerUp (Driven.script rest entries) (Driven.length entries + m) =
      Driven.held System.frame rest m (Driven.play System.frame entries (.onReset powerUp)) :=
  Driven.run_script rest entries m

theorem runWired_script (net : System → Bool) (rest : FrameIn) (entries : List (ℕ × FrameIn))
    (m : ℕ) :
    runWired net powerUp (Driven.script rest entries) (Driven.length entries + m) =
      Driven.held (Driven.feedback System.frame (wire net)) rest m
        (Driven.play (Driven.feedback System.frame (wire net)) entries (.onReset powerUp)) :=
  Driven.run_script rest entries m

/-- The state at the end of a script. -/
theorem runWired_script_end (net : System → Bool) (rest : FrameIn)
    (entries : List (ℕ × FrameIn)) :
    runWired net powerUp (Driven.script rest entries) (Driven.length entries) =
      Driven.play (Driven.feedback System.frame (wire net)) entries (.onReset powerUp) :=
  runWired_script net rest entries 0

namespace System

/-! ## What an edge can do -/

variable (s : System) (i : FrameIn)

@[simp] theorem negedge_fsm : (s.negedge i).fsm = s.fsm := rfl
@[simp] theorem negedge_tile : (s.negedge i).tile = s.tile := rfl
@[simp] theorem posedge_drawer : (s.posedge i).drawer = s.drawer := rfl
@[simp] theorem posedge_pos : (s.posedge i).pos = s.pos := rfl
@[simp] theorem frame_drawer : (s.frame i).drawer = (s.negedge i).drawer := rfl
@[simp] theorem frame_pos : (s.frame i).pos = (s.negedge i).pos := rfl
@[simp] theorem onReset_fsm (drawer : FrameDrawer.Regs) : (onReset drawer).fsm = .onReset := rfl
@[simp] theorem onReset_tile (drawer : FrameDrawer.Regs) : (onReset drawer).tile = .onReset := rfl

theorem frame_fsm : (s.frame i).fsm = s.fsm.posedge i.reset i.keycodePos := rfl

theorem frame_tile :
    (s.frame i).tile =
      s.tile.posedge false i.reset (s.negedge i).xright (s.negedge i).ybottom := rfl

@[simp] theorem wires_stateNum : (s.wires i).stateNum = s.fsm.state.num := by
  simp [wires]

theorem atTile_eq :
    s.atTile = true ↔
      s.tile.state = .prespin ∨ s.tile.state = .teleport ∨
        s.tile.state = .postspin ∨ s.tile.state = .latch := by
  cases h : s.tile.state <;> simp [atTile, tileComb, GymTileLogic.comb, h]

theorem atTile_of_hold (h : s.tile.state = .hold) : s.atTile = false := by
  rw [Bool.eq_false_iff, ne_eq, atTile_eq]
  simp [h]

/-- Without `Reset` and `Escape` the main game goes on. -/
theorem frame_drawMainGame (h : s.fsm.state = .drawMainGame) (hr : i.reset = false)
    (hk : i.keycodePos ≠ GameFSM.keyEscape) : (s.frame i).fsm.state = .drawMainGame := by
  rw [frame_fsm, hr, GameFSM.posedge_state]
  simp [GameFSM.nextState, h, hk]

/-- The character takes a pixel by walking at this negative edge. -/
def Walks : Prop :=
  s.fsm.state = .drawMainGame ∧ s.atTile = false ∧ s.drawer.Walks (s.wires i)

instance : Decidable (s.Walks i) := inferInstanceAs (Decidable (_ ∧ _))

/-- The position the tile logic feeds back. -/
def latched : Pos := (s.tile.xleft - 15#10, s.tile.ytop - 20#10)

theorem negedge_pos_start (h : s.fsm.state.num = 0#4) :
    (s.negedge i).pos = FrameDrawer.startPos ∧ (s.negedge i).drawer.everyotherframe = false :=
  FrameDrawer.next_start s.drawer (by simpa using h)

/-- Screens other than the start screen and the main game keep the position. -/
theorem negedge_other (h0 : s.fsm.state.num ≠ 0#4) (h3 : s.fsm.state ≠ .drawMainGame) :
    s.negedge i = s := by
  have hnext := FrameDrawer.next_other s.drawer (w := s.wires i) (by simpa using h0) (by
    cases h : s.fsm.state <;> simp_all [GameFSM.State.num])
  simp [negedge, hnext]

theorem negedge_pos_atTile (h : s.fsm.state = .drawMainGame) (ht : s.atTile = true) :
    (s.negedge i).pos = s.latched := by
  have hnext := FrameDrawer.next_atTile s.drawer (w := s.wires i)
    (by simp [h, GameFSM.State.num]) ht
  have hout : s.tileComb.xleftNextOut = s.tile.xleft - 15#10 ∧
      s.tileComb.ytopNextOut = s.tile.ytop - 20#10 := by
    cases hs : s.tile.state <;> simp [tileComb, GymTileLogic.comb, hs]
  simpa [negedge, pos, latched, wires, hout] using hnext

theorem negedge_pos_walk (h : s.fsm.state = .drawMainGame) (ht : s.atTile = false) :
    (s.negedge i).pos =
      if s.Walks i then FrameDrawer.neighbour s.fsm.direction s.pos else s.pos := by
  have hnext := FrameDrawer.next_walk s.drawer (w := s.wires i)
    (by simp [h, GameFSM.State.num]) ht
  simpa [negedge, pos, Walks, h, ht, wires] using hnext

/-- At a negative edge of the main game the facing key counts as much as a step
in progress. -/
theorem walks_iff :
    s.Walks i ↔
      s.fsm.state = .drawMainGame ∧ s.atTile = false ∧
        (¬ s.fsm.Idle ∨ i.keycodeNeg = GameFSM.facingKey s.fsm.direction) ∧
        i.atBounds = false ∧ (s.drawer.everyotherframe = true ∨ i.charIsRunning = true) := by
  simp only [Walks, FrameDrawer.Regs.Walks, wires, GameFSM.comb_charIsMoving]
  tauto

end System

end Game
