-- SUMMARY: The module `gymTileLogic`: the 26 tile coordinates, the tile FSM, its spin counter, and the teleport table.
import Mathlib.Data.Nat.Basic
import Mathlib.Tactic.SplitIfs

/-!
# gymTileLogic

The registers of `gymTileLogic.sv`, clocked by `posedge VGA_VS`, and its
combinational logic. Sized literals are read as SystemVerilog reads them:
`5'd39` is `39#5`, that is `7`, before it is extended to the six bits of
`spinCounter`.
-/

namespace GymTileLogic

inductive State where
  | notTile
  | prespin
  | teleport
  | postspin
  | latch
  | hold
  deriving DecidableEq, Repr

structure Regs where
  state : State
  spinCounter : BitVec 6
  xleft : BitVec 10
  ytop : BitVec 10
  deriving DecidableEq, Repr

/-! ## Tile coordinates

A tile is named by the right edge and the bottom edge of the character standing
on it, concatenated. -/

def X : Fin 6 → BitVec 10
  | 0 => 15#10
  | 1 => 143#10
  | 2 => 207#10
  | 3 => 271#10
  | 4 => 335#10
  | 5 => 463#10

def Y : Fin 6 → BitVec 10
  | 0 => 79#10
  | 1 => 127#10
  | 2 => 207#10
  | 3 => 255#10
  | 4 => 335#10
  | 5 => 383#10

def X35 : BitVec 10 := 303#10

def A1 : BitVec 20 := X35 ++ Y 4
def A2 : BitVec 20 := X 5 ++ Y 5
def B1 : BitVec 20 := X 5 ++ Y 2
def B2 : BitVec 20 := X 5 ++ Y 4
def C1 : BitVec 20 := X 5 ++ Y 0
def C2 : BitVec 20 := X 4 ++ Y 4
def D1 : BitVec 20 := X 1 ++ Y 4
def D2 : BitVec 20 := X 4 ++ Y 5
def E1 : BitVec 20 := X 0 ++ Y 2
def E2 : BitVec 20 := X 5 ++ Y 3
def F1 : BitVec 20 := X 4 ++ Y 0
def F2 : BitVec 20 := X 4 ++ Y 2
def G1 : BitVec 20 := X 2 ++ Y 0
def G2 : BitVec 20 := X 4 ++ Y 3
def H1 : BitVec 20 := X 5 ++ Y 1
def H2 : BitVec 20 := X 0 ++ Y 4
def I1 : BitVec 20 := X 0 ++ Y 0
def I2 : BitVec 20 := X 4 ++ Y 1
def J1 : BitVec 20 := X 1 ++ Y 0
def J2 : BitVec 20 := X 3 ++ Y 0
def K1 : BitVec 20 := X 3 ++ Y 1
def K2 : BitVec 20 := X 0 ++ Y 5
def L1 : BitVec 20 := X 2 ++ Y 1
def L2 : BitVec 20 := X 1 ++ Y 2
def M1 : BitVec 20 := X 0 ++ Y 1
def M2 : BitVec 20 := X35 ++ Y 3

/-- The operands of the `isOnTile` disjunction, in its order. -/
def tiles : List (BitVec 20) :=
  [ A1, A2, B1, B2, C1, C2,
    D1, D2, E1, E2, F1, F2,
    G1, G2, H1, H2, I1, I2,
    J1, J2, K1, K2, L1, L2,
    M1, M2 ]

def isOnTile (currxy : BitVec 20) : Bool := tiles.contains currxy

/-- The arms of `unique case (currxy)` in the state `teleport`: the tile tested
and the tile whose halves go to `xleft_next` and `ytop_next`. -/
def teleportArms : List (BitVec 20 × BitVec 20) :=
  [ (A1, A2), (A2, A1), (B1, B2), (B2, B1), (C1, C2), (C2, C1),
    (D1, D2), (D2, D1), (E1, E2), (E2, E1), (F1, F2), (F2, F1),
    (G1, G2), (G2, G1), (H1, H2), (H2, H1), (I1, I2), (I2, I1),
    (J1, J2), (J2, J1), (K1, K2), (K2, K1), (L1, L2), (L2, L1),
    (M1, M2), (M2, M1) ]

/-- The value of the `unique case`: the first arm that matches, and zero in both
coordinates in the default arm. -/
def teleportTo (currxy : BitVec 20) : BitVec 20 :=
  match teleportArms.lookup currxy with
  | some dest => dest
  | none => 0#20

/-! ## Next state -/

/-- `VGA_VS` is the level read at the clock edge: the exit from `latch` tests it. -/
def nextState (r : Regs) (currxy : BitVec 20) (vgaVS : Bool) : State :=
  match r.state with
  | .notTile => if isOnTile currxy then .prespin else r.state
  | .prespin => if r.spinCounter = (39#5).setWidth 6 then .teleport else r.state
  | .teleport => .postspin
  | .postspin => if r.spinCounter = (39#5).setWidth 6 then .latch else r.state
  | .latch => if vgaVS = false then .hold else r.state
  | .hold => if isOnTile currxy = false then .notTile else r.state

/-! ## Outputs and register inputs -/

/-- What the second `always_comb` block drives. -/
structure Comb where
  xleftNext : BitVec 10
  ytopNext : BitVec 10
  atTile : Bool
  nextSpinCounter : BitVec 6
  spinDirection : BitVec 2
  xleftNextOut : BitVec 10
  ytopNextOut : BitVec 10
  deriving DecidableEq, Repr

/-- The facing shown at a count, for the four thresholds of a spinning state. A
count past the last threshold leaves the default, which is down. -/
def spinFacing (t0 t1 t2 t3 : BitVec 5) (spinCounter : BitVec 6) : BitVec 2 :=
  if spinCounter < t0.setWidth 6 then 0#2
  else if spinCounter < t1.setWidth 6 then 1#2
  else if spinCounter < t2.setWidth 6 then 2#2
  else if spinCounter < t3.setWidth 6 then 3#2
  else 0#2

/-- The count of a spinning state goes back to zero at `last`. -/
def spinNext (last : BitVec 5) (spinCounter : BitVec 6) : BitVec 6 :=
  if spinCounter = last.setWidth 6 then 0#6 else spinCounter + 1#6

def comb (r : Regs) (xright ybottom : BitVec 10) : Comb :=
  let c : Comb :=
    { xleftNext := r.xleft
      ytopNext := r.ytop
      atTile := false
      nextSpinCounter := r.spinCounter
      spinDirection := 0#2
      xleftNextOut := r.xleft - 15#10
      ytopNextOut := r.ytop - 20#10 }
  match r.state with
  | .notTile => { c with xleftNext := xright, ytopNext := ybottom }
  | .prespin =>
    { c with
      atTile := true
      xleftNext := xright
      ytopNext := ybottom
      spinDirection := spinFacing 10#5 20#5 30#5 40#5 r.spinCounter
      nextSpinCounter := spinNext 39#5 r.spinCounter }
  | .teleport =>
    { c with
      atTile := true
      xleftNext := (teleportTo (xright ++ ybottom)).extractLsb' 10 10
      ytopNext := (teleportTo (xright ++ ybottom)).extractLsb' 0 10 }
  | .postspin =>
    { c with
      atTile := true
      spinDirection := spinFacing 4#5 8#5 12#5 20#5 r.spinCounter
      nextSpinCounter := spinNext 19#5 r.spinCounter }
  | .latch => { c with atTile := true }
  | .hold => { c with atTile := false }

/-! ## The clock edge -/

/-- The register values that `Reset` loads. -/
def Regs.onReset : Regs where
  state := .notTile
  spinCounter := 0#6
  xleft := 0#10
  ytop := 0#10

/-- The registers after a `posedge VGA_VS`, at which `VGA_VS` still reads
`vgaVS`. -/
def Regs.posedge (r : Regs) (vgaVS reset : Bool) (xright ybottom : BitVec 10) : Regs :=
  if reset then .onReset
  else
    { state := nextState r (xright ++ ybottom) vgaVS
      spinCounter := (comb r xright ybottom).nextSpinCounter
      xleft := (comb r xright ybottom).xleftNext
      ytop := (comb r xright ybottom).ytopNext }

/-! ## What a clock edge can do

One lemma per state, for an edge without `Reset` at which `VGA_VS` reads 0. The
exit tests of both spinning states, `spinCounter == 5'd39`, are tests for 7. -/

@[simp] theorem posedge_reset (r : Regs) (vgaVS : Bool) (xright ybottom : BitVec 10) :
    r.posedge vgaVS true xright ybottom = .onReset := rfl

section Posedge

variable {r : Regs} (xright ybottom : BitVec 10)

theorem posedge_notTile (h : r.state = .notTile) :
    r.posedge false false xright ybottom =
      ⟨if isOnTile (xright ++ ybottom) then .prespin else .notTile, r.spinCounter,
        xright, ybottom⟩ := by
  simp [Regs.posedge, nextState, comb, h]

theorem posedge_prespin (h : r.state = .prespin) :
    r.posedge false false xright ybottom =
      if r.spinCounter = 7#6 then ⟨.teleport, 0#6, xright, ybottom⟩
      else ⟨.prespin, r.spinCounter + 1#6, xright, ybottom⟩ := by
  simp only [Regs.posedge, nextState, comb, h, spinNext]
  split_ifs <;> first | rfl | contradiction

theorem posedge_teleport (h : r.state = .teleport) :
    r.posedge false false xright ybottom =
      ⟨.postspin, r.spinCounter, (teleportTo (xright ++ ybottom)).extractLsb' 10 10,
        (teleportTo (xright ++ ybottom)).extractLsb' 0 10⟩ := by
  simp [Regs.posedge, nextState, comb, h]

theorem posedge_postspin (h : r.state = .postspin) :
    r.posedge false false xright ybottom =
      ⟨if r.spinCounter = 7#6 then .latch else .postspin, spinNext 19#5 r.spinCounter,
        r.xleft, r.ytop⟩ := by
  simp only [Regs.posedge, nextState, comb, h]
  rfl

theorem posedge_latch (h : r.state = .latch) :
    r.posedge false false xright ybottom = ⟨.hold, r.spinCounter, r.xleft, r.ytop⟩ := by
  simp [Regs.posedge, nextState, comb, h]

theorem posedge_hold (h : r.state = .hold) :
    r.posedge false false xright ybottom =
      ⟨if isOnTile (xright ++ ybottom) then .hold else .notTile, r.spinCounter,
        r.xleft, r.ytop⟩ := by
  simp only [Regs.posedge, nextState, comb, h]
  cases isOnTile (xright ++ ybottom) <;> rfl

end Posedge

end GymTileLogic
