-- SUMMARY: The module `VGA_controller`: the two pixel counters and the sync and blanking registers, and the scan that the counters make.
import PokemonSVE.Basis.Raster

/-!
# VGA_controller

The registers of `VGA_controller.sv`, clocked by `posedge VGA_CLK`. `DrawX` and
`DrawY` are the two counters.
-/

namespace VgaController

def hTotal : BitVec 10 := 800#10
def vTotal : BitVec 10 := 525#10

structure Regs where
  VGA_HS : Bool
  VGA_VS : Bool
  VGA_BLANK_N : Bool
  hCounter : BitVec 10
  vCounter : BitVec 10
  deriving DecidableEq, Repr

/-- `h_counter_in`. -/
def Regs.hCounterIn (r : Regs) : BitVec 10 :=
  if r.hCounter + 1#10 = hTotal then 0#10 else r.hCounter + 1#10

/-- `v_counter_in`. -/
def Regs.vCounterIn (r : Regs) : BitVec 10 :=
  if r.hCounter + 1#10 = hTotal then
    if r.vCounter + 1#10 = vTotal then 0#10 else r.vCounter + 1#10
  else r.vCounter

/-- The register values that `Reset` loads. -/
def Regs.onReset : Regs where
  VGA_HS := false
  VGA_VS := false
  VGA_BLANK_N := false
  hCounter := 0#10
  vCounter := 0#10

/-- The registers after a `posedge VGA_CLK`. The sync pulses are active low. -/
def Regs.posedge (r : Regs) (reset : Bool) : Regs :=
  if reset then .onReset
  else
    { VGA_HS := !(decide (656#10 ≤ r.hCounterIn) && decide (r.hCounterIn < 752#10))
      VGA_VS := !(decide (490#10 ≤ r.vCounterIn) && decide (r.vCounterIn < 492#10))
      VGA_BLANK_N := decide (r.hCounterIn < 640#10) && decide (r.vCounterIn < 480#10)
      hCounter := r.hCounterIn
      vCounter := r.vCounterIn }

/-- `(DrawX, DrawY)`. -/
def Regs.draw (r : Regs) : BitVec 10 × BitVec 10 := (r.hCounter, r.vCounter)

/-- The counters as numbers. -/
def Regs.pixel (r : Regs) : ℕ × ℕ := (r.hCounter.toNat, r.vCounter.toNat)

/-- Inside the frame an edge without `Reset` ticks the counters. -/
theorem posedge_pixel {r : Regs} (hx : r.pixel.1 < 800) (hy : r.pixel.2 < 525) :
    (r.posedge false).pixel = Raster.tick 800 525 r.pixel := by
  have hh : r.hCounter + 1#10 = hTotal ↔ r.pixel.1 + 1 = 800 := by
    unfold hTotal Regs.pixel at *
    bv_omega
  have hv : r.vCounter + 1#10 = vTotal ↔ r.pixel.2 + 1 = 525 := by
    unfold vTotal Regs.pixel at *
    bv_omega
  have hsuccx : (r.hCounter + 1#10).toNat = r.pixel.1 + 1 := by
    unfold Regs.pixel at *
    bv_omega
  have hsuccy : (r.vCounter + 1#10).toNat = r.pixel.2 + 1 := by
    unfold Regs.pixel at *
    bv_omega
  simp only [Raster.tick, ← hh, ← hv]
  simp only [Regs.posedge, Regs.hCounterIn, Regs.vCounterIn, Bool.false_eq_true, if_false]
  split_ifs with hrow hlast
  · simp [Regs.pixel]
  · simp [Regs.pixel, hsuccy]
  · simp [Regs.pixel, hsuccx]

/-- The registers after `p` edges from `Reset`. -/
def run (p : ℕ) : Regs := Driven.run Regs.posedge .onReset (fun _ => false) p

/-- From `Reset` on the counters scan the 800 by 525 frame. -/
theorem run_pixel (p : ℕ) : (run p).pixel = Raster.scan 800 525 p := by
  refine Raster.run_eq_scan (f := Regs.pixel) (by decide) (by decide) rfl ?_ p
  intro r q hr
  refine posedge_pixel ?_ ?_
  · rw [hr]
    exact Raster.scan_fst_lt (by decide) q
  · rw [hr]
    exact Raster.scan_snd_lt (by decide) q

end VgaController
