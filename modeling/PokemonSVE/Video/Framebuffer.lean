-- SUMMARY: `frameDrawer` and the frame buffer under the scan: the pixel logic reads what the memory puts out, and the write port feeds it.
import PokemonSVE.Rtl.FramebufferRam
import PokemonSVE.Rtl.PixelLogic
import PokemonSVE.Video.WritePort

/-!
# frameDrawer with the frame buffer

The instance `FBRam` of `framebuffer.sv`: the pixel logic reads `data_Out`, and the
registered write port feeds `data_In` and `we`. The scan drives `DRAWX` and `DRAWY`;
the other nets of the pixel logic are inputs of the cycle.
-/

namespace Video

open FrameDrawer (Port PixelIn FBwrite_address InWindow)
open FramebufferRam (depth)

/-- The registers clocked by `posedge Clk`. -/
structure Drawing where
  port : Port (BitVec 24)
  ram : FramebufferRam.Regs

/-- The nets of the pixel logic, with `FBdata_Out` from the memory. -/
def Drawing.nets (s : Drawing) (i : PixelIn) : PixelIn :=
  { i with FBdata_Out := s.ram.data_Out }

/-- The ports of `FBRam`. -/
def Drawing.ramIn (s : Drawing) (i : PixelIn) : FramebufferRam.In where
  data_In := s.port.FBdata_In
  write_address := FBwrite_address i.DRAWX i.DRAWY
  read_address := (s.nets i).FBread_address
  we := s.port.FBwe

/-- The registers after a `posedge Clk`. -/
def Drawing.posedge (s : Drawing) (i : PixelIn) : Drawing where
  port := s.port.posedge ⟨i.DRAWX, i.DRAWY, i.stateNum, (s.nets i).next_pixel⟩
  ram := s.ram.posedge (s.ramIn i)

/-- The nets of cycle `t` with the scan on `DRAWX` and `DRAWY`. -/
def scanned (ins : ℕ → PixelIn) (t : ℕ) : PixelIn :=
  { ins t with DRAWX := (draw t).1, DRAWY := (draw t).2 }

section Run

variable (ram : FramebufferRam.Regs) (powerUp : BitVec 24) (ins : ℕ → PixelIn)

/-- The registers in cycle `t`. The write port powers up disabled, the memory with
any content. -/
def drawing (t : ℕ) : Drawing :=
  Driven.run Drawing.posedge ⟨⟨false, powerUp⟩, ram⟩ (scanned ins) t

/-- The nets of the pixel logic in cycle `t`. -/
def nets (t : ℕ) : PixelIn := (drawing ram powerUp ins t).nets (scanned ins t)

/-- What the pixel logic gives the write port. -/
def feed (t : ℕ) : Feed (BitVec 24) where
  stateNum := (ins t).stateNum
  nextPixel := (nets ram powerUp ins t).next_pixel

/-- The write to the memory at the edge that ends cycle `t`. -/
def written (t : ℕ) : Option (Fin depth × BitVec 24) :=
  ((drawing ram powerUp ins t).ramIn (scanned ins t)).write

/-- The frame buffer in cycle `t`. -/
def buffer (t : ℕ) : Fin depth → BitVec 24 := (drawing ram powerUp ins t).ram.mem

/-- Behind the memory the write port runs as it does alone. -/
theorem drawing_port (t : ℕ) :
    (drawing ram powerUp ins t).port = port powerUp (feed ram powerUp ins) t := by
  induction t with
  | zero => rfl
  | succ t ih =>
    rw [port_succ, ← ih]
    rfl

/-- The frame buffer is a memory under the writes of the port. -/
theorem buffer_eq_contents (t : ℕ) :
    buffer ram powerUp ins t = Memory.contents ram.mem (written ram powerUp ins) t := by
  induction t with
  | zero => rfl
  | succ t ih =>
    rw [Memory.contents_succ, ← ih]
    rfl

variable {ram powerUp ins}

theorem toNat_address (a : Fin depth) : (BitVec.ofNat 19 a.val).toNat = a.val := by
  rw [BitVec.toNat_ofNat]
  exact Nat.mod_eq_of_lt (Nat.lt_trans a.isLt (by decide))

/-- A write to the memory is a write of the port to an address of the buffer. -/
theorem written_eq_some {t : ℕ} {a : Fin depth} {v : BitVec 24} :
    written ram powerUp ins t = some (a, v) ↔
      Writes powerUp (feed ram powerUp ins) t (BitVec.ofNat 19 a.val) ∧
        (port powerUp (feed ram powerUp ins) t).FBdata_In = v := by
  have haddr : FBwrite_address (draw t).1 (draw t).2 = BitVec.ofNat 19 a.val ↔
      (FBwrite_address (draw t).1 (draw t).2).toNat = a.val := by
    rw [← BitVec.toNat_inj, toNat_address]
  unfold written Writes
  rw [FramebufferRam.write_eq_some, haddr, ← drawing_port, and_assoc]
  exact Iff.rfl

/-- What is written in a frame was computed in the frame, one cycle before, in the
window. -/
theorem exists_of_written {f t : ℕ} {a : Fin depth} {v : BitVec 24} (ht : InFrame f t)
    (h : written ram powerUp ins t = some (a, v)) :
    ∃ c, t = c + 1 ∧ InFrame f c ∧ InWindow (pixel c) ∧ (ins c).stateNum ≠ 0#4 ∧
      v = (nets ram powerUp ins c).next_pixel := by
  obtain ⟨hw, hv⟩ := written_eq_some.mp h
  cases t with
  | zero => exact absurd hw (not_writes_zero _)
  | succ c =>
    obtain ⟨⟨hwin, hstate⟩, -⟩ := (writes_succ c _).1.mp hw
    have hnext := (writes_succ c _).2 hw
    obtain ⟨x, y, b, hx, hy, hb, hc⟩ := exists_cycleOf ht hwin
    refine ⟨c, rfl, ?_, hwin, hstate, hv.symm.trans hnext⟩
    rw [hc]
    exact (inFrame_cycleOf hx hy hb).1

/-- With the write enabled in the window, a frame writes every word of the buffer. -/
theorem exists_written {f : ℕ}
    (hon : ∀ t, InFrame f t → InWindow (pixel t) → (ins t).stateNum ≠ 0#4) (a : Fin depth) :
    ∃ t v, InFrame f t ∧ written ram powerUp ins t = some (a, v) := by
  have ha : a.val < 38400 := a.isLt
  have hx : a.val % 240 < 240 := Nat.mod_lt _ (by decide)
  have hy : a.val / 240 < 160 := by omega
  have haddr : (BitVec.ofNat 19 a.val).toNat = addressAfter (a.val % 240) (a.val / 240) 0 := by
    unfold addressAfter
    rw [toNat_address, if_pos rfl]
    omega
  have hw : Writes powerUp (feed ram powerUp ins) (cycleOf f (a.val % 240) (a.val / 240) 0 + 1)
      (BitVec.ofNat 19 a.val) := writes_cycleOf hon hx hy (by decide) haddr
  exact ⟨_, _, (inFrame_cycleOf hx hy (by decide)).2, written_eq_some.mpr ⟨hw, rfl⟩⟩

end Run

end Video
