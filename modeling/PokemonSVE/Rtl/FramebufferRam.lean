-- SUMMARY: The module `FramebufferRam`: a memory of pixels with a write port and a registered read port.
import Mathlib.Tactic.SplitIfs
import PokemonSVE.Basis.Memory

/-!
# FramebufferRam

The memory in `ram.sv`, clocked by `posedge Clk`. Its addresses are wider than the
memory: a write past the end is dropped.
-/

namespace FramebufferRam

/-- The number of words of `mem`. -/
abbrev depth : ℕ := 38400

structure Regs where
  mem : Fin depth → BitVec 24
  data_Out : BitVec 24

/-- The input ports. -/
structure In where
  data_In : BitVec 24
  write_address : BitVec 19
  read_address : BitVec 19
  we : Bool

/-- The write that an edge does. -/
def In.write (i : In) : Option (Fin depth × BitVec 24) :=
  if h : i.we = true ∧ i.write_address.toNat < depth then
    some (⟨i.write_address.toNat, h.2⟩, i.data_In)
  else none

/-- `mem[read_address]`. Past the end it is undefined, and 0 stands for it here. -/
def Regs.word (r : Regs) (read_address : BitVec 19) : BitVec 24 :=
  if h : read_address.toNat < depth then r.mem ⟨read_address.toNat, h⟩ else 0#24

/-- The registers after a `posedge Clk`. The word read is the one from before the
edge. -/
def Regs.posedge (r : Regs) (i : In) : Regs where
  mem := Memory.write r.mem i.write
  data_Out := r.word i.read_address

theorem write_eq_some {i : In} {a : Fin depth} {v : BitVec 24} :
    i.write = some (a, v) ↔
      i.we = true ∧ i.write_address.toNat = a.val ∧ i.data_In = v := by
  unfold In.write
  split_ifs with h
  · simp only [Option.some.injEq, Prod.mk.injEq, Fin.ext_iff, h.1, true_and]
  · simp only [false_iff]
    rintro ⟨hwe, ha, -⟩
    exact h ⟨hwe, by rw [ha]; exact a.isLt⟩

end FramebufferRam
