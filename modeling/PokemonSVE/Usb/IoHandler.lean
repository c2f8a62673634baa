-- SUMMARY: The functions of `io_handler.c` as sequences of PIO accesses, and the cycles of `Clk` they take through `hpi_io_intf`.
import PokemonSVE.Rtl.HpiIoIntf

/-!
# The I/O handler

The software side is a sequence of accesses to the PIO registers, with any number of
cycles, at least three, from one to the next. The hardware side is one step for each
cycle. `OTG_DATA` is shared with the chip, which drives it while it is selected and
read.
-/

namespace Usb

open HpiIoIntf (FromSw Regs)

/-! ## Software -/

/-- An access of the CPU to a PIO register. -/
inductive Access where
  | reset (v : Bool)
  | cs (v : Bool)
  | r (v : Bool)
  | w (v : Bool)
  | address (v : BitVec 32)
  | data (v : BitVec 32)
  | readData
  deriving DecidableEq, Repr

def IO_init : List Access :=
  [.reset true, .cs true, .r true, .w true, .address 0#32, .data 0#32,
    -- Reset OTG chip
    .cs false, .reset false, .reset true, .cs true]

def IO_write (Address : BitVec 8) (Data : BitVec 16) : List Access :=
  [.address (Address.setWidth 32), .cs false, .w false, .data (Data.setWidth 32), .w true,
    .cs true]

/-- The value that the access `readData` reads is returned. -/
def IO_read (Address : BitVec 8) : List Access :=
  [.address (Address.setWidth 32), .r false, .cs false, .readData, .r true, .cs true]

/-- A call of the handler. -/
inductive Call where
  | init
  | write (Address : BitVec 8) (Data : BitVec 16)
  | read (Address : BitVec 8)
  deriving DecidableEq, Repr

def Call.accesses : Call → List Access
  | .init => IO_init
  | .write a d => IO_write a d
  | .read a => IO_read a

/-! ## Hardware -/

/-- The PIO registers after an access. A register keeps the low bits of a store. -/
def Access.apply (p : FromSw) : Access → FromSw
  | .reset v => { p with reset := v }
  | .cs v => { p with cs := v }
  | .r v => { p with r := v }
  | .w v => { p with w := v }
  | .address v => { p with address := v.setWidth 2 }
  | .data v => { p with dataOut := v.setWidth 16 }
  | .readData => p

/-- The PIO registers and those of `hpi_io_intf`. -/
structure Link where
  pio : FromSw
  hpi : Regs
  deriving DecidableEq, Repr

/-- The inputs of one cycle of `Clk`. -/
structure CycleIn where
  access : Option Access
  /-- The word that the chip has for an address. -/
  word : BitVec 2 → BitVec 16
  /-- What `OTG_DATA` reads while nothing drives it. -/
  float : BitVec 16

namespace Link

/-- The chip drives `OTG_DATA`. -/
def ChipDrives (s : Link) : Prop := s.hpi.OTG_CS_N = false ∧ s.hpi.OTG_RD_N = false

instance (s : Link) : Decidable s.ChipDrives := inferInstanceAs (Decidable (_ ∧ _))

/-- The FPGA drives `OTG_DATA`. -/
def FpgaDrives (s : Link) : Prop := HpiIoIntf.drive s.hpi s.pio ≠ none

instance (s : Link) : Decidable s.FpgaDrives := inferInstanceAs (Decidable (¬ _ = _))

/-- It does so by `from_sw_w`, which is not registered. -/
theorem fpgaDrives_iff (s : Link) : s.FpgaDrives ↔ s.pio.w = false := by
  unfold FpgaDrives HpiIoIntf.drive
  cases s.pio.w <;> simp

/-- The value on `OTG_DATA`. -/
def bus (s : Link) (c : CycleIn) : BitVec 16 :=
  if s.ChipDrives then c.word s.hpi.OTG_ADDR
  else (HpiIoIntf.drive s.hpi s.pio).getD c.float

/-- A cycle out of `Reset`. -/
def cycle (s : Link) (c : CycleIn) : Link where
  pio := match c.access with
    | some a => a.apply s.pio
    | none => s.pio
  hpi := HpiIoIntf.posedge false s.pio (s.bus c)

def run (s : Link) (cs : List CycleIn) : Link := cs.foldl cycle s

@[simp] theorem run_nil (s : Link) : s.run [] = s := rfl
@[simp] theorem run_cons (s : Link) (c : CycleIn) (cs : List CycleIn) :
    s.run (c :: cs) = (s.cycle c).run cs := rfl

theorem run_append (s : Link) (cs cs' : List CycleIn) :
    s.run (cs ++ cs') = (s.run cs).run cs' := List.foldl_append

end Link

/-! ## Timing -/

/-- The cycles of a sequence of accesses: after each access at least two cycles
without one. -/
inductive Plays : List Access → List CycleIn → Prop where
  | nil : Plays [] []
  | cons {a : Access} {as : List Access} {c : CycleIn} {idle rest : List CycleIn}
      (access : c.access = some a) (quiet : ∀ i ∈ idle, i.access = none)
      (gap : 2 ≤ idle.length) (tail : Plays as rest) : Plays (a :: as) (c :: (idle ++ rest))

theorem plays_append {as bs : List Access} {cs : List CycleIn} (h : Plays (as ++ bs) cs) :
    ∃ ds es, cs = ds ++ es ∧ Plays as ds ∧ Plays bs es := by
  induction as generalizing cs with
  | nil => exact ⟨[], cs, rfl, .nil, h⟩
  | cons a as ih =>
    cases h with
    | @cons _ _ c idle rest access quiet gap tail =>
      obtain ⟨ds, es, rfl, hds, hes⟩ := ih tail
      exact ⟨c :: (idle ++ ds), es, by simp, .cons access quiet gap hds, hes⟩

/-- The pins have caught up with the PIO registers. -/
structure Settled (s : Link) : Prop where
  addr : s.hpi.OTG_ADDR = s.pio.address
  rd : s.hpi.OTG_RD_N = s.pio.r
  wr : s.hpi.OTG_WR_N = s.pio.w
  cs : s.hpi.OTG_CS_N = s.pio.cs
  rst : s.hpi.OTG_RST_N = true

namespace Link

/-- A cycle without an access is enough for that. -/
theorem settled_idle (s : Link) {c : CycleIn} (h : c.access = none) :
    Settled (s.cycle c) ∧ (s.cycle c).pio = s.pio := by
  have hpio : (s.cycle c).pio = s.pio := by simp [cycle, h]
  refine ⟨⟨?_, ?_, ?_, ?_, rfl⟩, hpio⟩ <;> rw [hpio] <;> rfl

theorem settled_run_idle (s : Link) {idle : List CycleIn} (h : ∀ i ∈ idle, i.access = none)
    (hne : idle ≠ []) : Settled (s.run idle) ∧ (s.run idle).pio = s.pio := by
  induction idle generalizing s with
  | nil => exact absurd rfl hne
  | cons i idle ih =>
    obtain ⟨hsettled, hpio⟩ := s.settled_idle (h i List.mem_cons_self)
    rw [run_cons]
    by_cases hnil : idle = []
    · rw [hnil]
      exact ⟨hsettled, hpio⟩
    · rw [← hpio]
      exact ih (s.cycle i) (fun j hj => h j (List.mem_cons_of_mem i hj)) hnil

end Link

/-- An access has taken effect at the pins before the next one comes. -/
theorem run_access {s : Link} {a : Access} {c : CycleIn} {idle : List CycleIn}
    (hc : c.access = some a) (h : ∀ i ∈ idle, i.access = none) (hgap : 2 ≤ idle.length) :
    Settled (s.run (c :: idle)) ∧ (s.run (c :: idle)).pio = a.apply s.pio := by
  have hne : idle ≠ [] := by
    rintro rfl
    contradiction
  obtain ⟨hsettled, hpio⟩ := (s.cycle c).settled_run_idle h hne
  refine ⟨hsettled, hpio.trans ?_⟩
  simp [Link.cycle, hc]

/-- The PIO registers after a sequence of accesses. -/
def applyAll (p : FromSw) (as : List Access) : FromSw := as.foldl Access.apply p

/-- So a sequence of accesses leaves the PIO registers as if there were no cycles. -/
theorem run_plays (s : Link) {as : List Access} {cs : List CycleIn} (h : Plays as cs) :
    (s.run cs).pio = applyAll s.pio as ∧ (Settled s ∨ as ≠ [] → Settled (s.run cs)) := by
  induction h generalizing s with
  | nil => exact ⟨rfl, fun hs => hs.resolve_right fun hne => hne rfl⟩
  | cons access quiet gap _ ih =>
    obtain ⟨hsettled, hpio⟩ := run_access (s := s) access quiet gap
    obtain ⟨hlast, hend⟩ := ih (s.run _)
    rw [← List.cons_append, Link.run_append]
    refine ⟨hlast.trans ?_, fun _ => hend (.inl hsettled)⟩
    rw [hpio]
    rfl

/-- The PIO registers at power-up, and the pins after it. -/
def powerUp : Link where
  pio := ⟨0#2, 0#16, false, false, false, false⟩
  hpi := ⟨0#16, 0#2, false, false, false, true, 0#16⟩

theorem settled_powerUp : Settled powerUp := ⟨rfl, rfl, rfl, rfl, rfl⟩

/-- A cycle in which the chip has the words `word`. -/
def CycleIn.of (word : BitVec 2 → BitVec 16) (access : Option Access) : CycleIn :=
  ⟨access, word, 0x0000#16⟩

/-- The cycles of accesses that follow each other as closely as they can. -/
def closest (word : BitVec 2 → BitVec 16) (as : List Access) : List CycleIn :=
  as.flatMap fun a => [.of word (some a), .of word none, .of word none]

theorem plays_closest (word : BitVec 2 → BitVec 16) (as : List Access) :
    Plays as (closest word as) := by
  induction as with
  | nil => exact .nil
  | cons a as ih =>
    have hidle : ∀ i ∈ [CycleIn.of word none, CycleIn.of word none], i.access = none := by
      simp [CycleIn.of]
    exact .cons rfl hidle le_rfl ih

end Usb
