-- SUMMARY: The write strobes and resets at the chip: each `IO_write` gives one strobe at its address, whose data is not driven, and `IO_init` gives no reset.
import PokemonSVE.Usb.IoHandler

/-!
# Strobes

`OTG_WR_N` rises one cycle after `from_sw_w`, and with `from_sw_w` the FPGA lets go of
`OTG_DATA` at once. So the cycle in which the chip takes the word is one in which
nobody drives it. `OTG_RST_N` does not follow `from_sw_reset` at all.
-/

namespace Usb

open HpiIoIntf (FromSw)

/-- What the chip sees in the cycle before `OTG_WR_N` rises, if it is selected: the
address, and the word that the FPGA drives. -/
abbrev Strobe := BitVec 2 × Option (BitVec 16)

namespace Link

def strobe (s : Link) (c : CycleIn) : Option Strobe :=
  if s.hpi.OTG_WR_N = false ∧ (s.cycle c).hpi.OTG_WR_N = true ∧ s.hpi.OTG_CS_N = false then
    some (s.hpi.OTG_ADDR, HpiIoIntf.drive s.hpi s.pio)
  else none

/-- The write strobes of a run. -/
def strobes (s : Link) : List CycleIn → List Strobe
  | [] => []
  | c :: cs => (s.strobe c).toList ++ (s.cycle c).strobes cs

/-- The number of times that `OTG_RST_N` rises. -/
def resets (s : Link) : List CycleIn → ℕ
  | [] => 0
  | c :: cs =>
    (if s.hpi.OTG_RST_N = false ∧ (s.cycle c).hpi.OTG_RST_N = true then 1 else 0) +
      (s.cycle c).resets cs

theorem strobes_append (s : Link) (cs cs' : List CycleIn) :
    s.strobes (cs ++ cs') = s.strobes cs ++ (s.run cs).strobes cs' := by
  induction cs generalizing s with
  | nil => rfl
  | cons c cs ih => simp only [List.cons_append, strobes, ih, run_cons, List.append_assoc]

end Link

/-- What a call should give: a strobe with its word, or a reset. -/
def Call.strobe : Call → Option Strobe
  | .write a d => some (a.setWidth 2, some d)
  | _ => none

def Call.IsRead : Call → Prop
  | .read _ => True
  | _ => False

instance : DecidablePred Call.IsRead
  | .read _ => .isTrue trivial
  | .init => .isFalse id
  | .write _ _ => .isFalse id

/-- The strobes and resets of the cycles are those of the calls. -/
def Faithful (s : Link) (calls : List Call) (cs : List CycleIn) : Prop :=
  s.strobes cs = calls.filterMap Call.strobe ∧ s.resets cs = calls.count .init

/-! ## One access -/

/-- A strobe needs a difference between pins and PIO registers. -/
theorem strobe_settled {s : Link} (hs : Settled s) (c : CycleIn) : s.strobe c = none := by
  have hnext : (s.cycle c).hpi.OTG_WR_N = s.pio.w := rfl
  rw [Link.strobe, hnext, hs.wr]
  cases s.pio.w <;> simp

theorem strobes_idle {s : Link} (hs : Settled s) {idle : List CycleIn}
    (h : ∀ i ∈ idle, i.access = none) : s.strobes idle = [] := by
  induction idle generalizing s with
  | nil => rfl
  | cons i idle ih =>
    have hsettled := (s.settled_idle (h i List.mem_cons_self)).1
    rw [Link.strobes, strobe_settled hs, ih hsettled fun j hj => h j (List.mem_cons_of_mem i hj)]
    rfl

/-- The strobe of a change of the PIO registers. -/
def risen (p p' : FromSw) : Option Strobe :=
  if p.w = false ∧ p'.w = true ∧ p.cs = false then some (p.address, none) else none

/-- The strobe of an access is in the one cycle in which the pins lag behind, and
the FPGA has let go of the bus there. -/
theorem strobes_access {s : Link} (hs : Settled s) {a : Access} {c : CycleIn}
    {idle : List CycleIn} (hc : c.access = some a) (h : ∀ i ∈ idle, i.access = none)
    (hgap : 2 ≤ idle.length) :
    s.strobes (c :: idle) = (risen s.pio (a.apply s.pio)).toList := by
  cases idle with
  | nil => exact absurd hgap (by simp)
  | cons i idle =>
    have hpio : (s.cycle c).pio = a.apply s.pio := by simp [Link.cycle, hc]
    have hsettled := ((s.cycle c).settled_idle (h i List.mem_cons_self)).1
    rw [Link.strobes, Link.strobes, strobe_settled hs,
      strobes_idle hsettled fun j hj => h j (List.mem_cons_of_mem i hj)]
    have hlag : (s.cycle c).strobe i = risen s.pio (a.apply s.pio) := by
      have hwr : (s.cycle c).hpi.OTG_WR_N = s.pio.w := rfl
      have hcs : (s.cycle c).hpi.OTG_CS_N = s.pio.cs := rfl
      have haddr : (s.cycle c).hpi.OTG_ADDR = s.pio.address := rfl
      have hnext : ((s.cycle c).cycle i).hpi.OTG_WR_N = (s.cycle c).pio.w := rfl
      rw [Link.strobe, hnext, hwr, hcs, haddr, hpio, risen]
      split_ifs with hrise
      · simp [HpiIoIntf.drive, hrise.2.1]
      · rfl
    rw [hlag]
    simp

/-! ## Sequences -/

/-- The strobes of a sequence of accesses. -/
def rises (p : FromSw) : List Access → List Strobe
  | [] => []
  | a :: as => (risen p (a.apply p)).toList ++ rises (a.apply p) as

theorem rises_append (p : FromSw) (as bs : List Access) :
    rises p (as ++ bs) = rises p as ++ rises (applyAll p as) bs := by
  induction as generalizing p with
  | nil => rfl
  | cons a as ih =>
    rw [List.cons_append, rises, rises, ih, List.append_assoc]
    rfl

/-- The strobes of a run are those of the PIO registers alone. -/
theorem strobes_plays {s : Link} (hs : Settled s) {as : List Access} {cs : List CycleIn}
    (h : Plays as cs) : s.strobes cs = rises s.pio as := by
  induction h generalizing s with
  | nil => rfl
  | cons access quiet gap _ ih =>
    obtain ⟨hsettled, hpio⟩ := run_access (s := s) access quiet gap
    rw [← List.cons_append, Link.strobes_append, strobes_access hs access quiet gap,
      ih hsettled, hpio, rises]

theorem resets_settled {s : Link} (hs : s.hpi.OTG_RST_N = true) (cs : List CycleIn) :
    s.resets cs = 0 := by
  induction cs generalizing s with
  | nil => rfl
  | cons c cs ih =>
    rw [Link.resets, ih (s := s.cycle c) rfl, hs]
    simp

/-- One strobe for an `IO_write`, none for the other calls. -/
theorem rises_call (p : FromSw) (call : Call) :
    rises p call.accesses = (call.strobe.map fun e => (e.1, none)).toList := by
  cases call <;> cases hw : p.w <;>
    simp [Call.accesses, IO_init, IO_write, IO_read, rises, risen, Access.apply, Call.strobe, hw]

theorem rises_calls (p : FromSw) (calls : List Call) :
    rises p (calls.flatMap Call.accesses) =
      (calls.filterMap Call.strobe).map fun e => (e.1, none) := by
  induction calls generalizing p with
  | nil => rfl
  | cons call calls ih =>
    rw [List.flatMap_cons, rises_append, rises_call, ih, List.filterMap_cons]
    cases call.strobe <;> rfl

/-! ## Calls -/

/-- A call that should give nothing at the chip is an `IO_read`. -/
theorem isRead_iff (call : Call) : call.IsRead ↔ call.strobe = none ∧ call ≠ .init := by
  cases call <;> simp [Call.IsRead, Call.strobe]

/-- An `IO_write` asks for a word that is driven. -/
theorem strobe_driven {call : Call} {e : Strobe} (h : call.strobe = some e) : e.2 ≠ none := by
  cases call with
  | write a d =>
    cases h
    simp
  | _ => cases h

theorem undriven_iff (calls : List Call) :
    (calls.filterMap Call.strobe).map (fun e => (e.1, none)) = calls.filterMap Call.strobe ↔
      ∀ call ∈ calls, call.strobe = none := by
  rw [← List.filterMap_eq_nil_iff]
  constructor
  · intro h
    rw [List.eq_nil_iff_forall_not_mem]
    intro e he
    obtain ⟨e', -, rfl⟩ := List.mem_map.mp (h ▸ he)
    obtain ⟨call, -, hcall⟩ := List.mem_filterMap.mp he
    exact strobe_driven hcall rfl
  · intro h
    rw [h]
    rfl

/-- Strobes and resets are those of the calls exactly if there is nothing to be seen
of them at the chip. Apart from the word, the strobes are those of the `IO_write`
calls. -/
theorem faithful_iff (s : Link) (calls : List Call) (cs : List CycleIn) (hs : Settled s)
    (h : Plays (calls.flatMap Call.accesses) cs) :
    (Faithful s calls cs ↔ ∀ call ∈ calls, call.IsRead) ∧
      (s.strobes cs).map Prod.fst = (calls.filterMap Call.strobe).map Prod.fst := by
  have hstrobes : s.strobes cs = (calls.filterMap Call.strobe).map fun e => (e.1, none) :=
    (strobes_plays hs h).trans (rises_calls s.pio calls)
  refine ⟨?_, by rw [hstrobes, List.map_map]; rfl⟩
  have hcount : 0 = calls.count .init ↔ ∀ call ∈ calls, call ≠ .init := by
    rw [eq_comm, List.count_eq_zero]
    exact ⟨fun hn call hc he => hn (he ▸ hc), fun hn hc => hn _ hc rfl⟩
  rw [Faithful, hstrobes, resets_settled hs.rst, undriven_iff, hcount]
  simp only [isRead_iff, ← forall_and]

theorem faithful_iff_read : Faithful powerUp [.read 0#8] (closest (fun _ => 0#16) (IO_read 0#8)) :=
  (faithful_iff powerUp [.read 0#8] (closest (fun _ => 0#16) (IO_read 0#8)) settled_powerUp
    (plays_closest _ (IO_read 0#8))).1.mpr (by decide)

/-- The first two calls of the driver give no reset, and a strobe for a word that is
not driven. -/
theorem not_faithful_init_write :
    ¬ ∀ calls cs, Plays (calls.flatMap Call.accesses) cs → Faithful powerUp calls cs := by
  have hstrobes : powerUp.strobes (closest (fun _ => 0#16) (IO_init ++ IO_write 1#8 0xFA50#16)) =
      [(1#2, none)] := by decide
  intro h
  have hcalls := h [.init, .write 1#8 0xFA50#16]
    (closest (fun _ => 0#16) (IO_init ++ IO_write 1#8 0xFA50#16)) (plays_closest _ _)
  rw [Faithful, hstrobes] at hcalls
  exact absurd hcalls.1 (by decide)

end Usb
