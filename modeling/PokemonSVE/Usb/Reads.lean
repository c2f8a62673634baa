-- SUMMARY: Reads through the handler: every `IO_read` returns a word that the chip drives during the call, and the FPGA and the chip never drive the bus together.
import PokemonSVE.Usb.IoHandler

/-!
# Reads

The bus belongs to the FPGA by `from_sw_w`, which is not registered, and to the chip
by pins that are one cycle late. Between two calls all strobes are up, and within a
call `r` and `w` are never both down, so that neither order of the two lets the
owners overlap.
-/

namespace Usb

open HpiIoIntf (FromSw)

namespace Link

/-- Both sides drive `OTG_DATA`. -/
def Contention (s : Link) : Prop := s.FpgaDrives ∧ s.ChipDrives

/-- No cycle has contention. -/
def Clear (s : Link) : List CycleIn → Prop
  | [] => ¬ s.Contention
  | c :: cs => ¬ s.Contention ∧ (s.cycle c).Clear cs

/-- The words that the CPU reads from `from_sw_data_in`. -/
def returned (s : Link) : List CycleIn → List (BitVec 16)
  | [] => []
  | c :: cs =>
    if c.access = some .readData then s.hpi.dataIn :: (s.cycle c).returned cs
    else (s.cycle c).returned cs

theorem clear_append (s : Link) {cs cs' : List CycleIn} (h : s.Clear cs)
    (h' : (s.run cs).Clear cs') : s.Clear (cs ++ cs') := by
  induction cs generalizing s with
  | nil => exact h'
  | cons c cs ih => exact ⟨h.1, ih (s.cycle c) h.2 h'⟩

theorem returned_append (s : Link) (cs cs' : List CycleIn) :
    s.returned (cs ++ cs') = s.returned cs ++ (s.run cs).returned cs' := by
  induction cs generalizing s with
  | nil => rfl
  | cons c cs ih =>
    simp only [List.cons_append, returned, ih, run_cons]
    split_ifs <;> rfl

end Link

/-! ## One access -/

/-- The pins show `p` and the PIO registers have `p'`, with both drivers on. -/
def Clash (p p' : FromSw) : Prop := p'.w = false ∧ p.cs = false ∧ p.r = false

theorem Settled.contention_iff {s : Link} (hs : Settled s) :
    s.Contention ↔ Clash s.pio s.pio := by
  rw [Link.Contention, Link.fpgaDrives_iff, Link.ChipDrives, hs.cs, hs.rd]
  rfl

theorem clear_idle {s : Link} (hs : Settled s) (hsafe : ¬ Clash s.pio s.pio)
    {idle : List CycleIn} (h : ∀ i ∈ idle, i.access = none) : s.Clear idle := by
  induction idle generalizing s with
  | nil => exact hs.contention_iff.not.mpr hsafe
  | cons i idle ih =>
    obtain ⟨hsettled, hpio⟩ := s.settled_idle (h i List.mem_cons_self)
    exact ⟨hs.contention_iff.not.mpr hsafe,
      ih hsettled (by rwa [hpio]) fun j hj => h j (List.mem_cons_of_mem i hj)⟩

/-- An access is safe if no driver is left on while the other one is turned on. -/
theorem clear_access {s : Link} (hs : Settled s) {a : Access} {c : CycleIn}
    {idle : List CycleIn} (hc : c.access = some a) (h : ∀ i ∈ idle, i.access = none)
    (hgap : 2 ≤ idle.length) (hbefore : ¬ Clash s.pio s.pio)
    (hlag : ¬ Clash s.pio (a.apply s.pio)) (hafter : ¬ Clash (a.apply s.pio) (a.apply s.pio)) :
    s.Clear (c :: idle) := by
  cases idle with
  | nil => exact absurd hgap (by simp)
  | cons i idle =>
    have hpio : (s.cycle c).pio = a.apply s.pio := by simp [Link.cycle, hc]
    obtain ⟨hsettled, hkeep⟩ := (s.cycle c).settled_idle (h i List.mem_cons_self)
    refine ⟨hs.contention_iff.not.mpr hbefore, ?_,
      clear_idle hsettled (by rwa [hkeep, hpio]) fun j hj => h j (List.mem_cons_of_mem i hj)⟩
    rintro ⟨hfpga, hcs, hrd⟩
    have hw := (Link.fpgaDrives_iff _).mp hfpga
    exact hlag ⟨by rw [← hpio]; exact hw, hcs, hrd⟩

/-- A sequence of accesses none of which clashes. -/
def Safe (p : FromSw) : List Access → Prop
  | [] => ¬ Clash p p
  | a :: as => ¬ Clash p p ∧ ¬ Clash p (a.apply p) ∧ Safe (a.apply p) as

theorem Safe.first {p : FromSw} {as : List Access} (h : Safe p as) : ¬ Clash p p := by
  cases as with
  | nil => exact h
  | cons a as => exact h.1

theorem safe_append {p : FromSw} {as bs : List Access} (h : Safe p as)
    (h' : Safe (applyAll p as) bs) : Safe p (as ++ bs) := by
  induction as generalizing p with
  | nil => exact h'
  | cons a as ih => exact ⟨h.1, h.2.1, ih h.2.2 h'⟩

theorem clear_plays {s : Link} (hs : Settled s) {as : List Access} {cs : List CycleIn}
    (h : Plays as cs) (hsafe : Safe s.pio as) : s.Clear cs := by
  induction h generalizing s with
  | nil => exact hs.contention_iff.not.mpr hsafe
  | cons access quiet gap _ ih =>
    obtain ⟨hbefore, hlag, hrest⟩ := hsafe
    obtain ⟨hsettled, hpio⟩ := run_access (s := s) access quiet gap
    rw [← List.cons_append]
    exact s.clear_append (clear_access hs access quiet gap hbefore hlag hrest.first)
      (ih hsettled (by rwa [hpio]))

/-! ## Calls -/

/-- Between two calls all strobes are up. -/
def Released (p : FromSw) : Prop := p.r = true ∧ p.w = true ∧ p.cs = true

theorem released_init (p : FromSw) : Released (applyAll p IO_init) := ⟨rfl, rfl, rfl⟩

theorem safe_call {p : FromSw} (hp : Released p) {call : Call} (h : call ≠ .init) :
    Safe p call.accesses ∧ Released (applyAll p call.accesses) := by
  obtain ⟨hr, hw, hcs⟩ := hp
  cases call with
  | init => exact absurd rfl h
  | write a d =>
    simp [Call.accesses, IO_write, Safe, Clash, Access.apply, Released, applyAll, hr, hw, hcs]
  | read a =>
    simp [Call.accesses, IO_read, Safe, Clash, Access.apply, Released, applyAll, hr, hw, hcs]

theorem safe_calls {p : FromSw} (hp : Released p) {calls : List Call}
    (h : ∀ call ∈ calls, call ≠ .init) : Safe p (calls.flatMap Call.accesses) ∧
      Released (applyAll p (calls.flatMap Call.accesses)) := by
  induction calls generalizing p with
  | nil => exact ⟨fun ⟨hw, _⟩ => Bool.false_ne_true (hw.symm.trans hp.2.1), hp⟩
  | cons call calls ih =>
    obtain ⟨hsafe, hreleased⟩ := safe_call hp (h call List.mem_cons_self)
    obtain ⟨hrest, hend⟩ := ih hreleased fun c hc => h c (List.mem_cons_of_mem call hc)
    rw [List.flatMap_cons, applyAll, List.foldl_append]
    exact ⟨safe_append hsafe hrest, hend⟩

/-! ## The word that is read -/

theorem returned_idle (s : Link) {idle : List CycleIn} (h : ∀ i ∈ idle, i.access = none) :
    s.returned idle = [] := by
  induction idle generalizing s with
  | nil => rfl
  | cons i idle ih =>
    have hnone : i.access ≠ some .readData := by
      rw [h i List.mem_cons_self]
      simp
    rw [Link.returned, if_neg hnone]
    exact ih _ fun j hj => h j (List.mem_cons_of_mem i hj)

/-- Only the access `readData` reads. -/
theorem returned_plays (s : Link) {as : List Access} {cs : List CycleIn} (h : Plays as cs)
    (hnone : .readData ∉ as) : s.returned cs = [] := by
  induction h generalizing s with
  | nil => rfl
  | @cons a as c idle rest access quiet _ _ ih =>
    rw [List.mem_cons, not_or] at hnone
    have hne : c.access ≠ some .readData := by
      rw [access]
      simpa [eq_comm] using hnone.1
    rw [Link.returned, if_neg hne, Link.returned_append, returned_idle _ quiet,
      ih _ hnone.2, List.nil_append]

/-- The register `from_sw_data_in` follows the bus. -/
theorem dataIn_access (s : Link) {a : Access} {c : CycleIn} {idle : List CycleIn}
    (hc : c.access = some a) (h : ∀ i ∈ idle, i.access = none) (hgap : 2 ≤ idle.length) :
    ∃ before last, idle = before ++ [last] ∧ Settled (s.run (c :: before)) ∧
      (s.run (c :: before)).pio = a.apply s.pio ∧
      (s.run (c :: idle)).hpi.dataIn = (s.run (c :: before)).bus last := by
  have hne : idle ≠ [] := by
    rintro rfl
    contradiction
  obtain ⟨before, last, rfl⟩ : ∃ before last, idle = before ++ [last] :=
    ⟨_, _, (List.dropLast_concat_getLast hne).symm⟩
  have hbefore : before ≠ [] := by
    rintro rfl
    simp at hgap
  obtain ⟨hsettled, hpio⟩ := (s.cycle c).settled_run_idle
    (fun i hi => h i (List.mem_append_left [last] hi)) hbefore
  refine ⟨before, last, rfl, hsettled, hpio.trans (by simp [Link.cycle, hc]), ?_⟩
  rw [← List.cons_append, Link.run_append]
  rfl

/-- An `IO_read` returns the word that the chip drives in the last cycle before the
read access. -/
theorem returned_read {s : Link} (hp : Released s.pio) {a : BitVec 8} {cs : List CycleIn}
    (h : Plays (IO_read a) cs) : ∃ before c after, cs = before ++ c :: after ∧
      (s.run before).ChipDrives ∧ ¬ (s.run before).FpgaDrives ∧
      (s.run before).hpi.OTG_ADDR = a.setWidth 2 ∧ s.returned cs = [c.word (a.setWidth 2)] := by
  have hsplit : Plays ([.address (a.setWidth 32), .r false] ++
      [.cs false, .readData, .r true, .cs true]) cs := h
  obtain ⟨ds, es, rfl, hds, hes⟩ := plays_append hsplit
  have hpio := (run_plays s hds).1
  generalize hs : s.run ds = t at hpio
  cases hes with
  | @cons _ _ c idle rest access quiet gap tail =>
    obtain ⟨before, last, hidle, hsettled, hlast, hdata⟩ := dataIn_access t access quiet gap
    have hselect : (s.run (ds ++ c :: before)).pio =
        { s.pio with address := a.setWidth 2, r := false, cs := false } := by
      rw [Link.run_append, hs, hlast, hpio]
      simp [applyAll, Access.apply]
    have hsettled' : Settled (s.run (ds ++ c :: before)) := by rwa [Link.run_append, hs]
    have hdrives : (s.run (ds ++ c :: before)).ChipDrives := by
      rw [Link.ChipDrives, hsettled'.cs, hsettled'.rd, hselect]
      exact ⟨rfl, rfl⟩
    have haddr : (s.run (ds ++ c :: before)).hpi.OTG_ADDR = a.setWidth 2 := by
      rw [hsettled'.addr, hselect]
    have hfpga : ¬ (s.run (ds ++ c :: before)).FpgaDrives := by
      rw [Link.fpgaDrives_iff, hselect, hp.2.1]
      decide
    refine ⟨ds ++ c :: before, last, rest, by rw [hidle]; simp, hdrives, hfpga, haddr, ?_⟩
    have hword : (t.run (c :: idle)).hpi.dataIn = last.word (a.setWidth 2) := by
      rw [Link.run_append, hs] at hdrives haddr
      rw [hdata, Link.bus, if_pos hdrives, haddr]
    have hblock : Plays [.cs false] (c :: idle) := by
      have hone := Plays.cons access quiet gap .nil
      rwa [List.append_nil] at hone
    -- Of the three parts of the call only the last one has the read access.
    rw [Link.returned_append, returned_plays s hds (by simp), hs, List.nil_append,
      ← List.cons_append, Link.returned_append, returned_plays t hblock (by simp), List.nil_append]
    cases tail with
    | @cons _ _ c' idle' rest' access' quiet' gap' tail' =>
      rw [Link.returned, if_pos access', hword, Link.returned_append, returned_idle _ quiet',
        returned_plays _ tail' (by simp), List.nil_append]

/-- After `IO_init`, whatever the registers were before it: no cycle has contention,
and every `IO_read` returns the word that the chip drives for its address in a cycle
of the call. -/
theorem reads_correct (s : Link) (start : List CycleIn) (hstart : Plays IO_init start)
    (calls : List Call) (hcalls : ∀ call ∈ calls, call ≠ .init) (cs : List CycleIn)
    (h : Plays (calls.flatMap Call.accesses) cs) :
    (s.run start).Clear cs ∧
    ∀ before a after, calls = before ++ .read a :: after →
      ∀ pre mid post, cs = pre ++ mid ++ post → Plays (before.flatMap Call.accesses) pre →
        Plays (IO_read a) mid →
        ∃ early c late, mid = early ++ c :: late ∧
          (s.run (start ++ pre ++ early)).ChipDrives ∧
          ¬ (s.run (start ++ pre ++ early)).FpgaDrives ∧
          (s.run (start ++ pre ++ early)).hpi.OTG_ADDR = a.setWidth 2 ∧
          (s.run (start ++ pre)).returned mid = [c.word (a.setWidth 2)] := by
  obtain ⟨hpio, hsettled⟩ := run_plays s hstart
  have hset : Settled (s.run start) := hsettled (.inr (by simp [IO_init]))
  have hrel : Released (s.run start).pio := by
    rw [hpio]
    exact released_init s.pio
  refine ⟨clear_plays hset h (safe_calls hrel hcalls).1, ?_⟩
  rintro before a after rfl pre mid post - hpre hmid
  have hbefore : ∀ call ∈ before, call ≠ .init :=
    fun call hc => hcalls call (List.mem_append_left _ hc)
  have hrel' : Released (s.run (start ++ pre)).pio := by
    rw [Link.run_append, (run_plays _ hpre).1]
    exact (safe_calls hrel hbefore).2
  obtain ⟨early, c, late, hsplit, hread⟩ := returned_read hrel' hmid
  rw [← Link.run_append] at hread
  exact ⟨early, c, late, hsplit, hread⟩

/-- The message register reads 0x1000, at three cycles to an access. -/
theorem reads_correct_message :
    (powerUp.run (closest (fun _ => 0x1000#16) (IO_init ++ IO_write 2#8 0x0144#16))).returned
      (closest (fun _ => 0x1000#16) (IO_read 0#8)) = [0x1000#16] := by
  let word : BitVec 2 → BitVec 16 := fun _ => 0x1000#16
  have hread := (reads_correct powerUp (closest word IO_init) (plays_closest _ _)
    [.write 2#8 0x0144#16, .read 0#8] (by decide)
    (closest word (IO_write 2#8 0x0144#16) ++ closest word (IO_read 0#8))
    (plays_closest word _)).2 [.write 2#8 0x0144#16] 0#8 [] rfl
    (closest word (IO_write 2#8 0x0144#16)) (closest word (IO_read 0#8)) [] (by simp)
    (plays_closest word _) (plays_closest word _)
  obtain ⟨early, c, late, hmid, -, -, -, hvalue⟩ := hread
  have hword : c.word = word := by
    have hmem : c ∈ closest word (IO_read 0#8) := by
      rw [hmid]
      simp
    simp only [closest, CycleIn.of, List.mem_flatMap] at hmem
    obtain ⟨a, -, hc⟩ := hmem
    simp only [List.mem_cons, List.not_mem_nil, or_false] at hc
    rcases hc with rfl | rfl | rfl <;> rfl
  rw [hword] at hvalue
  exact hvalue

end Usb
