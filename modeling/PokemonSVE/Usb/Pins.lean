-- SUMMARY: The driver at the pins: over `io_handler` and `hpi_io_intf` it runs as it does against a controller at its port, and every word it hears is one that the chip drives.
import PokemonSVE.Usb.Reads
import PokemonSVE.Usb.Report
import PokemonSVE.Usb.Strobes

/-!
# The driver at the pins

A call of the driver is a sequence of accesses to the PIO registers, which take effect
at the pins some cycles later. Here the driver runs over these cycles, with any spacing
of the accesses, any words of the chip and any noise on the bus. What it issues and
hears is then what a controller at the port is issued and answers.
-/

namespace Usb

open HpiIoIntf (FromSw)

/-- How the CPU plays accesses in a step of the driver, and what is on the pins
meanwhile. -/
structure Timing where
  cycles : List Access → List CycleIn
  plays : ∀ as, Plays as (cycles as)

instance : Inhabited Timing := ⟨closest fun _ => 0x0000#16, plays_closest _⟩

/-- Between two calls the pins have caught up, and all strobes are up. -/
structure Idle (s : Link) : Prop where
  settled : Settled s
  released : Released s.pio

/-- A call begins and ends with the strobes up, and no access of it clashes. -/
theorem safe_of_released {p : FromSw} (hp : Released p) (call : Call) :
    Safe p call.accesses ∧ Released (applyAll p call.accesses) := by
  cases call with
  | init =>
    obtain ⟨hr, hw, hcs⟩ := hp
    simp [Call.accesses, IO_init, Safe, Clash, Access.apply, Released, applyAll, hw]
  | write a d => exact safe_call hp (by simp)
  | read a => exact safe_call hp (by simp)

/-- The call leaves the link idle, and no cycle of it has contention. -/
theorem Idle.call {s : Link} (hs : Idle s) {call : Call} {cs : List CycleIn}
    (h : Plays call.accesses cs) : Idle (s.run cs) ∧ s.Clear cs := by
  obtain ⟨hpio, hsettled⟩ := run_plays s h
  obtain ⟨hsafe, hreleased⟩ := safe_of_released hs.released call
  refine ⟨⟨hsettled (.inl hs.settled), ?_⟩, clear_plays hs.settled h hsafe⟩
  rw [hpio]
  exact hreleased

/-- `IO_init` brings the link there, whatever it was before. -/
theorem idle_of_init (s : Link) {cs : List CycleIn} (h : Plays IO_init cs) : Idle (s.run cs) := by
  obtain ⟨hpio, hsettled⟩ := run_plays s h
  refine ⟨hsettled (.inr (by simp [IO_init])), ?_⟩
  rw [hpio]
  exact released_init s.pio

end Usb

namespace Driver

open Prog
open Usb (Timing Link Call CycleIn Idle Plays)

/-! ## The machine -/

/-- The call of `io_handler` that a command is. The keycode PIO is not on the link. -/
def Cmd.call : Cmd → Option Call
  | .IO_init => some .init
  | .IO_write a d => some (.write a d)
  | .keycode _ => none

/-- The link, with the timing of the step. -/
structure Pins where
  link : Link
  timing : Timing

/-- The cycles that a call takes. -/
def Pins.cycles (s : Pins) (call : Call) : List CycleIn := s.timing.cycles call.accesses

/-- The link after a call. -/
def Pins.after (s : Pins) (call : Call) : Link := s.link.run (s.cycles call)

/-- The environment that the link is for the driver. -/
def pins : Env Cmd (BitVec 8) (BitVec 16) Pins Timing where
  acts s timing := { s with timing := timing }
  emitted s c := { s with link := c.call.elim s.link s.after }
  answer s _ a := (s.link.returned (s.cycles (.read a))).headD 0x0000#16
  asked s a := { s with link := s.after (.read a) }

abbrev PinEvent := Event Cmd (BitVec 8) (BitVec 16) Pins

/-- What the event is at the pins. The FPGA and the chip never drive the bus together, an
`IO_write` is one strobe at its address, and an `IO_read` returns the word that the chip
drives in one of the cycles of the call. -/
def PinEvent.Correct : PinEvent → Prop
  | .arrives => True
  | .issues s c => ∀ call ∈ c.call, s.link.Clear (s.cycles call) ∧
      (s.link.strobes (s.cycles call)).map Prod.fst = (call.strobe.map Prod.fst).toList
  | .hears s a v => s.link.Clear (s.cycles (.read a)) ∧ s.link.strobes (s.cycles (.read a)) = [] ∧
      ∃ before c after, s.cycles (.read a) = before ++ c :: after ∧
        (s.link.run before).ChipDrives ∧ (s.link.run before).hpi.OTG_ADDR = a.setWidth 2 ∧
        v = c.word (a.setWidth 2)

/-- A keycode is stored only after a read of `HPI_DATA`, and is the low byte of the word
that the chip drives there. -/
def PinEvent.Stores (e : PinEvent) : PinEvent → Prop
  | .issues _ (.keycode k) => ∃ s v, e = .hears s HPI_DATA v ∧ e.Correct ∧ k = v.setWidth 8
  | _ => True

section Idle

variable {c : Config Cmd (BitVec 8) (BitVec 16) Pins Point} (h : Idle c.state.link) (i : Timing)
include h

theorem idle_step : Idle (step body pins c i).state.link := by
  obtain ⟨prog, s⟩ := c
  cases prog with
  | ret l => exact h
  | emit cmd rest =>
    cases cmd with
    | keycode v => exact h
    | _ => exact (h.call (i.plays _)).1
  | ask a rest => exact (h.call (i.plays (Call.accesses (.read a)))).1

theorem correct_event : PinEvent.Correct (c.event pins i) := by
  obtain ⟨prog, s⟩ := c
  have hstrobes (call : Call) : s.link.strobes (i.cycles call.accesses) =
      (call.strobe.map fun e => (e.1, none)).toList :=
    (Usb.strobes_plays h.settled (i.plays _)).trans (Usb.rises_call _ call)
  cases prog with
  | ret l => trivial
  | emit cmd rest =>
    intro call _
    have hmap : (s.link.strobes (i.cycles call.accesses)).map Prod.fst =
        (call.strobe.map Prod.fst).toList := by
      rw [hstrobes]
      cases call.strobe <;> rfl
    exact ⟨(h.call (i.plays _)).2, hmap⟩
  | ask a rest =>
    obtain ⟨before, c, after, hcycles, hdrives, -, haddr, hreturned⟩ :=
      Usb.returned_read h.released (i.plays (Call.accesses (.read a)))
    refine ⟨(h.call (i.plays _)).2, hstrobes (.read a), before, c, after, hcycles, hdrives,
      haddr, ?_⟩
    exact congrArg (fun l => l.headD 0x0000#16) hreturned

end Idle

/-! ## The controller at the port -/

/-- A controller that answers what its inputs say. -/
def heard : Chip Unit (BitVec 16) where
  acts _ _ := ()
  load _ v _ := v
  loaded _ _ := ()
  store _ _ _ := ()
  status _ v := v
  mailbox _ v := v
  command _ _ := ()
  keycode _ _ := ()

theorem heard_answer (h : Hpi Unit) (v : BitVec 16) (a : BitVec 8) :
    heard.env.answer h v a = v := by
  simp only [Chip.env]
  split_ifs <;> rfl

section Run

variable (data_size : BitVec 8) (link : Link) (timing : Timing) (ins : ℕ → Timing)

/-- `main`, from any state of the link. -/
def mainAt : Config Cmd (BitVec 8) (BitVec 16) Pins Point :=
  ⟨.ret (.main, .start data_size), ⟨link, timing⟩⟩

/-- The events of the driver at the pins. -/
def pinEvent (n : ℕ) : PinEvent := events body pins (mainAt data_size link timing) ins n

/-- The word that the event has heard. -/
def PinEvent.word : PinEvent → BitVec 16
  | .hears _ _ v => v
  | _ => 0x0000#16

/-- After `IO_init`, the first call, the link is idle before every step. -/
theorem idle_run (n : ℕ) :
    Idle (runFrom body pins (mainAt data_size link timing) ins (n + 2)).state.link := by
  induction n with
  | zero => exact Usb.idle_of_init link ((ins 1).plays _)
  | succ n ih => exact idle_step ih _

theorem correct_run (n : ℕ) : PinEvent.Correct (pinEvent data_size link timing ins (n + 2)) :=
  correct_event (idle_run data_size link timing ins n) _

/-- The driver says the same to a controller that answers the words heard at the pins. -/
theorem said_heard (addr : BitVec 16) : ∃ words, ∀ n,
    (pinEvent data_size link timing ins n).said =
      (event heard data_size ⟨addr, ()⟩ words n).said := by
  refine ⟨fun n => (pinEvent data_size link timing ins n).word,
    said_of_answers rfl fun n s a v hhears => ?_⟩
  have hword : (pinEvent data_size link timing ins n).word = v := congrArg PinEvent.word hhears
  rw [← hword]
  exact heard_answer _ _ _

/-- What is stored to the keycode PIO has just been read at the pins. -/
theorem stores_run (n : ℕ) : (pinEvent data_size link timing ins n).Stores
    (pinEvent data_size link timing ins (n + 1)) := by
  obtain ⟨words, hsaid⟩ := said_heard data_size link timing ins 0x0000#16
  cases hevent : pinEvent data_size link timing ins (n + 1) with
  | issues s cmd =>
    cases cmd with
    | keycode k =>
      have hstore := hsaid (n + 1)
      rw [hevent] at hstore
      obtain ⟨s', hstore⟩ := Event.eq_issues_of_said hstore.symm
      have hreported : Reported (event heard data_size ⟨0x0000#16, ()⟩ words n)
        (event heard data_size ⟨0x0000#16, ()⟩ words (n + 1)) := reported n
      rw [hstore] at hreported
      obtain ⟨v, ⟨h, -, hread⟩, hk⟩ := hreported
      have hhears := hsaid n
      rw [hread] at hhears
      obtain ⟨t, hhears⟩ := Event.eq_hears_of_said hhears
      refine ⟨t, v, hhears, ?_, hk⟩
      -- The first two events are not reads.
      cases n with
      | zero => cases hhears
      | succ n =>
        cases n with
        | zero => cases hhears
        | succ n => exact correct_run data_size link timing ins n
    | _ => trivial
  | _ => trivial

end Run

/-- Whatever the timing is, what the chip does and what the bus reads while nobody drives
it, the driver at the pins says what it says to some controller at the port. This much holds
of any environment, and carries over only what is proved, of every controller, of commands and
words heard. From the second step on, when `IO_init` is over, its calls are correct at the
pins, which says nothing of the data of an `IO_write`, and a keycode that it stores is one
that the chip drives in the call before. -/
theorem said_at_pins (data_size : BitVec 8) (link : Link) (timing : Timing) (ins : ℕ → Timing)
    (addr : BitVec 16) : ∃ words : ℕ → BitVec 16,
      (∀ n, (pinEvent data_size link timing ins n).said =
        (event heard data_size ⟨addr, ()⟩ words n).said) ∧
      (∀ n ≥ 2, PinEvent.Correct (pinEvent data_size link timing ins n)) ∧
      ∀ n, (pinEvent data_size link timing ins n).Stores
        (pinEvent data_size link timing ins (n + 1)) := by
  obtain ⟨words, hsaid⟩ := said_heard data_size link timing ins addr
  refine ⟨words, hsaid, fun n hn => ?_, stores_run data_size link timing ins⟩
  obtain ⟨m, rfl⟩ : ∃ m, n = m + 2 := ⟨n - 2, by omega⟩
  exact correct_run data_size link timing ins m

end Driver
