-- SUMMARY: From the keyboard to the screen: with a controller that works in the end, holding Enter starts the game, on any power-up of the board and any past of the driver.
import PokemonSVE.Board.Clocking
import PokemonSVE.Usb.Report
import Mathlib.Order.Monotone.Basic

/-!
# The keyboard and the game

The CPU takes the steps of the driver at its own pace, and the PIO register that the
driver stores to is the net `keycode`, which the game reads at the edges of `VGA_VS`.
-/

namespace Lab8

open Game (System)
open Driver (Chip Hpi)
open Video (InFrame)

/-! ## The game, with Enter held -/

/-- No input takes the game to the state `hold`. -/
theorem ne_hold_run {r : Regs} (h : r.game.fsm.state ≠ .hold) (pins : ℕ → Pins) (n : ℕ) :
    (run r pins n).game.fsm.state ≠ .hold := by
  induction n with
  | zero => exact h
  | succ n ih =>
    have hedge (before after : Bool) (i : Game.FrameIn) :
        (gameMachine.edge before after (run r pins n).game i).fsm.state ≠ .hold := by
      cases before <;> cases after
      · exact ih
      · exact GameFSM.posedge_ne_hold ih _ _
      · exact ih
      · exact ih
    exact hedge _ _ _

section Frames

variable {r : Regs} {pins : ℕ → Pins}

/-- The game comes to the main game, and stays there. -/
theorem main_of_enter {F : ℕ} (hF : (frames r pins F).fsm.state ≠ .hold)
    (henter : ∀ f ≥ F, (frameIn pins (edges f)).keycodePos = GameFSM.keyEnter)
    (hreset : ∀ f, (frameIn pins (edges f)).reset = false) :
    ∀ f ≥ F + 65, (frames r pins f).fsm.state = .drawMainGame := by
  have hfsm {f : ℕ} (hf : F ≤ f) : (frames r pins (f + 1)).fsm =
      (frames r pins f).fsm.posedge false GameFSM.keyEnter := by
    rw [frames_succ, System.frame_fsm, hreset, henter f hf]
  obtain ⟨hzero, hhold⟩ := Driven.countdown (b := fun f => (frames r pins f).fsm.untilMain)
    (I := fun f => (frames r pins f).fsm.state ≠ .hold) (m := F) hF (fun f hf hhold hleft => by
      have hmain : (frames r pins f).fsm.state ≠ .drawMainGame :=
        fun hs => hleft (GameFSM.untilMain_of_main hs)
      rw [hfsm hf]
      exact ⟨GameFSM.untilMain_posedge hhold hmain, GameFSM.posedge_ne_hold hhold _ _⟩)
    (Nat.le_refl _)
  have hle := GameFSM.Regs.untilMain_le (frames r pins F).fsm
  have hmain : (frames r pins (F + (frames r pins F).fsm.untilMain)).fsm.state = .drawMainGame := by
    by_contra hmain
    have hpos := GameFSM.Regs.untilMain_pos hhold hmain
    omega
  intro f hf
  refine Driven.hold_while (P := fun f => (frames r pins f).fsm.state = .drawMainGame)
    (G := fun _ => True) hmain (fun k hk _ hs => ?_) f (by omega) fun _ _ _ => trivial
  rw [hfsm (by omega)]
  exact GameFSM.posedge_enter_main hs

end Frames

/-! ## The net keycode -/

/-- The CPU has taken `steps t` steps of the driver by cycle `t`, in the order of time and
without end. -/
structure Pace (steps : ℕ → ℕ) : Prop where
  mono : Monotone steps
  unbounded : ∀ n, ∃ t, n ≤ steps t

section Keyboard

variable {σ ι : Type} (chip : Chip σ ι) (data_size : BitVec 8) (h : Hpi σ) (ins : ℕ → ι)

/-- The net `keycode` of the board is the register of the PIO. -/
def Wired (steps : ℕ → ℕ) (pins : ℕ → Pins) : Prop :=
  ∀ t, (pins t).keycode = Driver.data_out chip data_size h ins (steps t)

/-- Holding Enter starts the game: from any registers of the board but the state `hold`,
which the game does not use, and from any past of the driver and the controller, if in
the end the controller works and every report has Enter, then in the end the game is on. -/
theorem enter_starts_game
    (hsucceeds : ∃ n, Driver.SucceedsFrom chip data_size h ins n)
    (hfair : Driver.Fair chip data_size h ins)
    (hheld : ∃ n, Driver.HeldFrom chip data_size h ins GameFSM.keyEnter n)
    {steps : ℕ → ℕ} (hpace : Pace steps) {pins : ℕ → Pins}
    (hwired : Wired chip data_size h ins steps pins) (hkey : NoReset pins) {r : Regs}
    (hr : r.game.fsm.state ≠ .hold) :
    ∃ T, ∀ t ≥ T, (run r pins t).game.fsm.state = .drawMainGame := by
  obtain ⟨n, hheld⟩ := hheld
  obtain ⟨m, hm⟩ := Driver.data_out_of_held hheld (Driver.recurs_passesOn hsucceeds hfair)
  obtain ⟨t₁, ht₁⟩ := hpace.unbounded m
  have henter (t : ℕ) (ht : t₁ ≤ t) : (pins t).keycode = GameFSM.keyEnter := by
    rw [hwired t]
    exact hm _ (ht₁.trans (hpace.mono ht))
  obtain ⟨t₀, -, horigin⟩ := exists_atOrigin (r := r) hkey
  have hshift := hkey.shift t₀
  have hstart : (frames (run r pins t₀) (fun k => pins (t₀ + k)) t₁).fsm.state ≠ .hold := by
    rw [← game_frames hshift horigin]
    exact ne_hold_run (ne_hold_run hr pins t₀) _ _
  have hedges (f : ℕ) (hf : t₁ ≤ f) :
      (frameIn (fun k => pins (t₀ + k)) (edges f)).keycodePos = GameFSM.keyEnter := by
    refine henter _ ?_
    change t₁ ≤ t₀ + (787199 + f * 840000)
    omega
  have hnoReset (f : ℕ) : (frameIn (fun k => pins (t₀ + k)) (edges f)).reset = false := by
    have hpressed := hshift (edges f).2
    simp only [frameIn, hpressed, Bool.not_true]
  have hmain := main_of_enter hstart hedges hnoReset
  refine ⟨t₀ + (t₁ + 65) * 840000 + 2, fun t ht => ?_⟩
  obtain ⟨j, rfl⟩ : ∃ j, t = t₀ + j := ⟨t - t₀, by omega⟩
  have hf : t₁ + 65 ≤ j / 840000 := by omega
  have hframe : InFrame (j / 840000) j := ⟨by omega, by omega⟩
  rw [run_add, game_run hshift horigin hframe (by omega)]
  split_ifs
  · exact hmain _ hf
  · exact hmain _ hf
  · exact hmain _ (by omega)

end Keyboard

/-- A board with a CPU that takes a step in every cycle, and no button pressed. -/
def enterPins (t : ℕ) : Pins where
  KEY := 0xF#4
  keycode := Driver.data_out Driver.lateChip 0x00#8 Driver.lateStart (fun _ => ()) t
  atBounds := false

theorem noReset_enterPins : NoReset enterPins := by
  intro t
  change (0xF#4).getLsbD 0 = true
  decide

theorem enter_starts_game_powerUp :
    ∃ T, ∀ t ≥ T, (run powerUp enterPins t).game.fsm.state = .drawMainGame :=
  enter_starts_game Driver.lateChip 0x00#8 Driver.lateStart (fun _ => ())
    ⟨200, Driver.succeedsFrom_lateChip⟩ Driver.fair_lateChip ⟨200, Driver.held_lateChip⟩
    (⟨monotone_id, fun n => ⟨n, le_rfl⟩⟩ : Pace id) (fun _ => rfl) noReset_enterPins
    (r := powerUp) (by decide)

end Lab8
