-- SUMMARY: The registers of `lab8` on `CLOCK_50`: the game runs frame by frame from any power-up, and `Reset` reaches it only in the cycle in which `VGA_VS` rises.
import PokemonSVE.Basis.Clock
import PokemonSVE.Game.System
import PokemonSVE.Video.Sync
import PokemonSVE.Video.WritePort

/-!
# lab8 on its clock

`Reset_h` is clocked by `Clk`, the VGA controller by `VGA_CLK`, which the PLL
`vga_clk` makes of `Clk` at half its rate and in phase, and the game by the two edges
of the register `VGA_VS`. So `VGA_VS` moves with an edge of `Clk`, and what it clocks
reads the nets behind that edge.
-/

namespace Lab8

open Game (System FrameIn)
open Clocked (Machine Falls Rises Period Frames)
open Video (InFrame)

structure Regs where
  Reset_h : Bool
  /-- The level of the output of the PLL. -/
  VGA_CLK : Bool
  vga : VgaController.Regs
  game : System

/-- What comes from outside in a cycle of `Clk`: the push buttons, which are active
low, the PIO register `keycode`, and the net `atBounds`. -/
structure Pins where
  KEY : BitVec 4
  keycode : BitVec 8
  atBounds : Bool

/-- All registers 0. -/
def powerUp : Regs where
  Reset_h := false
  VGA_CLK := false
  vga := .onReset
  game := ⟨⟨.startScreen, 0#6, 0#2, 0#6, 0#5⟩, ⟨.notTile, 0#6, 0#10, 0#10⟩, Game.powerUp⟩

/-- No button is pressed, and no key. -/
def Pins.idle : Pins := ⟨0xF#4, 0#8, false⟩

/-- What the game reads at an edge of `VGA_VS`, with `charIsRunning` from `KEY[1]`. -/
def Pins.frameIn (p : Pins) (Reset_h : Bool) : FrameIn :=
  ⟨p.keycode, !p.KEY.getLsbD 1, p.atBounds, p.keycode, Reset_h⟩

/-- The game as a machine of the clock `VGA_VS`. -/
def gameMachine : Machine System FrameIn := ⟨System.negedge, System.posedge⟩

/-- The registers after a `posedge Clk`. -/
def Regs.posedge (r : Regs) (p : Pins) : Regs :=
  let Reset_h := !p.KEY.getLsbD 0
  let vga := if r.VGA_CLK then r.vga else r.vga.posedge r.Reset_h
  { Reset_h := Reset_h
    VGA_CLK := !r.VGA_CLK
    vga := vga
    game := gameMachine.edge r.vga.VGA_VS vga.VGA_VS r.game (p.frameIn Reset_h) }

section Run

variable (r : Regs) (pins : ℕ → Pins)

/-- The registers in cycle `n` of `Clk`. -/
def run (n : ℕ) : Regs := Driven.run Regs.posedge r pins n

/-- `VGA_VS` as a waveform. -/
def VGA_VS (n : ℕ) : Bool := (run r pins n).vga.VGA_VS

/-- The inputs of the frame between a fall and a rise of `VGA_VS`. -/
def frameIn (e : ℕ × ℕ) : FrameIn :=
  ⟨(pins e.1).keycode, !(pins e.1).KEY.getLsbD 1, (pins e.1).atBounds, (pins e.2).keycode,
    !(pins e.2).KEY.getLsbD 0⟩

theorem run_succ (n : ℕ) : run r pins (n + 1) = (run r pins n).posedge (pins n) := rfl

theorem run_add (m n : ℕ) :
    run r pins (m + n) = run (run r pins m) (fun k => pins (m + k)) n :=
  Driven.run_add m n

/-- The game is the machine of `VGA_VS`. -/
theorem run_game (n : ℕ) :
    (run r pins n).game =
      Clocked.run gameMachine (VGA_VS r pins) r.game
        (fun k => (pins k).frameIn (!(pins k).KEY.getLsbD 0)) n := by
  induction n with
  | zero => rfl
  | succ n ih =>
    rw [Clocked.run, ← ih]
    rfl

/-- A frame of that machine is a frame of the game. -/
theorem gameMachine_frame (s : System) (e : ℕ × ℕ) :
    gameMachine.frame s ((pins e.1).frameIn (!(pins e.1).KEY.getLsbD 0),
      (pins e.2).frameIn (!(pins e.2).KEY.getLsbD 0)) = s.frame (frameIn pins e) := rfl

theorem gameMachine_fall (s : System) (e : ℕ × ℕ) :
    gameMachine.fall s ((pins e.1).frameIn (!(pins e.1).KEY.getLsbD 0)) =
      s.negedge (frameIn pins e) := rfl

/-! ## Reset -/

variable {r pins}

/-- `VGA_VS` rises only in cycles in which `Reset_h` is low: the VGA controller, which
drives it, has the same reset. -/
theorem reset_low_of_rises {n : ℕ} (h : Rises (VGA_VS r pins) n) :
    (run r pins n).Reset_h = false := by
  obtain ⟨hlow, hhigh⟩ := h
  unfold VGA_VS at hlow hhigh
  rw [run_succ] at hhigh
  cases hreset : (run r pins n).Reset_h with
  | false => rfl
  | true =>
    simp only [Regs.posedge, hreset, VgaController.Regs.posedge, if_true] at hhigh
    split_ifs at hhigh
    · rw [hlow] at hhigh
      cases hhigh
    · cases hhigh

variable (r pins)

/-- `Reset` does not reset the game. On any power-up and any pins, between two cycles
in which `VGA_VS` is high the game runs through whole frames, and the only frames with
`Reset` are those at whose positive edge `Reset_h` rises in the same cycle. -/
theorem frames_without_reset {m n : ℕ} (hmn : m ≤ n) (hm : VGA_VS r pins m = true)
    (hn : VGA_VS r pins n = true) :
    ∃ es, Frames (VGA_VS r pins) m n es ∧
      (run r pins n).game =
        es.foldl (fun s e => s.frame (frameIn pins e)) (run r pins m).game ∧
      ∀ e ∈ es, (frameIn pins e).reset = true ↔
        Rises (fun k => (run r pins k).Reset_h) e.2 := by
  obtain ⟨es, hes, hrun, -⟩ := Clocked.exists_frames gameMachine r.game
    (fun k => (pins k).frameIn (!(pins k).KEY.getLsbD 0)) hmn hm
  refine ⟨es, hes, ?_, fun e he => ?_⟩
  · rw [run_game, run_game, hrun hn]
    rfl
  · exact ⟨fun h => ⟨reset_low_of_rises (hes.rises e he), h⟩, fun h => h.2⟩

/-- `KEY[0]` for three cycles, early in the first frame: `VGA_VS` falls and rises again,
and the game takes a frame. -/
def pressReset (n : ℕ) : Pins := if 3 ≤ n ∧ n < 6 then ⟨0xE#4, 0#8, false⟩ else .idle

theorem frames_without_reset_press :
    ∃ es, Frames (VGA_VS powerUp pressReset) 1 9 es ∧
      (run powerUp pressReset 9).game =
        es.foldl (fun s e => s.frame (frameIn pressReset e)) (run powerUp pressReset 1).game ∧
      ∀ e ∈ es, (frameIn pressReset e).reset = true ↔
        Rises (fun k => (run powerUp pressReset k).Reset_h) e.2 :=
  frames_without_reset powerUp pressReset (by decide) (by decide) (by decide)

/-! ## The scan -/

/-- The VGA controller is at the first pixel of a frame, and `Reset` is over. -/
structure Regs.AtOrigin (r : Regs) : Prop where
  reset : r.Reset_h = false
  clk : r.VGA_CLK = true
  pixel : r.vga.pixel = (0, 0)

/-- `KEY[0]` is never pressed. -/
def NoReset (pins : ℕ → Pins) : Prop := ∀ n, (pins n).KEY.getLsbD 0 = true

section Scan

variable {r pins} (hkey : NoReset pins)
include hkey

theorem reset_low_of_noReset (h : r.Reset_h = false) (n : ℕ) :
    (run r pins n).Reset_h = false := by
  cases n with
  | zero => exact h
  | succ n =>
    rw [run_succ]
    simp [Regs.posedge, hkey n]

omit hkey in
theorem clk_run (h : r.VGA_CLK = true) (n : ℕ) :
    (run r pins n).VGA_CLK = decide (n % 2 = 0) := by
  induction n with
  | zero => exact h
  | succ n ih =>
    have hnext : (run r pins (n + 1)).VGA_CLK = !(run r pins n).VGA_CLK := rfl
    rw [hnext, ih]
    by_cases heven : n % 2 = 0
    · have hodd : ¬ (n + 1) % 2 = 0 := by omega
      simp [heven, hodd]
    · have hodd : (n + 1) % 2 = 0 := by omega
      simp [heven, hodd]

/-- The controller takes one tick in two cycles. -/
theorem vga_run (hreset : r.Reset_h = false) (hclk : r.VGA_CLK = true) (n : ℕ) :
    (run r pins n).vga = VgaController.runFrom r.vga (n / 2) := by
  induction n with
  | zero => rfl
  | succ n ih =>
    have hnext : (run r pins (n + 1)).vga =
        if (run r pins n).VGA_CLK then (run r pins n).vga
        else (run r pins n).vga.posedge (run r pins n).Reset_h := rfl
    rw [hnext, reset_low_of_noReset hkey hreset, clk_run hclk, ih]
    by_cases heven : n % 2 = 0
    · have hhalf : (n + 1) / 2 = n / 2 := by omega
      simp [heven, hhalf]
    · have hhalf : (n + 1) / 2 = n / 2 + 1 := by omega
      simp [heven, hhalf, VgaController.runFrom_succ]

omit hkey in
theorem Regs.AtOrigin.scan (h : r.AtOrigin) : r.vga.pixel = Raster.scan 800 525 0 := by
  rw [h.pixel]
  rfl

/-- `DrawX` and `DrawY` follow the scan. -/
theorem pixel_run (h : r.AtOrigin) (n : ℕ) : (run r pins n).vga.pixel = Video.pixel n := by
  rw [vga_run hkey h.reset h.clk, VgaController.runFrom_pixel h.scan, Video.pixel,
    VgaController.run_pixel, Nat.zero_add]

theorem vs_run (h : r.AtOrigin) {n : ℕ} (hn : 2 ≤ n) :
    VGA_VS r pins n = false ↔ 490 ≤ (Video.pixel n).2 ∧ (Video.pixel n).2 < 492 := by
  obtain ⟨q, hq⟩ : ∃ q, n / 2 = q + 1 := ⟨n / 2 - 1, by omega⟩
  have hsync := (VgaController.synced_posedge (VgaController.runFrom r.vga q)).vs
  rw [← VgaController.runFrom_succ, ← hq, ← vga_run hkey h.reset h.clk] at hsync
  rw [← pixel_run hkey h]
  exact hsync

/-- In every frame of the scan `VGA_VS` falls once and rises once: it is low on lines
490 and 491. -/
theorem period_run (h : r.AtOrigin) (f : ℕ) :
    Period (VGA_VS r pins) (2 + f * 840000) (783999 + f * 840000) (787199 + f * 840000)
      (2 + (f + 1) * 840000) := by
  have hrow {k q : ℕ} (hk : 2 ≤ k) (hhalf : k / 2 = f * 420000 + q) (hq : q < 420000) :
      VGA_VS r pins k = false ↔ 490 ≤ q / 800 ∧ q / 800 < 492 := by
    rw [vs_run hkey h hk, Video.pixel_of_half hhalf hq]
  have hhigh {k q : ℕ} (hk : 2 ≤ k) (hhalf : k / 2 = f * 420000 + q) (hq : q < 420000)
      (hout : q < 392000 ∨ 393600 ≤ q) : VGA_VS r pins k = true := by
    rw [← Bool.not_eq_false, hrow hk hhalf hq]
    omega
  refine ⟨by omega, by omega, by omega, fun k hk hkf => ?_, fun k hf hk => ?_, fun k hr hk => ?_⟩
  · exact hhigh (q := k / 2 - f * 420000) (by omega) (by omega) (by omega) (by omega)
  · rw [hrow (q := k / 2 - f * 420000) (by omega) (by omega) (by omega)]
    omega
  · rcases Nat.lt_or_ge (k / 2) ((f + 1) * 420000) with hlt | hge
    · exact hhigh (q := k / 2 - f * 420000) (by omega) (by omega) (by omega) (by omega)
    · -- The first pixels of the next frame.
      have hhalf : k / 2 = (f + 1) * 420000 + (k / 2 - (f + 1) * 420000) := by omega
      rw [← Bool.not_eq_false, vs_run hkey h (by omega), Video.pixel_of_half hhalf (by omega)]
      omega

/-! ## Frames -/

omit hkey in
variable (r pins) in
/-- The cycles of the two edges of `VGA_VS` in frame `f` of the scan. -/
def edges (f : ℕ) : ℕ × ℕ := (783999 + f * 840000, 787199 + f * 840000)

variable (r pins) in
/-- The game after `f` frames. -/
def frames (f : ℕ) : System :=
  Driven.run System.frame (run r pins 2).game (fun k => frameIn pins (edges k)) f

omit hkey in
theorem frames_succ (f : ℕ) :
    frames r pins (f + 1) = (frames r pins f).frame (frameIn pins (edges f)) :=
  Driven.run_succ f

theorem game_frames (h : r.AtOrigin) (f : ℕ) :
    (run r pins (2 + f * 840000)).game = frames r pins f := by
  induction f with
  | zero => rw [frames, Driven.run_zero, Nat.zero_mul]
  | succ f ih =>
    have hperiod := period_run hkey h f
    rw [run_game, hperiod.run_high_again hperiod.rise_lt le_rfl, ← run_game, ih, frames_succ]
    exact gameMachine_frame pins _ (edges f)

/-- In every cycle of a frame the game is in the state of the frame, until `VGA_VS`
falls and rises. -/
theorem game_run (h : r.AtOrigin) {f t : ℕ} (ht : InFrame f t) (h2 : 2 ≤ t) :
    (run r pins t).game =
      if t ≤ (edges f).1 then frames r pins f
      else if t ≤ (edges f).2 then (frames r pins f).negedge (frameIn pins (edges f))
      else frames r pins (f + 1) := by
  obtain ⟨hlo, hhi⟩ := ht
  have hperiod := period_run hkey h f
  have hstart := game_frames hkey h f
  rw [run_game] at hstart ⊢
  have hedges : edges f = (783999 + f * 840000, 787199 + f * 840000) := rfl
  have hfall := gameMachine_fall pins (frames r pins f) (edges f)
  have hframe := gameMachine_frame pins (frames r pins f) (edges f)
  simp only [hedges] at hfall hframe ⊢
  split_ifs with hlow hhigh
  · rcases Nat.lt_or_ge t (2 + f * 840000) with hlt | hge
    · -- The two cycles of the first pixel belong to the period before.
      obtain ⟨e, rfl⟩ : ∃ e, f = e + 1 := ⟨f - 1, by omega⟩
      have hbefore := period_run hkey h e
      rw [← hstart, hbefore.run_high_again (k := t) (by omega) (by omega),
        hbefore.run_high_again hbefore.rise_lt le_rfl]
    · rw [hperiod.run_high hge hlow, hstart]
  · rw [hperiod.run_low (by omega) hhigh, hstart, hfall]
  · rw [hperiod.run_high_again (by omega) (by omega), hstart, hframe, frames_succ, hedges]

/-! ## Power-up -/

omit hkey in
theorem NoReset.shift (hkey : NoReset pins) (m : ℕ) : NoReset fun k => pins (m + k) :=
  fun n => hkey (m + n)

/-- From any power-up values the scan comes to the first pixel of a frame. -/
theorem exists_atOrigin : ∃ t₀ ≤ 1638850, (run r pins t₀).AtOrigin := by
  obtain ⟨t₁, ht₁, hreset, hclk⟩ : ∃ t₁ ≤ 2, (run r pins t₁).Reset_h = false ∧
      (run r pins t₁).VGA_CLK = true := by
    have hlow (n : ℕ) : (run r pins (n + 1)).Reset_h = false := by
      rw [run_succ]
      simp [Regs.posedge, hkey n]
    cases hr : r.VGA_CLK with
    | false => exact ⟨1, by decide, hlow 0, by simp [run, Driven.run, Regs.posedge, hr]⟩
    | true => exact ⟨2, by decide, hlow 1, by simp [run, Driven.run, Regs.posedge, hr]⟩
  obtain ⟨q, hq, hscan⟩ := VgaController.pixel_settled (run r pins t₁).vga
  have hd := VgaController.settle_le (run r pins t₁).vga
  generalize VgaController.settle (run r pins t₁).vga = d at hd hscan
  have hshift : NoReset fun k => pins (t₁ + k) := hkey.shift t₁
  have hhalf : 2 * (d + (420000 - q)) / 2 = d + (420000 - q) := by omega
  have heven : 2 * (d + (420000 - q)) % 2 = 0 := by omega
  refine ⟨t₁ + 2 * (d + (420000 - q)), by omega, ?_⟩
  rw [run_add]
  refine ⟨reset_low_of_noReset hshift hreset _, ?_, ?_⟩
  · rw [clk_run hclk, heven]
    rfl
  · have horigin : q + (420000 - q) = 420000 := by omega
    rw [vga_run hshift hreset hclk, hhalf, hscan, horigin]
    rfl

omit hkey in
variable (r pins) in
/-- Without `KEY[0]` the board runs the game frame by frame, from any power-up values:
from some cycle on there is one frame of the game in every 840000 cycles, and it reads
the pins in the two cycles in which lines 490 and 492 of the scan begin, and in no
other. -/
theorem runs_frames (hkey : NoReset pins) : ∃ t₀ ≤ 1638850,
    let frames := frames (run r pins t₀) fun k => pins (t₀ + k)
    ∀ f t, InFrame f t → 2 ≤ t →
      (run r pins (t₀ + t)).vga.pixel = Video.pixel t ∧
      (run r pins (t₀ + t)).game =
        if t ≤ (edges f).1 then frames f
        else if t ≤ (edges f).2 then
          (frames f).negedge (frameIn (fun k => pins (t₀ + k)) (edges f))
        else frames (f + 1) := by
  obtain ⟨t₀, ht₀, horigin⟩ := exists_atOrigin (r := r) hkey
  refine ⟨t₀, ht₀, fun f t ht h2 => ?_⟩
  rw [run_add]
  exact ⟨pixel_run (hkey.shift t₀) horigin t, game_run (hkey.shift t₀) horigin ht h2⟩

end Scan

theorem noReset_idle : NoReset fun _ => .idle := by
  intro n
  change Pins.idle.KEY.getLsbD 0 = true
  decide

theorem runs_frames_powerUp : ∃ t₀ ≤ 1638850,
    let frames := frames (run powerUp (fun _ => .idle) t₀) fun _ => .idle
    ∀ f t, InFrame f t → 2 ≤ t →
      (run powerUp (fun _ => .idle) (t₀ + t)).vga.pixel = Video.pixel t ∧
      (run powerUp (fun _ => .idle) (t₀ + t)).game =
        if t ≤ (edges f).1 then frames f
        else if t ≤ (edges f).2 then (frames f).negedge (frameIn (fun _ => .idle) (edges f))
        else frames (f + 1) :=
  runs_frames powerUp (fun _ => .idle) noReset_idle

end Run

end Lab8
