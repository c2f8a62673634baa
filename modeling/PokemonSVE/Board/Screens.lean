-- SUMMARY: What the monitor shows between two games: the last picture of the old game, frozen, and then a black screen from the second frame of the fade to the first line of the new game.
import PokemonSVE.Board.Display

/-!
# The screens between two games

The start screen disables the write port, so that the frame buffer keeps the picture
it has. The first frame of the fade writes black below the line that it displays, and
the rest of the fade finds the frame buffer black.
-/

namespace Video

open FrameDrawer (PixelIn InWindow)
open FramebufferRam (depth)

namespace PowerUp

variable {p : PowerUp} {ins : ℕ → PixelIn} {f n : ℕ}

/-- What a word has at the start of some frames and every write of these carries, the word
keeps. -/
theorem frameBuffer_while {P : BitVec 24 → Prop} {a : Fin depth}
    (h0 : P (p.frameBuffer ins (f * 840000) a))
    (hw : ∀ k < n, ∀ i, InFrame (f + k) i → ∀ v,
      written p.ram p.FBdata_In (p.sprites ins) i = some (a, v) → P v)
    {t : ℕ} (ht : f * 840000 ≤ t) (ht' : t ≤ (f + n) * 840000) :
    P (p.frameBuffer ins t a) := by
  rw [frameBuffer_eq, buffer_eq_contents] at h0 ⊢
  refine Memory.contents_invariant ht h0 fun i hi hit v hv => ?_
  -- Cycle `i` is in one of the frames.
  have hframe : InFrame (f + (i / 840000 - f)) i := by
    unfold InFrame
    omega
  exact hw (i / 840000 - f) (by omega) i hframe v hv

/-- The start screen keeps the frame buffer. -/
theorem frameBuffer_start
    (hstart : ∀ k < n, ∀ t, InFrame (f + k) t → InWindow (pixel t) → (ins t).stateNum = 0#4)
    {t : ℕ} (ht : f * 840000 ≤ t) (ht' : t ≤ (f + n) * 840000) (a : Fin depth) :
    p.frameBuffer ins t a = p.frameBuffer ins (f * 840000) a := by
  refine frameBuffer_while (P := (· = p.frameBuffer ins (f * 840000) a)) rfl ?_ ht ht'
  intro k hk i hi v hv
  obtain ⟨c, -, hc, hwin, hstate, -⟩ := exists_of_written hi hv
  exact absurd (hstart k hk c hc hwin) hstate

/-- The fade keeps a black frame buffer black. -/
theorem frameBuffer_black (hfade : ∀ k < n, Fades ins (f + k))
    (hblack : ∀ a, p.frameBuffer ins (f * 840000) a = 0#24)
    {t : ℕ} (ht : f * 840000 ≤ t) (ht' : t ≤ (f + n) * 840000) (a : Fin depth) :
    p.frameBuffer ins t a = 0#24 := by
  refine frameBuffer_while (P := (· = 0#24)) (hblack a) ?_ ht ht'
  intro k hk i hi v hv
  have hsprites : Fades (p.sprites ins) (f + k) := hfade k hk
  exact written_of_fades hsprites hi hv

/-- From its own pixel on a word is black in a frame of the fade. -/
theorem frameBuffer_of_fades (hfade : Fades ins f) {x y t : ℕ} (hx : x < 240) (hy : y < 160)
    (ht : cycleOf f x y 0 + 1 < t) (hframe : t ≤ (f + 1) * 840000) :
    p.frameBuffer ins t (word hx hy) = 0#24 := by
  have hsprites : Fades (p.sprites ins) f := hfade
  have hon : ∀ t, InFrame f t → InWindow (pixel t) → (p.sprites ins t).stateNum ≠ 0#4 := by
    intro t hin hwin
    rw [hsprites t hin hwin]
    decide
  have ha : (word hx hy).val = addressAfter x y 0 := by
    rw [addressAfter, if_pos rfl, word_val]
  have hin := (inFrame_cycleOf (f := f) hx hy (b := 0) (by decide)).2
  have hwrite : written p.ram p.FBdata_In (p.sprites ins) (cycleOf f x y 0 + 1) =
      some (word hx hy, (nets p.ram p.FBdata_In (p.sprites ins) (cycleOf f x y 0)).next_pixel) :=
    written_word hon hx hy (by decide) ha
  rw [written_of_fades hsprites hin hwrite] at hwrite
  rw [frameBuffer_eq, buffer_eq_contents]
  exact Memory.contents_of_written hin.1 ht hwrite fun k hk hkt v hv =>
    written_of_fades hsprites ⟨hk, Nat.lt_of_lt_of_le hkt hframe⟩ hv

/-- After it the whole frame buffer is black. -/
theorem frameBuffer_succ_of_fades (hfade : Fades ins f) (a : Fin depth) :
    p.frameBuffer ins ((f + 1) * 840000) a = 0#24 := by
  have hsprites : Fades (p.sprites ins) f := hfade
  rw [frameBuffer_eq]
  exact bufferAt_succ_of_fades hsprites a

/-- A black frame buffer gives a black monitor one cycle later, wherever the scan is. -/
theorem colour_of_black {t : ℕ} (h : ∀ a, p.frameBuffer ins t a = 0#24) :
    p.colour ins (t + 1) = 0#24 := by
  have hread : (p.pixelNets ins (t + 1)).FBdata_Out =
      (drawing p.ram p.FBdata_In (p.sprites ins) t).ram.word
        (scanned ins t).FBread_address := rfl
  have hword : (p.pixelNets ins (t + 1)).FBdata_Out = 0#24 := by
    rw [hread, FramebufferRam.Regs.word]
    split_ifs with hlt
    · have hcell := h ⟨_, hlt⟩
      rw [frameBuffer_eq] at hcell
      exact hcell
    · rfl
  unfold colour PixelIn.R PixelIn.G PixelIn.B
  rw [hword]
  split_ifs <;> rfl

end PowerUp

end Video

namespace Lab8

open Game (System)
open FrameDrawer (InWindow)
open Video (InFrame PowerUp readCycle word cycleOf)

section Run

variable (r : Regs) (m : PowerUp) (pins : ℕ → Pins)

/-- `{VGA_R, VGA_G, VGA_B}` in cycle `t`. -/
def monitor (t : ℕ) : BitVec 24 := (top r m pins t).colour (pins t)

/-- The contents of `FBRam` in cycle `t`. -/
def FBRam (t : ℕ) : Fin FramebufferRam.depth → BitVec 24 :=
  (top r m pins t).drawer.drawing.ram.mem

/-- What the monitor shows when the start screen comes in frame `g` and the fade after
frame `f`, with `n` frames of the fade after its first. -/
structure Between (g f n : ℕ) : Prop where
  /-- The start screen shows what the frame buffer has at its first frame. -/
  frozen : ∀ k, g ≤ k → k ≤ f → ∀ x y i j, ∀ hx : x < 240, ∀ hy : y < 160, i < 2 → j < 2 →
    monitor r m pins (readCycle k x y i j 1) = FBRam r m pins (g * 840000) (word hx hy)
  fades : ∀ k ≤ n, (frames r pins (f + 1 + k)).fsm.state = .fade
  /-- So does the first line of the first frame of the fade. All other lines are black. -/
  first : ∀ x y i j, ∀ hx : x < 240, ∀ hy : y < 160, i < 2 → j < 2 →
    monitor r m pins (readCycle (f + 1) x y i j 1) =
      if y + j = 0 then FBRam r m pins (g * 840000) (word hx hy) else 0#24
  /-- The other frames of the fade are black. -/
  black : ∀ t, (f + 2) * 840000 ≤ t → t < (f + 2 + n) * 840000 → monitor r m pins t = 0#24
  main : (frames r pins (f + 2 + n)).fsm.state = .drawMainGame
  /-- So is the first line of the new game. -/
  line : ∀ x i, x < 240 → i < 2 → monitor r m pins (readCycle (f + 2 + n) x 0 i 0 1) = 0#24

variable {r m pins} (hkey : NoReset pins) (h : r.AtOrigin)
include hkey h

theorem FBRam_eq (t : ℕ) : FBRam r m pins t = m.frameBuffer (pixelIns r pins) t := by
  rw [FBRam, top_drawer hkey h]
  rfl

/-- In the window `state_num` is that of the frame. -/
theorem stateNum_frame {f t : ℕ} (ht : InFrame f t) (hwin : InWindow (Video.pixel t)) :
    (pixelIns r pins t).stateNum = (frames r pins f).fsm.state.num := by
  have hstate : (pixelIns r pins t).stateNum = (run r pins t).game.fsm.state.num :=
    scanned_stateNum r pins t
  rw [hstate, game_window hkey h ht hwin]

theorem fades_frame {f : ℕ} (hfade : (frames r pins f).fsm.state = .fade) :
    Video.Fades (pixelIns r pins) f := by
  intro t ht hwin
  rw [stateNum_frame hkey h ht hwin, hfade]
  rfl

omit h in
theorem reset_frameIn (e : ℕ × ℕ) : (frameIn pins e).reset = false := by
  have hkey0 := hkey e.2
  simp only [frameIn, hkey0, Bool.not_true]

omit h in
/-- Once it is on, the fade takes as many frames as it has left, whatever the keys are. -/
theorem fade_run {e : ℕ} (hfade : (frames r pins e).fsm.state = .fade) {k : ℕ}
    (hk : k ≤ (frames r pins e).fsm.fadeLeft) :
    (frames r pins (e + k)).fsm.state = .fade ∧
      (frames r pins (e + k)).fsm.fadeLeft + k = (frames r pins e).fsm.fadeLeft := by
  obtain ⟨hleft, hstate⟩ := Driven.countdown (b := fun f => (frames r pins f).fsm.fadeLeft)
    (I := fun f => (frames r pins f).fsm.state = .fade) (m := e) hfade (fun f _ hstate hleft => by
      rw [frames_succ, System.frame_fsm, reset_frameIn hkey]
      exact ((GameFSM.posedge_fade hstate _).2 hleft).symm) hk
  exact ⟨hstate, hleft⟩

omit h in
theorem main_of_fade {e : ℕ} (hfade : (frames r pins e).fsm.state = .fade) :
    (frames r pins (e + (frames r pins e).fsm.fadeLeft + 1)).fsm.state = .drawMainGame := by
  obtain ⟨hstate, hleft⟩ := fade_run hkey hfade le_rfl
  rw [frames_succ, System.frame_fsm, reset_frameIn hkey]
  exact (GameFSM.posedge_fade hstate _).1 (by omega)

end Run

/-- Between two games, from any registers at the origin of a frame and any contents of the
memories, without `KEY[0]`: the start screen shows the last picture of the old game, the fade
blanks it in its first frame below the first line, and the monitor is black from then on until
the second line of the new game. -/
theorem screens_between (r : Regs) (m : PowerUp) (pins : ℕ → Pins) (hkey : NoReset pins)
    (h : r.AtOrigin) {g f : ℕ} (hgf : g ≤ f)
    (hstart : ∀ k, g ≤ k → k ≤ f → (frames r pins k).fsm.state = .startScreen)
    (hfade : (frames r pins (f + 1)).fsm.state = .fade) :
    Between r m pins g f (frames r pins (f + 1)).fsm.fadeLeft := by
  have hmonitor (t : ℕ) : monitor r m pins t = m.colour (pixelIns r pins) t :=
    top_colour hkey h t
  have hshown (f x y i j : ℕ) : monitor r m pins (readCycle f x y i j 1) =
      m.shown (pixelIns r pins) f x y i j := hmonitor _
  have hstate (k : ℕ) (hk : k < f + 1 - g) (t : ℕ) (ht : InFrame (g + k) t)
      (hwin : InWindow (Video.pixel t)) : (pixelIns r pins t).stateNum = 0#4 := by
    rw [stateNum_frame hkey h ht hwin, hstart (g + k) (by omega) (by omega)]
    rfl
  have hkept {t : ℕ} (ht : g * 840000 ≤ t) (ht' : t ≤ (f + 1) * 840000) :
      m.frameBuffer (pixelIns r pins) t = FBRam r m pins (g * 840000) := by
    rw [FBRam_eq hkey h]
    funext a
    have hframes : g + (f + 1 - g) = f + 1 := by omega
    refine PowerUp.frameBuffer_start hstate ht ?_ a
    rwa [hframes]
  have hfades (k : ℕ) (hk : k ≤ (frames r pins (f + 1)).fsm.fadeLeft) :
      (frames r pins (f + 1 + k)).fsm.state = .fade := (fade_run hkey hfade hk).1
  have hfirst := fades_frame hkey h hfade
  have hblack {t : ℕ} (ht : (f + 2) * 840000 ≤ t)
      (ht' : t ≤ (f + 2 + (frames r pins (f + 1)).fsm.fadeLeft) * 840000)
      (a : Fin FramebufferRam.depth) : m.frameBuffer (pixelIns r pins) t a = 0#24 := by
    refine PowerUp.frameBuffer_black (fun k hk => ?_)
      (PowerUp.frameBuffer_succ_of_fades hfirst) ht ht' a
    have hnext : f + 2 + k = f + 1 + (k + 1) := by omega
    rw [hnext]
    exact fades_frame hkey h (hfades (k + 1) hk)
  refine ⟨?_, hfades, ?_, ?_, ?_, ?_⟩
  · intro k hgk hkf x y i j hx hy hi hj
    obtain ⟨hlo, hhi⟩ := Video.inFrame_readCycle (f := k) hx hy hi hj (b := 0) (by decide)
    have hsame := hkept (Nat.le_trans (Nat.mul_le_mul_right _ hgk) hlo)
      (Nat.le_trans (Nat.le_of_lt hhi) (Nat.mul_le_mul_right _ (Nat.succ_le_succ hkf)))
    rw [hshown, PowerUp.shown_eq hx hy hi hj, hsame]
  · intro x y i j hx hy hi hj
    obtain ⟨hlo, hhi⟩ := Video.inFrame_readCycle (f := f + 1) hx hy hi hj (b := 0) (by decide)
    rw [hshown]
    split_ifs with hline
    · have hsame := hkept (Nat.mul_le_mul_right _ (Nat.le_succ_of_le hgf)) le_rfl
      rw [Video.shown_first hx hy hi hj hline, hsame]
    · rw [PowerUp.shown_eq hx hy hi hj]
      refine PowerUp.frameBuffer_of_fades hfirst hx hy ?_ (Nat.le_of_lt hhi)
      unfold cycleOf readCycle
      omega
  · intro t ht ht'
    rw [hmonitor]
    rcases Nat.eq_or_lt_of_le ht with rfl | hlt
    · -- The first pixel of the frame is outside the display.
      refine PowerUp.colour_of_not_inDisplay fun hin => ?_
      have hpixel := Video.pixel_of_half (t := (f + 2) * 840000) (f := f + 2) (q := 0)
        (by omega) (by decide)
      rw [Video.inDisplay_iff, hpixel] at hin
      exact absurd hin.1 (by decide)
    · obtain ⟨s, rfl⟩ : ∃ s, t = s + 1 := ⟨t - 1, by omega⟩
      exact PowerUp.colour_of_black fun a => hblack (by omega) (by omega) a
  · have hmain := main_of_fade hkey hfade
    have hnext : f + 1 + (frames r pins (f + 1)).fsm.fadeLeft + 1 =
        f + 2 + (frames r pins (f + 1)).fsm.fadeLeft := by omega
    rwa [hnext] at hmain
  · intro x i hx hi
    rw [hshown, Video.shown_first hx (by decide) hi (by decide) rfl]
    exact hblack (Nat.mul_le_mul_right _ (by omega)) le_rfl _

/-- The board in the start screen, with the scan at its origin. -/
def inStart : Regs where
  Reset_h := false
  VGA_CLK := true
  vga := { VgaController.Regs.onReset with VGA_VS := true }
  game := { inGame.game with fsm := .onReset }

/-- Enter is held. -/
def enterHeld (_ : ℕ) : Pins := ⟨0xF#4, GameFSM.keyEnter, false⟩

theorem screens_between_onReset : Between inStart Video.plainMap enterHeld 0 0 50 := by
  have horigin : inStart.AtOrigin := ⟨rfl, rfl, rfl⟩
  have hkey : NoReset enterHeld := fun n => by
    change (0xF#4).getLsbD 0 = true
    decide
  have hfade : (frames inStart enterHeld 1).fsm.state = .fade := by decide
  have hleft : (frames inStart enterHeld 1).fsm.fadeLeft = 50 := by decide
  have hbetween := screens_between inStart Video.plainMap enterHeld hkey horigin (g := 0) (f := 0)
    le_rfl (fun k _ hk => by
      obtain rfl : k = 0 := by omega
      decide) hfade
  rwa [hleft] at hbetween

end Lab8
