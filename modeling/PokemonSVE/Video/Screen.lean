-- SUMMARY: What the monitor shows in a frame of the main game, pixel by pixel: the picture composed in the frame, but for its first line and one column.
import PokemonSVE.Video.Composition
import PokemonSVE.Video.Fade
import PokemonSVE.Video.Tearing

/-!
# The screen

The video DAC takes `R`, `G` and `B` at the rising edge of `VGA_CLK` that ends a pixel,
when `FBdata_Out` has the word that was addressed in the first cycle of the pixel.
Each word of the frame buffer is shown on two by two pixels.
-/

namespace Video

open FrameDrawer (PixelIn InWindow)

theorem inFrame_readCycle {f x y i j b : ℕ} (hx : x < 240) (hy : y < 160) (hi : i < 2)
    (hj : j < 2) (hb : b < 2) : InFrame f (readCycle f x y i j b) := by
  have hlt : 2 * (800 * (80 + 2 * y + j) + (80 + 2 * x + i)) + b < 840000 := by omega
  unfold InFrame readCycle
  generalize 2 * (800 * (80 + 2 * y + j) + (80 + 2 * x + i)) = q at hlt ⊢
  omega

namespace PowerUp

variable (p : PowerUp) (ins : ℕ → PixelIn)

/-- The colour on the monitor in cycle `t`. -/
def colour (t : ℕ) : BitVec 24 :=
  rgb (p.pixelNets ins t).R (p.pixelNets ins t).G (p.pixelNets ins t).B

/-- What the DAC takes for the pixel in column `i` and line `j` of the four that show the
word in column `x` of row `y`, in frame `f`. -/
def shown (f x y i j : ℕ) : BitVec 24 := p.colour ins (readCycle f x y i j 1)

variable {p ins}

theorem colour_of_not_inDisplay {t : ℕ} (h : ¬ (scanned ins t).InDisplay) :
    p.colour ins t = 0#24 := by
  have hout : ¬ (p.pixelNets ins t).InDisplay := h
  unfold colour PixelIn.R PixelIn.G PixelIn.B
  rw [if_neg hout, if_neg hout, if_neg hout]
  rfl

/-- On the display the DAC takes the word that the frame buffer had a cycle before. -/
theorem colour_succ {t : ℕ} {a : Fin FramebufferRam.depth} (h : Reads ins t a)
    (hnext : (scanned ins (t + 1)).InDisplay) : p.colour ins (t + 1) = p.frameBuffer ins t a := by
  obtain ⟨hin, haddr⟩ := h
  have hdisplay : (p.pixelNets ins (t + 1)).InDisplay := hnext
  have hword : (p.pixelNets ins (t + 1)).FBdata_Out = p.frameBuffer ins t a := by
    have hread : (p.pixelNets ins (t + 1)).FBdata_Out =
        (drawing p.ram p.FBdata_In (p.sprites ins) t).ram.word
          (scanned ins t).FBread_address := rfl
    have hlt : (scanned ins t).FBread_address.toNat < FramebufferRam.depth := by
      rw [haddr]
      exact a.isLt
    have ha : (⟨(scanned ins t).FBread_address.toNat, hlt⟩ : Fin FramebufferRam.depth) = a :=
      Fin.ext haddr
    rw [hread, FramebufferRam.Regs.word, dif_pos hlt, ha, frameBuffer_eq]
    rfl
  unfold colour PixelIn.R PixelIn.G PixelIn.B
  rw [if_pos hdisplay, if_pos hdisplay, if_pos hdisplay, hword]
  exact rgb_of _

/-- On the display the DAC takes the words of the frame buffer. -/
theorem shown_eq {f x y i j : ℕ} (hx : x < 240) (hy : y < 160) (hi : i < 2) (hj : j < 2) :
    p.shown ins f x y i j = p.frameBuffer ins (readCycle f x y i j 0) (word hx hy) := by
  have hcolumn : (word hx hy).val % 240 = x := by
    rw [word_val]
    omega
  have hrow : (word hx hy).val / 240 = y := by
    rw [word_val]
    omega
  have hreads {b : ℕ} (hb : b < 2) : Reads ins (readCycle f x y i j b) (word hx hy) := by
    have hin : InFrame f (readCycle f x y i j b) := inFrame_readCycle hx hy hi hj hb
    refine (reads_iff hin).mpr ⟨i, hi, j, hj, b, hb, ?_⟩
    rw [hcolumn, hrow]
  have hnext : readCycle f x y i j 1 = readCycle f x y i j 0 + 1 := by
    unfold readCycle
    rw [Nat.add_zero]
  have hdisplay := (hreads (b := 1) (by decide)).1
  rw [hnext] at hdisplay
  rw [shown, hnext]
  exact colour_succ (hreads (by decide)) hdisplay

end PowerUp

/-- The cycle in which the pixel is computed that is shown for the word in column `x` of
row `y` on its line `j`, if the word is written before. -/
def shownCycle (f x y j : ℕ) : ℕ :=
  if x = 160 ∧ y < 158 ∧ 3 ≤ y + j then cycleOf f 239 (y + 2) 1 else cycleOf f x y 0

section Frame

variable {p : PowerUp} {ins : ℕ → PixelIn} {f : ℕ}
  (h3 : ∀ t, InFrame f t → InWindow (pixel t) → (ins t).stateNum = 3#4)
  {x y i j : ℕ} (hx : x < 240) (hy : y < 160) (hi : i < 2) (hj : j < 2)
include hx hy hi hj

/-- The first line of the display comes before the first pixel of the window. -/
theorem shown_first (hfirst : y + j = 0) :
    p.shown ins f x y i j = p.frameBuffer ins (f * 840000) (word hx hy) := by
  rw [PowerUp.shown_eq hx hy hi hj, PowerUp.frameBuffer_eq, PowerUp.frameBuffer_eq]
  refine buffer_before ?_ ?_ _
  · unfold readCycle
    omega
  · unfold readCycle cycleOf
    omega

include h3

/-- All other lines come after the row of the window that they show. -/
theorem shown_composed (hline : y + j ≠ 0) :
    p.shown ins f x y i j =
      p.composed (scanned ins (shownCycle f x y j - 1)) (scanned ins (shownCycle f x y j)) := by
  have hframe := Nat.le_of_lt (inFrame_readCycle (f := f) hx hy hi hj (b := 0) (by decide)).2
  rw [PowerUp.shown_eq hx hy hi hj]
  unfold shownCycle
  split_ifs with hstray
  · obtain ⟨rfl, hrow, hline⟩ := hstray
    refine frameBuffer_stray h3 hrow ?_ hframe
    unfold readCycle cycleOf
    omega
  · refine frameBuffer_own h3 hx hy ?_ hframe fun hx160 hrow => ?_
    · unfold readCycle cycleOf
      omega
    · -- Here the line is shown before the end of the row two below.
      have hbefore : y + j < 3 := Nat.lt_of_not_le fun h => hstray ⟨hx160, hrow, h⟩
      unfold readCycle cycleOf
      omega

end Frame

/-- In any frame of the main game the monitor shows, on the two by two pixels of each word,
the pixel that was composed for it in the same frame, except that the first line shows what
the frame found in the frame buffer, and that column 160 shows, from line 85 to line 395, the
pixel of column 239 two rows down. Outside the display it is black. -/
theorem screen (p : PowerUp) (ins : ℕ → PixelIn) (f : ℕ)
    (h3 : ∀ t, InFrame f t → InWindow (pixel t) → (ins t).stateNum = 3#4) :
    (∀ t, ¬ (scanned ins t).InDisplay → p.colour ins t = 0#24) ∧
      ∀ x y i j, ∀ hx : x < 240, ∀ hy : y < 160, i < 2 → j < 2 →
        p.shown ins f x y i j =
          if y + j = 0 then p.frameBuffer ins (f * 840000) (word hx hy)
          else p.composed (scanned ins (shownCycle f x y j - 1))
            (scanned ins (shownCycle f x y j)) := by
  refine ⟨fun t => PowerUp.colour_of_not_inDisplay, fun x y i j hx hy hi hj => ?_⟩
  split_ifs with hfirst
  · exact shown_first hx hy hi hj hfirst
  · exact shown_composed h3 hx hy hi hj hfirst

theorem screen_atStart :
    (∀ t, ¬ (scanned (fun _ => atStart) t).InDisplay →
      plainMap.colour (fun _ => atStart) t = 0#24) ∧
      ∀ x y i j, ∀ hx : x < 240, ∀ hy : y < 160, i < 2 → j < 2 →
        plainMap.shown (fun _ => atStart) 0 x y i j =
          if y + j = 0 then plainMap.frameBuffer (fun _ => atStart) (0 * 840000) (word hx hy)
          else plainMap.composed (scanned (fun _ => atStart) (shownCycle 0 x y j - 1))
            (scanned (fun _ => atStart) (shownCycle 0 x y j)) :=
  screen plainMap (fun _ => atStart) 0 fun _ _ _ => rfl

end Video
