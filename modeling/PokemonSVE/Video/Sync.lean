-- SUMMARY: The sync outputs of `VGA_controller` along the scan, and how it settles into the scan from any power-up values.
import PokemonSVE.Rtl.VgaController

/-!
# Sync and power-up

The counters have ten bits and are compared for equality with their totals, so that a
power-up value past the total is not caught: it counts on to 1023 and wraps. A line
that starts out of range costs up to 224 ticks, a row out of range up to 499 lines.
After that the counters scan for ever, and `Reset` is not needed for it.
-/

namespace VgaController

/-- The registers after `n` edges from `r` without `Reset`. -/
def runFrom (r : Regs) (n : ℕ) : Regs := Driven.run Regs.posedge r (fun _ => false) n

theorem runFrom_succ (r : Regs) (n : ℕ) : runFrom r (n + 1) = (runFrom r n).posedge false := rfl

theorem runFrom_add (r : Regs) (m n : ℕ) : runFrom r (m + n) = runFrom (runFrom r m) n :=
  Driven.run_add m n

/-- The sync outputs are those of the pixel: the sync pulses are low in columns 656 to
751 and on lines 490 and 491, and the picture is columns 0 to 639 of lines 0 to 479. -/
structure Synced (r : Regs) : Prop where
  hs : r.VGA_HS = false ↔ 656 ≤ r.pixel.1 ∧ r.pixel.1 < 752
  vs : r.VGA_VS = false ↔ 490 ≤ r.pixel.2 ∧ r.pixel.2 < 492
  blank : r.VGA_BLANK_N = true ↔ r.pixel.1 < 640 ∧ r.pixel.2 < 480

/-- The outputs are registered together with the counters. -/
theorem synced_posedge (r : Regs) : Synced (r.posedge false) where
  hs := by simp [Regs.posedge, Regs.pixel, BitVec.le_def, BitVec.lt_def]
  vs := by simp [Regs.posedge, Regs.pixel, BitVec.le_def, BitVec.lt_def]
  blank := by simp [Regs.posedge, Regs.pixel, BitVec.lt_def]

/-! ## Settling -/

/-- The pixel is one of the frame. -/
def InRange (r : Regs) : Prop := r.pixel.1 < 800 ∧ r.pixel.2 < 525

/-- The ticks until the counters are in range. -/
def settle (r : Regs) : ℕ :=
  (if 800 ≤ r.pixel.1 then 1024 - r.pixel.1 else 0) +
    if 525 ≤ r.pixel.2 then 800 * (1024 - r.pixel.2) - (if r.pixel.1 < 800 then r.pixel.1 else 0)
    else 0

theorem settle_le (r : Regs) : settle r ≤ 399424 := by
  unfold settle
  split_ifs <;> omega

theorem inRange_of_settle {r : Regs} (h : settle r = 0) : InRange r := by
  have hx : r.pixel.1 < 1024 := r.hCounter.isLt
  have hy : r.pixel.2 < 1024 := r.vCounter.isLt
  unfold settle at h
  unfold InRange
  split_ifs at h <;> omega

/-- What an edge does to the counters, in range or not. -/
theorem posedge_pixel_any (r : Regs) :
    (r.posedge false).pixel =
      (if r.pixel.1 = 799 then 0 else (r.pixel.1 + 1) % 1024,
        if r.pixel.1 = 799 then (if r.pixel.2 = 524 then 0 else (r.pixel.2 + 1) % 1024)
        else r.pixel.2) := by
  have hx : r.hCounter + 1#10 = hTotal ↔ r.pixel.1 = 799 := by
    unfold hTotal Regs.pixel
    bv_omega
  have hy : r.vCounter + 1#10 = vTotal ↔ r.pixel.2 = 524 := by
    unfold vTotal Regs.pixel
    bv_omega
  have hsuccx : (r.hCounter + 1#10).toNat = (r.pixel.1 + 1) % 1024 := by simp [Regs.pixel]
  have hsuccy : (r.vCounter + 1#10).toNat = (r.pixel.2 + 1) % 1024 := by simp [Regs.pixel]
  rw [← hsuccx, ← hsuccy]
  simp only [← hx, ← hy]
  simp only [Regs.posedge, Regs.pixel, Regs.hCounterIn, Regs.vCounterIn, Bool.false_eq_true,
    if_false]
  split_ifs <;> rfl

/-- Every tick takes one off. -/
theorem settle_posedge {r : Regs} (h : settle r ≠ 0) : settle (r.posedge false) + 1 = settle r := by
  have hx : r.pixel.1 < 1024 := r.hCounter.isLt
  have hy : r.pixel.2 < 1024 := r.vCounter.isLt
  have hnext := posedge_pixel_any r
  unfold settle at h ⊢
  by_cases hline : r.pixel.1 = 799
  · -- The line ends, and the row goes on to the next one or wraps.
    rw [if_pos hline, if_pos hline] at hnext
    rw [hnext]
    simp only
    split_ifs at h ⊢ <;> omega
  · rw [if_neg hline, if_neg hline] at hnext
    rw [hnext]
    simp only
    rcases Nat.lt_or_ge r.pixel.1 799 with hlt | hge
    · rw [Nat.mod_eq_of_lt (by omega)]
      split_ifs at h ⊢ <;> omega
    · split_ifs at h ⊢ <;> omega

theorem inRange_settled (r : Regs) : InRange (runFrom r (settle r)) := by
  have hdown := Driven.countdown (b := fun k => settle (runFrom r k)) (I := fun _ => True) (m := 0)
    trivial (fun k _ _ hk => ⟨settle_posedge hk, trivial⟩) (le_refl (settle r))
  simp only [Nat.zero_add] at hdown
  exact inRange_of_settle (by simpa [runFrom] using hdown.1)

theorem scan_of_inRange {r : Regs} (h : InRange r) :
    r.pixel = Raster.scan 800 525 (800 * r.pixel.2 + r.pixel.1) := by
  obtain ⟨hx, hy⟩ := h
  rw [Raster.scan, Prod.ext_iff]
  simp only
  omega

/-- From a pixel of the frame on the counters scan. -/
theorem runFrom_pixel {r : Regs} {q : ℕ} (h : r.pixel = Raster.scan 800 525 q) (n : ℕ) :
    (runFrom r n).pixel = Raster.scan 800 525 (q + n) := by
  induction n with
  | zero => exact h
  | succ n ih =>
    have hx : (runFrom r n).pixel.1 < 800 := by
      rw [ih]
      exact Raster.scan_fst_lt (by decide) _
    have hy : (runFrom r n).pixel.2 < 525 := by
      rw [ih]
      exact Raster.scan_snd_lt (by decide) _
    rw [runFrom_succ, posedge_pixel hx hy, ih, Raster.tick_scan (by decide) (by decide)]
    rfl

/-- Once they are in range the counters scan. -/
theorem pixel_settled (r : Regs) : ∃ q < 420000, ∀ n,
    (runFrom r (settle r + n)).pixel = Raster.scan 800 525 (q + n) := by
  have hin := inRange_settled r
  refine ⟨800 * (runFrom r (settle r)).pixel.2 + (runFrom r (settle r)).pixel.1, ?_, fun n => ?_⟩
  · obtain ⟨hx, hy⟩ := hin
    omega
  · rw [runFrom_add]
    exact runFrom_pixel (scan_of_inRange hin) n

/-- From any power-up values, and without `Reset`, the controller scans the frame after
at most 399424 ticks, and from the next tick on its outputs are those of the pixel. -/
theorem settles (r : Regs) : ∃ d ≤ 399424, ∃ q < 420000, ∀ n,
    (runFrom r (d + n)).pixel = Raster.scan 800 525 (q + n) ∧
      Synced (runFrom r (d + n + 1)) := by
  obtain ⟨q, hq, hscan⟩ := pixel_settled r
  exact ⟨settle r, settle_le r, q, hq, fun n => ⟨hscan n, synced_posedge _⟩⟩

end VgaController
