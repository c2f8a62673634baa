-- SUMMARY: Raster scans: a pair of nested wrapping counters visits the pixels of a rectangle row by row.
import PokemonSVE.Basis.Run

/-!
# Raster scans

A scan of a `w` by `h` rectangle goes through each row from left to right, through
the rows from top to bottom, and starts again. As a machine it is two counters;
as a function of time it is division with remainder.
-/

namespace Raster

/-- The pixel visited at time `p`. -/
def scan (w h p : ℕ) : ℕ × ℕ := (p % w, p / w % h)

/-- One tick of the nested counters. -/
def tick (w h : ℕ) (c : ℕ × ℕ) : ℕ × ℕ :=
  if c.1 + 1 = w then (0, if c.2 + 1 = h then 0 else c.2 + 1) else (c.1 + 1, c.2)

variable {w h : ℕ}

theorem scan_fst_lt (hw : 0 < w) (p : ℕ) : (scan w h p).1 < w := Nat.mod_lt p hw

theorem scan_snd_lt (hh : 0 < h) (p : ℕ) : (scan w h p).2 < h := Nat.mod_lt _ hh

private theorem succ_mod {a n : ℕ} (hn : 0 < n) :
    (a + 1) % n = if a % n + 1 = n then 0 else a % n + 1 := by
  have hlt := Nat.mod_lt a hn
  rw [Nat.add_mod_eq_ite]
  rcases Nat.lt_or_ge 1 n with h1 | h1
  · rw [Nat.mod_eq_of_lt h1]
    split_ifs <;> omega
  · obtain rfl : n = 1 := by omega
    simp [Nat.mod_one]

private theorem succ_div {a n : ℕ} (hn : 0 < n) :
    (a + 1) / n = if a % n + 1 = n then a / n + 1 else a / n := by
  have hmod := succ_mod (a := a) hn
  split_ifs at hmod ⊢ with hlast
  · exact Nat.succ_div_of_mod_eq_zero hmod
  · exact Nat.succ_div_of_mod_ne_zero (by omega)

/-- The counters scan. -/
theorem tick_scan (hw : 0 < w) (hh : 0 < h) (p : ℕ) :
    tick w h (scan w h p) = scan w h (p + 1) := by
  unfold tick scan
  rw [succ_mod hw, succ_div hw]
  split_ifs with hrow hlast
  · rw [succ_mod hh, if_pos hlast]
  · rw [succ_mod hh, if_neg hlast]
  · rfl

/-- A machine whose output ticks like the counters, on every input, scans. -/
theorem run_eq_scan {σ ι : Type*} {step : σ → ι → σ} {f : σ → ℕ × ℕ} {s : σ} {ins : ℕ → ι}
    (hw : 0 < w) (hh : 0 < h) (h0 : f s = (0, 0))
    (hstep : ∀ s p, f s = scan w h p → f (step s (ins p)) = tick w h (f s)) (p : ℕ) :
    f (Driven.run step s ins p) = scan w h p := by
  induction p with
  | zero => rw [Driven.run_zero, h0, scan, Nat.zero_mod, Nat.zero_div, Nat.zero_mod]
  | succ p ih => rw [Driven.run_succ, hstep _ p ih, ih, tick_scan hw hh]

end Raster
