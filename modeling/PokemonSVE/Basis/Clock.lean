-- SUMMARY: Machines with a step for each edge of a clock: what stands still between edges, what a period does, and the frames of a run.
import PokemonSVE.Basis.Run

/-!
# Derived clocks

A clock is a waveform, sampled by the ticks of a faster clock. A machine of the clock
takes one step on its falling edges and another on its rising edges, and a frame is a
falling edge with the rising edge after it. Everything here is about arbitrary
machines and waveforms.
-/

namespace Clocked

variable {σ ι : Type*}

/-- A machine with a step for each edge of its clock. -/
structure Machine (σ ι : Type*) where
  fall : σ → ι → σ
  rise : σ → ι → σ

/-- The state after a tick over which the clock goes from one level to another. -/
def Machine.edge (M : Machine σ ι) (before after : Bool) (s : σ) (i : ι) : σ :=
  match before, after with
  | true, false => M.fall s i
  | false, true => M.rise s i
  | _, _ => s

/-- A falling edge and the next rising edge. -/
def Machine.frame (M : Machine σ ι) (s : σ) (i : ι × ι) : σ := M.rise (M.fall s i.1) i.2

/-- The state after `n` ticks. Tick `n` takes the clock from level `n` to level `n + 1`. -/
def run (M : Machine σ ι) (clk : ℕ → Bool) (s : σ) (ins : ℕ → ι) : ℕ → σ
  | 0 => s
  | n + 1 => M.edge (clk n) (clk (n + 1)) (run M clk s ins n) (ins n)

/-- Tick `n` is a falling edge. -/
def Falls (clk : ℕ → Bool) (n : ℕ) : Prop := clk n = true ∧ clk (n + 1) = false

/-- Tick `n` is a rising edge. -/
def Rises (clk : ℕ → Bool) (n : ℕ) : Prop := clk n = false ∧ clk (n + 1) = true

instance (clk : ℕ → Bool) (n : ℕ) : Decidable (Falls clk n) := inferInstanceAs (Decidable (_ ∧ _))
instance (clk : ℕ → Bool) (n : ℕ) : Decidable (Rises clk n) := inferInstanceAs (Decidable (_ ∧ _))

section Run

variable {M : Machine σ ι} {clk : ℕ → Bool} {s : σ} {ins : ℕ → ι} {n : ℕ}

theorem run_fall (h : Falls clk n) :
    run M clk s ins (n + 1) = M.fall (run M clk s ins n) (ins n) := by
  rw [run, h.1, h.2]
  rfl

theorem run_rise (h : Rises clk n) :
    run M clk s ins (n + 1) = M.rise (run M clk s ins n) (ins n) := by
  rw [run, h.1, h.2]
  rfl

theorem run_still (h : clk (n + 1) = clk n) : run M clk s ins (n + 1) = run M clk s ins n := by
  rw [run, h]
  cases clk n <;> rfl

/-- While the clock keeps its level the state stays. -/
theorem run_of_level {v : Bool} {a b : ℕ} (hab : a ≤ b)
    (h : ∀ k, a ≤ k → k ≤ b → clk k = v) : run M clk s ins b = run M clk s ins a := by
  induction b, hab using Nat.le_induction with
  | base => rfl
  | succ b hab ih =>
    have hlevel : clk (b + 1) = clk b :=
      (h (b + 1) (by omega) (by omega)).trans (h b hab (by omega)).symm
    rw [run_still hlevel]
    exact ih fun k hk hkb => h k hk (by omega)

/-! ## Periods -/

/-- From tick `a` to tick `b` the clock is high, falls in tick `f`, and rises in
tick `r`. -/
structure Period (clk : ℕ → Bool) (a f r b : ℕ) : Prop where
  le_fall : a ≤ f
  fall_lt : f < r
  rise_lt : r < b
  high : ∀ k, a ≤ k → k ≤ f → clk k = true
  low : ∀ k, f < k → k ≤ r → clk k = false
  high_again : ∀ k, r < k → k ≤ b → clk k = true

section Period

variable {a f r b k : ℕ} (h : Period clk a f r b)
include h

theorem Period.run_high (ha : a ≤ k) (hk : k ≤ f) : run M clk s ins k = run M clk s ins a :=
  run_of_level ha fun j hj hjk => h.high j hj (by omega)

theorem Period.run_low (hf : f < k) (hk : k ≤ r) :
    run M clk s ins k = M.fall (run M clk s ins a) (ins f) := by
  have hedge : Falls clk f := ⟨h.high f h.le_fall le_rfl, h.low (f + 1) (by omega) (by omega)⟩
  have hlevel : run M clk s ins k = run M clk s ins (f + 1) :=
    run_of_level hf fun j hj hjk => h.low j (by omega) (by omega)
  rw [hlevel, run_fall hedge, h.run_high h.le_fall le_rfl]

/-- After a period a frame is over. -/
theorem Period.run_high_again (hr : r < k) (hk : k ≤ b) :
    run M clk s ins k = M.frame (run M clk s ins a) (ins f, ins r) := by
  have hedge : Rises clk r :=
    ⟨h.low r h.fall_lt le_rfl, h.high_again (r + 1) (by omega) (by omega)⟩
  have hlevel : run M clk s ins k = run M clk s ins (r + 1) :=
    run_of_level hr fun j hj hjk => h.high_again j (by omega) (by omega)
  rw [hlevel, run_rise hedge, h.run_low h.fall_lt le_rfl]
  rfl

end Period

/-! ## The frames of a run -/

/-- From tick `m` to tick `n`, the edges in `es` are the frames. -/
structure Frames (clk : ℕ → Bool) (m n : ℕ) (es : List (ℕ × ℕ)) : Prop where
  ordered : ∀ e ∈ es, m ≤ e.1 ∧ e.1 < e.2 ∧ e.2 < n
  falls : ∀ e ∈ es, Falls clk e.1
  rises : ∀ e ∈ es, Rises clk e.2

/-- The state after the frames of a list. -/
def Machine.frames (M : Machine σ ι) (ins : ℕ → ι) (s : σ) (es : List (ℕ × ℕ)) : σ :=
  es.foldl (fun s e => M.frame s (ins e.1, ins e.2)) s

theorem Frames.succ {m n : ℕ} {es : List (ℕ × ℕ)} (h : Frames clk m n es) :
    Frames clk m (n + 1) es where
  ordered e he := by
    obtain ⟨hm, hlt, hn⟩ := h.ordered e he
    exact ⟨hm, hlt, by omega⟩
  falls := h.falls
  rises := h.rises

theorem Frames.concat {m n f : ℕ} {es : List (ℕ × ℕ)} (h : Frames clk m n es) (hm : m ≤ f)
    (hf : f < n) (hfall : Falls clk f) (hrise : Rises clk n) :
    Frames clk m (n + 1) (es ++ [(f, n)]) := by
  have hcases {e : ℕ × ℕ} (he : e ∈ es ++ [(f, n)]) : e ∈ es ∨ e = (f, n) := by
    rwa [List.mem_append, List.mem_singleton] at he
  refine ⟨fun e he => ?_, fun e he => ?_, fun e he => ?_⟩
  · obtain he | rfl := hcases he
    · exact h.succ.ordered e he
    · exact ⟨hm, hf, n.lt_succ_self⟩
  · obtain he | rfl := hcases he
    · exact h.falls e he
    · exact hfall
  · obtain he | rfl := hcases he
    · exact h.rises e he
    · exact hrise

/-- Whatever the clock does, between two ticks at which it is high the machine has run
through whole frames. In between it may have a frame open. -/
theorem exists_frames (M : Machine σ ι) (s : σ) (ins : ℕ → ι) {m n : ℕ} (hmn : m ≤ n)
    (hm : clk m = true) :
    ∃ es, Frames clk m n es ∧
      (clk n = true → run M clk s ins n = M.frames ins (run M clk s ins m) es) ∧
      (clk n = false → ∃ f, m ≤ f ∧ f < n ∧ Falls clk f ∧
        run M clk s ins n = M.fall (M.frames ins (run M clk s ins m) es) (ins f)) := by
  induction n, hmn using Nat.le_induction with
  | base =>
    refine ⟨[], ⟨by simp, by simp, by simp⟩, fun _ => rfl, fun hlow => ?_⟩
    rw [hm] at hlow
    cases hlow
  | succ n hmn ih =>
    obtain ⟨es, hes, hhigh, hlow⟩ := ih
    cases hn : clk n with
    | true =>
      have hrun := hhigh hn
      refine ⟨es, hes.succ, fun hn' => ?_, fun hn' => ⟨n, hmn, n.lt_succ_self, ⟨hn, hn'⟩, ?_⟩⟩
      · rw [run_still (hn'.trans hn.symm), hrun]
      · rw [run_fall ⟨hn, hn'⟩, hrun]
    | false =>
      obtain ⟨f, hmf, hfn, hfall, hrun⟩ := hlow hn
      by_cases hn' : clk (n + 1) = true
      · -- The open frame is over.
        refine ⟨es ++ [(f, n)], hes.concat hmf hfn hfall ⟨hn, hn'⟩, fun _ => ?_, fun hlow => ?_⟩
        · rw [run_rise ⟨hn, hn'⟩, hrun, Machine.frames, Machine.frames, List.foldl_append]
          rfl
        · rw [hn'] at hlow
          cases hlow
      · refine ⟨es, hes.succ, fun h => absurd h hn', fun h => ⟨f, hmf, by omega, hfall, ?_⟩⟩
        rw [run_still (h.trans hn.symm), hrun]

end Run

end Clocked
