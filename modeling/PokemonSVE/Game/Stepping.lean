-- SUMMARY: The step counter over a run: a step in progress is one begun fewer than 31 main-game frames ago, and what that means when a visit ends.
import PokemonSVE.Game.Visit
import Mathlib.Data.Nat.Count

/-!
# Steps

`gameFSM` counts a step from 0 up to 31, one count per frame of the main game,
and reads no key meanwhile. The counter stands still on the other screens, and
it does not know about the tile logic.
-/

namespace Game

section Steps

variable (drawer : FrameDrawer.Regs) (ins : ℕ → FrameIn)

/-- The frames before `n` that are spent in the main game. -/
def mainFrames (n : ℕ) : ℕ :=
  Nat.count (fun k => (run drawer ins k).fsm.state = .drawMainGame) n

/-- A step begins at the positive edge of frame `m`: the character is at rest and
the key of its facing is down. -/
def BeginsStep (m : ℕ) : Prop :=
  (run drawer ins m).fsm.state = .drawMainGame ∧ (run drawer ins m).fsm.Idle ∧
    (ins m).reset = false ∧
    (ins m).keycodePos = GameFSM.facingKey (run drawer ins m).fsm.direction

variable {drawer ins}

theorem mainFrames_succ_of_main {n : ℕ} (h : (run drawer ins n).fsm.state = .drawMainGame) :
    mainFrames drawer ins (n + 1) = mainFrames drawer ins n + 1 := by
  rw [mainFrames, Nat.count_succ, if_pos h, mainFrames]

theorem mainFrames_succ_of_not_main {n : ℕ}
    (h : (run drawer ins n).fsm.state ≠ .drawMainGame) :
    mainFrames drawer ins (n + 1) = mainFrames drawer ins n := by
  rw [mainFrames, Nat.count_succ, if_neg h, mainFrames, Nat.add_zero]

private theorem run_fsm_succ (n : ℕ) :
    (run drawer ins (n + 1)).fsm =
      (run drawer ins n).fsm.posedge (ins n).reset (ins n).keycodePos := rfl

/-- Until it is over, a step counts the frames of the main game. -/
theorem tilecounter_of_begun {m n : ℕ} (hbegin : BeginsStep drawer ins m) (hmn : m + 1 ≤ n)
    (hquiet : ∀ k, m < k → k < n → (ins k).reset = false)
    (hle : mainFrames drawer ins n ≤ mainFrames drawer ins (m + 1) + 31) :
    (run drawer ins n).fsm.tilecounter.toNat + mainFrames drawer ins (m + 1) =
      mainFrames drawer ins n := by
  obtain ⟨hdraw, hidle, hreset, hkey⟩ := hbegin
  induction n, hmn using Nat.le_induction with
  | base =>
    have hzero := (GameFSM.posedge_of_facingKey hdraw hidle).1
    rw [run_fsm_succ, hreset, hkey, hzero]
    simp
  | succ n hmn ih =>
    have hr : (ins n).reset = false := hquiet n (by omega) (by omega)
    have hprev := ih (fun k hk hkn => hquiet k hk (by omega))
    by_cases hmain : (run drawer ins n).fsm.state = .drawMainGame
    · rw [mainFrames_succ_of_main hmain] at hle ⊢
      have hcount := hprev (by omega)
      have hgoing : ¬ (run drawer ins n).fsm.Idle := by
        intro hi
        have hi' : (run drawer ins n).fsm.tilecounter = 31#5 := hi
        rw [hi'] at hcount
        simp only [BitVec.toNat_ofNat] at hcount
        omega
      rw [run_fsm_succ, hr, (GameFSM.posedge_of_not_idle hmain hgoing _).1,
        GameFSM.tilecounter_succ hgoing]
      omega
    · rw [mainFrames_succ_of_not_main hmain] at hle ⊢
      rw [run_fsm_succ, hr, (GameFSM.posedge_frozen hmain _).1]
      exact hprev hle

/-- A step in progress has begun fewer than 31 frames of the main game ago. -/
theorem exists_begun_of_not_idle {n : ℕ} (h : ¬ (run drawer ins n).fsm.Idle) :
    ∃ m < n, BeginsStep drawer ins m ∧ (∀ k, m < k → k < n → (ins k).reset = false) ∧
      mainFrames drawer ins n < mainFrames drawer ins (m + 1) + 31 := by
  induction n with
  | zero => exact absurd (by decide : (GameFSM.Regs.onReset).Idle) h
  | succ n ih =>
    cases hr : (ins n).reset with
    | true =>
      rw [run_fsm_succ, hr] at h
      exact absurd (by decide : (GameFSM.Regs.onReset).Idle) h
    | false =>
      rw [run_fsm_succ, hr] at h
      have hextend : ∀ m, (∀ k, m < k → k < n → (ins k).reset = false) →
          ∀ k, m < k → k < n + 1 → (ins k).reset = false := by
        intro m hquiet k hk hkn
        rcases Nat.lt_succ_iff_lt_or_eq.mp hkn with hlt | rfl
        · exact hquiet k hk hlt
        · exact hr
      by_cases hmain : (run drawer ins n).fsm.state = .drawMainGame
      · by_cases hidle : (run drawer ins n).fsm.Idle
        · -- The step begins at this very edge.
          refine ⟨n, n.lt_succ_self, ⟨hmain, hidle, hr, ?_⟩, by omega, by omega⟩
          by_contra hkey
          exact h (GameFSM.posedge_of_other hmain hidle hkey)
        · obtain ⟨m, hmn, hbegin, hquiet, hlt⟩ := ih hidle
          refine ⟨m, by omega, hbegin, hextend m hquiet, ?_⟩
          have hcount := tilecounter_of_begun hbegin hmn hquiet (by omega)
          rw [GameFSM.Regs.Idle, (GameFSM.posedge_of_not_idle hmain hidle _).1] at h
          rw [mainFrames_succ_of_main hmain]
          have hlast : (run drawer ins n).fsm.tilecounter.toNat ≠ 30 := by
            intro h30
            exact h (BitVec.eq_of_toNat_eq (by rw [GameFSM.tilecounter_succ hidle, h30]; rfl))
          omega
      · rw [GameFSM.Regs.Idle, (GameFSM.posedge_frozen hmain _).1] at h
        obtain ⟨m, hmn, hbegin, hquiet, hlt⟩ := ih h
        refine ⟨m, by omega, hbegin, hextend m hquiet, ?_⟩
        rwa [mainFrames_succ_of_not_main hmain]

/-- The character is at rest exactly if every step begun since the last `Reset`
is at least 31 frames of the main game old. -/
theorem idle_iff (n : ℕ) :
    (run drawer ins n).fsm.Idle ↔ ∀ m < n, BeginsStep drawer ins m →
      (∃ k, m < k ∧ k < n ∧ (ins k).reset = true) ∨
        mainFrames drawer ins (m + 1) + 31 ≤ mainFrames drawer ins n := by
  constructor
  · intro hidle m hmn hbegin
    by_contra hcontra
    push Not at hcontra
    have hquiet : ∀ k, m < k → k < n → (ins k).reset = false := by
      intro k hk hkn
      simpa using hcontra.1 k hk hkn
    have hcount := tilecounter_of_begun hbegin hmn hquiet (by omega)
    have hidle' : (run drawer ins n).fsm.tilecounter = 31#5 := hidle
    rw [hidle'] at hcount
    simp only [BitVec.toNat_ofNat] at hcount
    omega
  · intro hall
    by_contra hidle
    obtain ⟨m, hmn, hbegin, hquiet, hlt⟩ := exists_begun_of_not_idle hidle
    rcases hall m hmn hbegin with ⟨k, hk, hkn, hreset⟩ | hle
    · rw [hquiet k hk hkn] at hreset
      contradiction
    · omega

end Steps

/-! ## Rest after a teleport -/

/-- Whenever a visit ends in the main game, no step is in progress. -/
def RestsAtHold (drawer : FrameDrawer.Regs) (ins : ℕ → FrameIn) : Prop :=
  ∀ n, (run drawer ins n).fsm.state = .drawMainGame →
    (run drawer ins n).tile.state = .latch → (run drawer ins (n + 1)).tile.state = .hold →
    (run drawer ins (n + 1)).fsm.Idle

/-- A run gives control back at rest after its visits exactly if no step begins,
at rest with the key of the facing down, in the last 31 frames of the main game
before a visit ends. `gameFSM` does not see `atTile`, so nothing else keeps a key
held during the visit from beginning one. -/
theorem restsAtHold_iff (drawer : FrameDrawer.Regs) (ins : ℕ → FrameIn) :
    RestsAtHold drawer ins ↔
      ∀ n, (run drawer ins n).fsm.state = .drawMainGame →
        (run drawer ins n).tile.state = .latch → (run drawer ins (n + 1)).tile.state = .hold →
        ∀ m ≤ n, BeginsStep drawer ins m →
          (∃ k, m < k ∧ k ≤ n ∧ (ins k).reset = true) ∨
            mainFrames drawer ins (m + 1) + 31 ≤ mainFrames drawer ins (n + 1) := by
  have hsucc : ∀ a b : ℕ, a < b + 1 ↔ a ≤ b := fun _ _ => Nat.lt_succ_iff
  simp only [RestsAtHold, idle_iff, hsucc]

/-- Walking off the start tile and back on it, with the key held down. -/
def holdBack : List (ℕ × FrameIn) := openGame ++ [(32, .press GameFSM.keyW)]

/-- The key held down throughout the visit leaves a step in progress: its count is
8 when control comes back. -/
theorem not_restsAtHold_holdBack :
    ¬ RestsAtHold powerUp (Driven.script (.press GameFSM.keyS) holdBack) := by
  have hrun : ∀ k, run powerUp (Driven.script (.press GameFSM.keyS) holdBack) (84 + k) =
      Driven.held System.frame (.press GameFSM.keyS) k
        (Driven.play System.frame holdBack (.onReset powerUp)) :=
    fun k => run_script (.press GameFSM.keyS) holdBack k
  intro h
  have hidle := h 189 (by rw [hrun 105]; decide +kernel) (by rw [hrun 105]; decide +kernel)
    (by rw [hrun 106]; decide +kernel)
  rw [hrun 106] at hidle
  revert hidle
  decide +kernel

end Game
