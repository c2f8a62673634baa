-- SUMMARY: The two edges of a frame and the step counter: when a walked pixel belongs to a step, and when a step moves for 32 frames.
import PokemonSVE.Game.Stepping

/-!
# The two edges of a frame

At rest `charIsMoving` follows `keycode`, which is not registered: `frameDrawer`
reads it at the negative edge of `VGA_VS`, `gameFSM` begins the step at the
positive edge, and software may write the keycode between the two.
-/

namespace Game

section Phases

variable (drawer : FrameDrawer.Regs) (ins : ℕ → FrameIn)

/-- `charIsMoving` at the negative edge of frame `n`. -/
def Moving (n : ℕ) : Prop :=
  (GameFSM.comb (run drawer ins n).fsm (ins n).keycodeNeg).charIsMoving = true

instance : DecidablePred (Moving drawer ins) := fun _ => inferInstanceAs (Decidable (_ = _))

/-- The negative edges before frame `n` with `charIsMoving` up. -/
def movingEdges (n : ℕ) : ℕ := Nat.count (Moving drawer ins) n

/-- The step that begins at the positive edge of frame `m` is over with that of
frame `c`, which is in the main game, off the tiles and not at the bounds. -/
structure CompletesStep (m c : ℕ) : Prop where
  begins : BeginsStep drawer ins m
  later : m < c
  busy : ∀ k, m < k → k ≤ c → ¬ (run drawer ins k).fsm.Idle
  quiet : ∀ k, m < k → k ≤ c → (ins k).reset = false
  atRest : (run drawer ins (c + 1)).fsm.Idle
  draw : (run drawer ins c).fsm.state = .drawMainGame
  tile : (run drawer ins c).atTile = false
  bounds : (ins c).atBounds = false

/-- A pixel walked in frame `n` belongs to a step in progress, or one begins. -/
def WalksInStep (n : ℕ) : Prop :=
  (run drawer ins n).Walks (ins n) →
    ¬ (run drawer ins n).fsm.Idle ∨ ¬ (run drawer ins (n + 1)).fsm.Idle

/-- Every pixel walked belongs to a step, and every step that is completed moves at
32 negative edges. -/
def PhasesAgree : Prop :=
  (∀ n, WalksInStep drawer ins n) ∧
    ∀ m c, CompletesStep drawer ins m c →
      movingEdges drawer ins (c + 1) = movingEdges drawer ins m + 32

variable {drawer ins}

/-! ## A walked pixel -/

/-- At rest nothing but the key of the facing at the positive edge begins a step. -/
theorem beginsStep_iff {n : ℕ} (hdraw : (run drawer ins n).fsm.state = .drawMainGame)
    (hidle : (run drawer ins n).fsm.Idle) :
    ¬ (run drawer ins (n + 1)).fsm.Idle ↔ BeginsStep drawer ins n := by
  have hnext : (run drawer ins (n + 1)).fsm =
      (run drawer ins n).fsm.posedge (ins n).reset (ins n).keycodePos := rfl
  constructor
  · intro hbusy
    rw [hnext] at hbusy
    cases hr : (ins n).reset with
    | true =>
      rw [hr] at hbusy
      exact absurd (by decide : (GameFSM.Regs.onReset).Idle) hbusy
    | false =>
      rw [hr] at hbusy
      refine ⟨hdraw, hidle, hr, ?_⟩
      by_contra hkey
      exact hbusy (GameFSM.posedge_of_other hdraw hidle hkey)
  · rintro ⟨-, -, hr, hkey⟩ hrest
    rw [hnext, hr, hkey, GameFSM.Regs.Idle, (GameFSM.posedge_of_facingKey hdraw hidle).1] at hrest
    exact absurd hrest (by decide)

theorem walksInStep_iff (n : ℕ) :
    WalksInStep drawer ins n ↔
      ((run drawer ins n).Walks (ins n) → (run drawer ins n).fsm.Idle →
        (ins n).reset = false ∧
          (ins n).keycodePos = GameFSM.facingKey (run drawer ins n).fsm.direction) := by
  refine forall_congr' fun hwalks => ?_
  by_cases hidle : (run drawer ins n).fsm.Idle
  · simp only [hidle, not_true_eq_false, false_or, true_imp_iff, beginsStep_iff hwalks.1 hidle,
      BeginsStep, hwalks.1, true_and]
  · simp only [hidle, not_false_eq_true, true_or, false_imp_iff]

/-! ## The edges of a step -/

/-- With a step in progress `charIsMoving` is up in the frames of the main game. -/
theorem movingEdges_of_busy {m c : ℕ} (hmc : m < c)
    (hbusy : ∀ k, m < k → k < c → ¬ (run drawer ins k).fsm.Idle) :
    movingEdges drawer ins c + mainFrames drawer ins (m + 1) =
      movingEdges drawer ins (m + 1) + mainFrames drawer ins c := by
  induction c, hmc using Nat.le_induction with
  | base => rfl
  | succ c hmc ih =>
    have hprev := ih fun k hk hkc => hbusy k hk (by omega)
    have hiff : Moving drawer ins c ↔ (run drawer ins c).fsm.state = .drawMainGame := by
      rw [Moving, GameFSM.comb_charIsMoving]
      simp [hbusy c hmc (by omega)]
    have hedge : movingEdges drawer ins (c + 1) =
        movingEdges drawer ins c + if Moving drawer ins c then 1 else 0 := Nat.count_succ _ _
    have hframe : mainFrames drawer ins (c + 1) = mainFrames drawer ins c +
        if (run drawer ins c).fsm.state = .drawMainGame then 1 else 0 := Nat.count_succ _ _
    rw [hedge, hframe]
    simp only [hiff]
    omega

theorem mainFrames_succ_le (n : ℕ) :
    mainFrames drawer ins (n + 1) ≤ mainFrames drawer ins n + 1 := by
  by_cases hmain : (run drawer ins n).fsm.state = .drawMainGame
  · exact (mainFrames_succ_of_main hmain).le
  · exact (mainFrames_succ_of_not_main hmain).le.trans (Nat.le_succ _)

/-- As long as a step is in progress it has counted at most 30 frames. -/
theorem mainFrames_of_busy {m c : ℕ} (hbegin : BeginsStep drawer ins m) (hmc : m < c)
    (hbusy : ∀ k, m < k → k ≤ c → ¬ (run drawer ins k).fsm.Idle)
    (hquiet : ∀ k, m < k → k < c → (ins k).reset = false) :
    mainFrames drawer ins c ≤ mainFrames drawer ins (m + 1) + 30 := by
  induction c, hmc using Nat.le_induction with
  | base => exact Nat.le_add_right _ 30
  | succ c hmc ih =>
    have hprev := ih (fun k hk hkc => hbusy k hk (by omega))
      (fun k hk hkc => hquiet k hk (by omega))
    have hle : mainFrames drawer ins (c + 1) ≤ mainFrames drawer ins c + 1 := mainFrames_succ_le c
    have hcount := tilecounter_of_begun hbegin (by omega) hquiet (by omega)
    have hne : (run drawer ins (c + 1)).fsm.tilecounter ≠ 31#5 := hbusy (c + 1) (by omega) le_rfl
    have hlt : (run drawer ins (c + 1)).fsm.tilecounter.toNat ≤ 30 := by bv_omega
    omega

/-- A completed step has counted 31 frames of the main game. -/
theorem CompletesStep.mainFrames {m c : ℕ} (h : CompletesStep drawer ins m c) :
    mainFrames drawer ins (c + 1) = mainFrames drawer ins (m + 1) + 31 := by
  have hle := mainFrames_of_busy h.begins h.later h.busy fun k hk hkc => h.quiet k hk hkc.le
  have hlast := mainFrames_succ_of_main h.draw
  have hcount := tilecounter_of_begun h.begins (n := c + 1) (by have := h.later; omega)
    (fun k hk hkc => h.quiet k hk (by omega)) (by omega)
  have h31 : (run drawer ins (c + 1)).fsm.tilecounter = 31#5 := h.atRest
  rw [h31] at hcount
  simp only [BitVec.toNat_ofNat] at hcount
  omega

/-- A completed step moves at 31 edges with its count, and at the one before it
began if the key was already down there. -/
theorem CompletesStep.movingEdges {m c : ℕ} (h : CompletesStep drawer ins m c) :
    movingEdges drawer ins (c + 1) = movingEdges drawer ins m + 31 +
      if (ins m).keycodeNeg = GameFSM.facingKey (run drawer ins m).fsm.direction then 1
      else 0 := by
  have hmain := h.mainFrames
  have hbusy := movingEdges_of_busy (c := c + 1) (by have := h.later; omega)
    fun k hk hkc => h.busy k hk (by omega)
  have hfirst : Game.movingEdges drawer ins (m + 1) = Game.movingEdges drawer ins m +
      if Moving drawer ins m then 1 else 0 := Nat.count_succ _ _
  have hiff : Moving drawer ins m ↔
      (ins m).keycodeNeg = GameFSM.facingKey (run drawer ins m).fsm.direction := by
    rw [Moving, GameFSM.comb_charIsMoving]
    simp [h.begins.1, h.begins.2.1]
  simp only [hiff] at hfirst
  omega

end Phases

/-- The two edges agree in a run exactly if, at rest, the key that makes the
character take a pixel at the negative edge is still down at the positive edge, and
the key that begins a step at the positive edge was already down at the negative
one. -/
theorem phasesAgree_iff (drawer : FrameDrawer.Regs) (ins : ℕ → FrameIn) :
    PhasesAgree drawer ins ↔
      (∀ n, (run drawer ins n).Walks (ins n) → (run drawer ins n).fsm.Idle →
        (ins n).reset = false ∧
          (ins n).keycodePos = GameFSM.facingKey (run drawer ins n).fsm.direction) ∧
      ∀ m c, CompletesStep drawer ins m c →
        (ins m).keycodeNeg = GameFSM.facingKey (run drawer ins m).fsm.direction := by
  refine and_congr (forall_congr' walksInStep_iff) ?_
  refine forall_congr' fun m => forall_congr' fun c => forall_congr' fun h => ?_
  have hedges := h.movingEdges
  split_ifs at hedges with hkey
  · simp only [hkey, iff_true]
    omega
  · simp only [hkey, iff_false]
    omega

/-- `W` comes down between the two edges of a frame, and stays down. -/
def lateKey : List (ℕ × FrameIn) := openGame ++ [(1, ⟨0#8, false, false, GameFSM.keyW, false⟩)]

/-- The step that begins there moves at 31 edges. -/
theorem not_phasesAgree_lateKey :
    ¬ PhasesAgree powerUp (Driven.script (.press GameFSM.keyW) lateKey) := by
  have hin : ∀ k, Driven.script (.press GameFSM.keyW) lateKey (53 + k) = .press GameFSM.keyW :=
    fun k => Driven.script_of_length_le _ (Nat.le_add_right 53 k)
  have hrun : ∀ k, run powerUp (Driven.script (.press GameFSM.keyW) lateKey) (53 + k) =
      Driven.held System.frame (.press GameFSM.keyW) k
        (Driven.play System.frame lateKey (.onReset powerUp)) :=
    fun k => run_script (.press GameFSM.keyW) lateKey k
  have hbusy : ∀ k < 31, ¬ (Driven.held System.frame (.press GameFSM.keyW) k
      (Driven.play System.frame lateKey (.onReset powerUp))).fsm.Idle := by decide +kernel
  have hbegin : BeginsStep powerUp (Driven.script (.press GameFSM.keyW) lateKey) 52 :=
    ⟨by decide +kernel, by decide +kernel, by decide +kernel, by decide +kernel⟩
  have hstep : CompletesStep powerUp (Driven.script (.press GameFSM.keyW) lateKey) 52 83 :=
    { begins := hbegin
      later := by decide
      busy := fun k hk hkc => by
        obtain ⟨j, rfl⟩ := Nat.exists_eq_add_of_lt hk
        rw [Nat.add_right_comm, hrun]
        exact hbusy j (by omega)
      quiet := fun k hk _ => by
        obtain ⟨j, rfl⟩ := Nat.exists_eq_add_of_lt hk
        rw [Nat.add_right_comm, hin]
        rfl
      atRest := by rw [hrun 31]; decide +kernel
      draw := by rw [hrun 30]; decide +kernel
      tile := by rw [hrun 30]; decide +kernel
      bounds := by rw [hin 30]; rfl }
  intro h
  have hcount := h.2 52 83 hstep
  have hedges := hstep.movingEdges
  rw [if_neg (by decide +kernel)] at hedges
  omega

end Game
