-- SUMMARY: The walking animation: the step counter and the frame counter are the frames walked since the facing last changed, modulo 32 and modulo 40.
import PokemonSVE.Game.System

/-!
# The walking animation

`gameFSM` keeps two counters of the frames in which the character walks: `tilecounter`
counts the 32 frames of a step, and `charFrameCounter` the 40 frames after which the
poses repeat. The second one returns to 0 from 39 whether the character walks or not.
-/

namespace GameFSM

/-- The block counts a walking frame, and starts again when it turns the character. -/
def Comb.Counts (r : Regs) (c : Comb) : Prop :=
  c.nextCharFrameCounter =
    if c.charIsMoving then r.charFrameCounter + 1#6
    else if c.nextDirection = r.direction then r.charFrameCounter else 0#6

theorem keyArm_counts (r : Regs) (d : BitVec 2) (c : Comb) : (keyArm r d c).Counts r := by
  by_cases hd : r.direction = d
  · simp [Comb.Counts, keyArm, hd]
  · simp [Comb.Counts, keyArm, hd, Ne.symm hd]

theorem walk_counts {r : Regs} {c : Comb} (hc : c.Counts r) (keycode : BitVec 8) :
    (walk r keycode c).Counts r := by
  unfold walk
  split_ifs
  · simp [Comb.Counts]
  · exact keyArm_counts _ _ _
  · exact keyArm_counts _ _ _
  · exact keyArm_counts _ _ _
  · exact keyArm_counts _ _ _
  · exact hc

/-- What an edge of the main game does to the frame counter. -/
theorem posedge_charFrameCounter {r : Regs} (h : r.state = .drawMainGame) (keycode : BitVec 8) :
    (r.posedge false keycode).charFrameCounter =
      if r.charFrameCounter = 39#6 then 0#6
      else if (comb r keycode).charIsMoving then r.charFrameCounter + 1#6
      else if (r.posedge false keycode).direction = r.direction then r.charFrameCounter
      else 0#6 := by
  have hdefault : Comb.Counts r { Comb.default r with stateNum := 3#4 } := by
    simp [Comb.Counts, Comb.default]
  have hwalk := walk_counts hdefault keycode
  simp only [posedge_false, comb, h, animate]
  rw [hwalk]

/-- Outside the main game it is kept. -/
theorem posedge_charFrameCounter_frozen {r : Regs} (h : r.state ≠ .drawMainGame)
    (keycode : BitVec 8) : (r.posedge false keycode).charFrameCounter = r.charFrameCounter := by
  cases hs : r.state with
  | drawMainGame => exact absurd hs h
  | fade =>
    simp only [posedge_false, comb, hs]
    split_ifs <;> rfl
  | _ => simp [posedge_false, comb, hs, Comb.default]

end GameFSM

namespace Game

/-- The pose after a number of frames walked: four poses of ten frames, over and over. -/
def pose (walked : ℕ) : BitVec 2 := [0#2, 1#2, 2#2, 1#2].getD (walked % 40 / 10) 0#2

/-- Both counters follow the number of frames walked. -/
structure Follows (fsm : GameFSM.Regs) (walked : ℕ) : Prop where
  step : walked % 32 = (fsm.tilecounter.toNat + 1) % 32
  frame : fsm.charFrameCounter.toNat = walked % 40

namespace Follows

variable {fsm : GameFSM.Regs} {walked : ℕ}

theorem onReset : Follows .onReset 0 := ⟨rfl, rfl⟩

/-- At rest whole steps have been walked. -/
theorem rest (h : Follows fsm walked) (hi : fsm.Idle) : walked % 32 = 0 := by
  have ht : fsm.tilecounter = 31#5 := hi
  rw [h.step, ht]
  rfl

/-- At rest the frame counter does not stand at 39. -/
theorem frame_ne_of_idle (h : Follows fsm walked) (hi : fsm.Idle) :
    fsm.charFrameCounter ≠ 39#6 := by
  intro hc
  have hrest := h.rest hi
  have hframe := h.frame
  rw [hc] at hframe
  change 39 = walked % 40 at hframe
  omega

/-- An edge at which the character walks. -/
theorem moving (h : Follows fsm walked) {fsm' : GameFSM.Regs}
    (ht : fsm'.tilecounter.toNat % 32 = (fsm.tilecounter.toNat + 1) % 32)
    (hc : fsm'.charFrameCounter =
      if fsm.charFrameCounter = 39#6 then 0#6 else fsm.charFrameCounter + 1#6) :
    Follows fsm' (walked + 1) := by
  obtain ⟨hstep, hframe⟩ := h
  refine ⟨by omega, ?_⟩
  rw [hc]
  split_ifs with h39
  · rw [h39] at hframe
    change 39 = walked % 40 at hframe
    change 0 = (walked + 1) % 40
    omega
  · have hne : fsm.charFrameCounter.toNat ≠ 39 := fun h => h39 (BitVec.eq_of_toNat_eq h)
    have hsucc : (fsm.charFrameCounter + 1#6).toNat = fsm.charFrameCounter.toNat + 1 := by
      bv_omega
    rw [hsucc]
    omega

/-- One edge. -/
theorem posedge (h : Follows fsm walked) (keycode : BitVec 8) :
    Follows (fsm.posedge false keycode)
      (if (fsm.posedge false keycode).direction ≠ fsm.direction then 0
      else if (GameFSM.comb fsm keycode).charIsMoving then walked + 1 else walked) := by
  by_cases hmain : fsm.state = .drawMainGame
  · have hcount := GameFSM.posedge_charFrameCounter hmain keycode
    by_cases hmoves : ¬ fsm.Idle ∨ keycode = GameFSM.facingKey fsm.direction
    · have hmoving : (GameFSM.comb fsm keycode).charIsMoving = true :=
        (GameFSM.comb_charIsMoving fsm keycode).mpr ⟨hmain, hmoves⟩
      rw [if_pos hmoving] at hcount
      by_cases hi : fsm.Idle
      · obtain rfl := hmoves.resolve_left (not_not.mpr hi)
        obtain ⟨ht, hd⟩ := GameFSM.posedge_of_facingKey hmain hi
        rw [if_neg (not_not.mpr hd), if_pos hmoving]
        have ht' : fsm.tilecounter = 31#5 := hi
        exact h.moving (by rw [ht, ht']; rfl) hcount
      · obtain ⟨ht, hd⟩ := GameFSM.posedge_of_not_idle hmain hi keycode
        rw [if_neg (not_not.mpr hd), if_pos hmoving]
        exact h.moving (by rw [ht, GameFSM.tilecounter_succ hi]) hcount
    · obtain ⟨hidle, hkey⟩ := not_or.mp hmoves
      have hi : fsm.Idle := not_not.mp hidle
      have hstill : (GameFSM.comb fsm keycode).charIsMoving = false := by
        rw [← Bool.not_eq_true, GameFSM.comb_charIsMoving]
        exact fun hm => hmoves hm.2
      have ht : (fsm.posedge false keycode).tilecounter = 31#5 :=
        GameFSM.posedge_of_other hmain hi hkey
      rw [if_neg (h.frame_ne_of_idle hi), hstill, if_neg Bool.false_ne_true] at hcount
      rw [hstill, if_neg Bool.false_ne_true]
      split_ifs with hd
      · rw [if_neg hd] at hcount
        exact ⟨by rw [ht]; rfl, by rw [hcount]; rfl⟩
      · rw [if_pos (not_not.mp hd)] at hcount
        exact ⟨by rw [ht, h.rest hi]; rfl, by rw [hcount]; exact h.frame⟩
  · have hstill : (GameFSM.comb fsm keycode).charIsMoving = false := by
      rw [← Bool.not_eq_true, GameFSM.comb_charIsMoving]
      exact fun hm => hmain hm.1
    obtain ⟨ht, hd⟩ := GameFSM.posedge_frozen hmain keycode
    rw [if_neg (not_not.mpr hd), hstill, if_neg Bool.false_ne_true]
    refine ⟨by rw [ht]; exact h.step, ?_⟩
    rw [GameFSM.posedge_charFrameCounter_frozen hmain]
    exact h.frame

/-- The pose that is shown. -/
theorem charMoveFrame (h : Follows fsm walked) (hmain : fsm.state = .drawMainGame)
    (keycode : BitVec 8) : (GameFSM.comb fsm keycode).charMoveFrame = pose walked := by
  have hlt (k : BitVec 6) : fsm.charFrameCounter < k ↔ walked % 40 < k.toNat := by
    rw [BitVec.lt_def, h.frame]
  have hpose {k : ℕ} (hk : walked % 40 / 10 = k) : pose walked = [0#2, 1#2, 2#2, 1#2].getD k 0#2 :=
    congrArg (fun k => [0#2, 1#2, 2#2, 1#2].getD k 0#2) hk
  have hbound : walked % 40 < 40 := Nat.mod_lt _ (by decide)
  simp only [GameFSM.comb, hmain, GameFSM.animate, hlt, BitVec.toNat_ofNat]
  split_ifs with h10 h20 h30
  · exact (hpose (k := 0) (by omega)).symm
  · exact (hpose (k := 1) (by omega)).symm
  · exact (hpose (k := 2) (by omega)).symm
  · exact (hpose (k := 3) (by omega)).symm

end Follows

/-! ## Runs -/

section Runs

variable (drawer : FrameDrawer.Regs) (ins : ℕ → FrameIn)

/-- The frames walked before frame `n`, since `Reset` and since the facing last changed. -/
def walked : ℕ → ℕ
  | 0 => 0
  | n + 1 =>
    if (ins n).reset then 0
    else if (run drawer ins (n + 1)).fsm.direction ≠ (run drawer ins n).fsm.direction then 0
    else if (GameFSM.comb (run drawer ins n).fsm (ins n).keycodePos).charIsMoving then
      walked n + 1
    else walked n

theorem follows_run (n : ℕ) : Follows (run drawer ins n).fsm (walked drawer ins n) := by
  induction n with
  | zero => exact .onReset
  | succ n ih =>
    rw [walked, run_succ, System.frame_fsm]
    cases (ins n).reset with
    | true => exact .onReset
    | false => exact ih.posedge (ins n).keycodePos

/-- The step counter is the number of frames walked modulo 32, the frame counter is that
number modulo 40, and the pose shown is the one for it: on every run, at every frame,
whatever is pressed. -/
theorem walk_cycle (n : ℕ) :
    (run drawer ins n).fsm.tilecounter.toNat = (walked drawer ins n + 31) % 32 ∧
      (run drawer ins n).fsm.charFrameCounter.toNat = walked drawer ins n % 40 ∧
      ((run drawer ins n).fsm.state = .drawMainGame → ∀ keycode,
        (GameFSM.comb (run drawer ins n).fsm keycode).charMoveFrame =
          pose (walked drawer ins n)) := by
  have h := follows_run drawer ins n
  have hlt := (run drawer ins n).fsm.tilecounter.isLt
  have hstep := h.step
  exact ⟨by omega, h.frame, h.charMoveFrame⟩

end Runs

end Game
