-- SUMMARY: The length of a step: 32 frames, and 16 pixels in the direction of the facing, or 32 with the run button pressed.
import PokemonSVE.Game.Grid

/-!
# The length of a step

The first frame of a step is at rest and moves because the key is down; the other
31 have a count. `everyotherframe` runs on through all of them, so that a walk takes
every other frame whichever phase it begins in.
-/

namespace Game

open FrameDrawer (Pos neighbour)

/-- The position `n` pixels ahead in direction `d`: one coordinate changes, modulo
1024. -/
def ahead (d : BitVec 2) (n : ℕ) (p : Pos) : Pos :=
  if d = 0#2 then (p.1, p.2 + BitVec.ofNat 10 n)
  else if d = 1#2 then (p.1, p.2 - BitVec.ofNat 10 n)
  else if d = 2#2 then (p.1 - BitVec.ofNat 10 n, p.2)
  else (p.1 + BitVec.ofNat 10 n, p.2)

theorem ahead_zero (d : BitVec 2) (p : Pos) : ahead d 0 p = p := by
  unfold ahead
  split_ifs <;> simp

theorem neighbour_ahead (d : BitVec 2) (n : ℕ) (p : Pos) :
    neighbour d (ahead d n p) = ahead d (n + 1) p := by
  unfold ahead neighbour
  split_ifs <;> rw [Prod.mk.injEq] <;> refine ⟨?_, ?_⟩ <;> first | rfl | bv_omega

section StepLength

variable (drawer : FrameDrawer.Regs) (ins : ℕ → FrameIn) (m : ℕ)

/-- Frame `m` and the 31 frames after it: at rest in the main game the key of the
facing is down, the two edges of a frame read the same key, which is never
`Escape`, the run button is held at one level, and neither the tile logic nor the
bounds interfere. -/
structure BlockOfFrames : Prop where
  draw : (run drawer ins m).fsm.state = .drawMainGame
  idle : (run drawer ins m).fsm.Idle
  key : (ins m).keycodeNeg = GameFSM.facingKey (run drawer ins m).fsm.direction
  same : ∀ k < 32, (ins (m + k)).keycodePos = (ins (m + k)).keycodeNeg
  escape : ∀ k < 32, (ins (m + k)).keycodePos ≠ GameFSM.keyEscape
  reset : ∀ k < 32, (ins (m + k)).reset = false
  button : ∀ k < 32, (ins (m + k)).charIsRunning = (ins m).charIsRunning
  tile : ∀ k < 32, (run drawer ins (m + k)).atTile = false
  bounds : ∀ k < 32, (ins (m + k)).atBounds = false

/-- Where the step is after `k` frames. -/
structure Underway (k : ℕ) : Prop where
  draw : (run drawer ins (m + k)).fsm.state = .drawMainGame
  direction : (run drawer ins (m + k)).fsm.direction = (run drawer ins m).fsm.direction
  tilecounter : (run drawer ins (m + k)).fsm.tilecounter = BitVec.ofNat 5 (k + 31)
  pos : (run drawer ins (m + k)).pos = ahead (run drawer ins m).fsm.direction
    (paced (ins m).charIsRunning (run drawer ins (m + k)).drawer.everyotherframe k)
    (run drawer ins m).pos

variable {drawer ins m}

theorem Underway.idle_iff {k : ℕ} (h : Underway drawer ins m k) (hk : k ≤ 32) :
    (run drawer ins (m + k)).fsm.Idle ↔ k = 0 ∨ k = 32 := by
  rw [GameFSM.Regs.Idle, h.tilecounter]
  bv_omega

theorem underway_zero (h : BlockOfFrames drawer ins m) : Underway drawer ins m 0 where
  draw := h.draw
  direction := rfl
  tilecounter := h.idle
  pos := by
    have hzero : paced (ins m).charIsRunning (run drawer ins m).drawer.everyotherframe 0 = 0 := by
      simp [paced]
    rw [Nat.add_zero, hzero, ahead_zero]

theorem Underway.succ {k : ℕ} (h : Underway drawer ins m k) (hblock : BlockOfFrames drawer ins m)
    (hk : k < 32) : Underway drawer ins m (k + 1) := by
  have hidle := h.idle_iff (by omega)
  have hstep : run drawer ins (m + (k + 1)) = (run drawer ins (m + k)).frame (ins (m + k)) := rfl
  have hr := hblock.reset k hk
  have hmove : ¬ (run drawer ins (m + k)).fsm.Idle ∨
      (ins (m + k)).keycodeNeg = GameFSM.facingKey (run drawer ins (m + k)).fsm.direction := by
    rcases Nat.eq_zero_or_pos k with rfl | hpos
    · exact .inr hblock.key
    · exact .inl fun hi => by rcases hidle.mp hi <;> omega
  -- The edge that ends the frame begins the step, or counts it.
  have hfsm : (run drawer ins (m + (k + 1))).fsm.tilecounter = BitVec.ofNat 5 (k + 1 + 31) ∧
      (run drawer ins (m + (k + 1))).fsm.direction = (run drawer ins m).fsm.direction := by
    rw [hstep, System.frame_fsm, hr]
    rcases Nat.eq_zero_or_pos k with rfl | hpos
    · have hkey : (ins (m + 0)).keycodePos =
          GameFSM.facingKey (run drawer ins (m + 0)).fsm.direction :=
        (hblock.same 0 hk).trans hblock.key
      rw [hkey]
      exact GameFSM.posedge_of_facingKey h.draw hblock.idle
    · have hbusy : ¬ (run drawer ins (m + k)).fsm.Idle := fun hi => by
        rcases hidle.mp hi <;> omega
      obtain ⟨hcount, hdir⟩ := GameFSM.posedge_of_not_idle h.draw hbusy (ins (m + k)).keycodePos
      refine ⟨?_, hdir.trans h.direction⟩
      rw [hcount, h.tilecounter]
      bv_omega
  have heof : (run drawer ins (m + (k + 1))).drawer.everyotherframe =
      !(run drawer ins (m + k)).drawer.everyotherframe :=
    FrameDrawer.next_everyotherframe _ (by
      rw [System.wires_stateNum]
      exact congrArg GameFSM.State.num h.draw)
  have hpace := paced_succ (ins m).charIsRunning (run drawer ins (m + k)).drawer.everyotherframe k
  refine ⟨?_, hfsm.2, hfsm.1, ?_⟩
  · rw [hstep]
    exact System.frame_drawMainGame _ _ h.draw hr (hblock.escape k hk)
  · have hwalks := (run drawer ins (m + k)).walks_iff (ins (m + k))
    simp only [h.draw, hblock.tile k hk, hmove, hblock.bounds k hk, hblock.button k hk,
      true_and] at hwalks
    rw [hstep, System.frame_pos, System.negedge_pos_walk _ _ h.draw (hblock.tile k hk),
      ← hstep, heof, hpace, h.direction, h.pos]
    by_cases hw : (run drawer ins (m + k)).Walks (ins (m + k))
    · rw [if_pos hw, if_pos (hwalks.mp hw), neighbour_ahead]
    · rw [if_neg hw, if_neg (fun hc => hw (hwalks.mpr hc)), Nat.add_zero]

theorem underway (h : BlockOfFrames drawer ins m) {k : ℕ} (hk : k ≤ 32) :
    Underway drawer ins m k := by
  induction k with
  | zero => exact underway_zero h
  | succ k ih => exact (ih (by omega)).succ h hk

end StepLength

/-- A step takes 32 frames and no fewer, keeps the facing, and takes the character
16 pixels ahead, or 32 with the run button pressed. -/
theorem step_length (drawer : FrameDrawer.Regs) (ins : ℕ → FrameIn) (m : ℕ)
    (h : BlockOfFrames drawer ins m) :
    (∀ k ≤ 32, (run drawer ins (m + k)).fsm.direction = (run drawer ins m).fsm.direction) ∧
    (∀ k, 0 < k → k < 32 → ¬ (run drawer ins (m + k)).fsm.Idle) ∧
    (run drawer ins (m + 32)).fsm.Idle ∧
    (run drawer ins (m + 32)).pos = ahead (run drawer ins m).fsm.direction
      (if (ins m).charIsRunning then 32 else 16) (run drawer ins m).pos := by
  refine ⟨fun k hk => (underway h hk).direction, fun k hpos hk hidle => ?_,
    ((underway h (le_refl 32)).idle_iff (le_refl 32)).mpr (.inr rfl), ?_⟩
  · have := ((underway h hk.le).idle_iff hk.le).mp hidle
    omega
  · have hlast : ∀ running e : Bool, paced running e 32 = if running then 32 else 16 := by decide
    rw [(underway h (le_refl 32)).pos, hlast]

/-- The first step up, with `W` held down, takes the character from (288,315) to
(288,299). -/
theorem step_length_up :
    (run powerUp (Driven.script (.press GameFSM.keyW) openGame) 84).pos = (288#10, 299#10) := by
  have hin : ∀ k, Driven.script (.press GameFSM.keyW) openGame (52 + k) = .press GameFSM.keyW :=
    fun k => Driven.script_of_length_le _ (Nat.le_add_right 52 k)
  have hrun : ∀ k, run powerUp (Driven.script (.press GameFSM.keyW) openGame) (52 + k) =
      Driven.held System.frame (.press GameFSM.keyW) k
        (Driven.play System.frame openGame (.onReset powerUp)) :=
    fun k => run_script (.press GameFSM.keyW) openGame k
  have hblock : BlockOfFrames powerUp (Driven.script (.press GameFSM.keyW) openGame) 52 :=
    { draw := by rw [hrun 0]; decide +kernel
      idle := by rw [hrun 0]; decide +kernel
      key := by rw [hrun 0, hin 0]; decide +kernel
      same := fun k _ => by rw [hin]; rfl
      escape := fun k _ => by rw [hin]; decide
      reset := fun k _ => by rw [hin]; rfl
      button := fun k _ => by rw [hin, hin 0]
      tile := fun k hk => by
        rw [hrun]
        revert k
        decide +kernel
      bounds := fun k _ => by rw [hin]; rfl }
  have hpos := (step_length powerUp _ 52 hblock).2.2.2
  rw [hrun 0, hin 0] at hpos
  rw [hpos]
  decide +kernel

end Game
