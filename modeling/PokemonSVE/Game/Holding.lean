-- SUMMARY: A direction key that is held: with the bounds checker wired, the character turns, walks, and comes to a wall or a statue, or to a teleporter, from every state of the main game.
import PokemonSVE.Game.System

/-!
# Holding a key

Coordinates wrap at 1024, and a wall is a single line of pixels. Since the character
takes the pixels one by one, running or not, it does not jump over the line, and from
everywhere there is one ahead.
-/

namespace FrameDrawer

/-- The pixels from a position to a wall ahead. -/
def toWall (d : BitVec 2) (p : Pos) : BitVec 10 :=
  if d = 0#2 then 363#10 - p.2
  else if d = 1#2 then p.2 - 26#10
  else if d = 2#2 then p.1 - 160#10
  else 128#10 - p.1

/-- A pixel ahead is a pixel closer. -/
theorem toWall_neighbour (d : BitVec 2) (p : Pos) :
    toWall d (neighbour d p) = toWall d p - 1#10 := by
  rcases GameFSM.direction_cases d with rfl | rfl | rfl | rfl <;> simp [toWall] <;> bv_omega

theorem atBounds_of_toWall {d : BitVec 2} {p : Pos} (h : toWall d p = 0#10) :
    GymBoundsChecker.atBounds d p.1 p.2 = true := by
  rcases GameFSM.direction_cases d with rfl | rfl | rfl | rfl
  · have hline : 363#10 - p.2 = 0#10 := h
    exact (GymBoundsChecker.atBounds_down _ _).mpr (.inl (.inr (.inr (by bv_omega))))
  · have hline : p.2 - 26#10 = 0#10 := h
    exact (GymBoundsChecker.atBounds_up _ _).mpr (.inl (.inr (.inr (by bv_omega))))
  · have hline : p.1 - 160#10 = 0#10 := h
    exact (GymBoundsChecker.atBounds_left _ _).mpr (.inl (.inl (by bv_omega)))
  · have hline : 128#10 - p.1 = 0#10 := h
    exact (GymBoundsChecker.atBounds_right _ _).mpr (.inl (.inl (by bv_omega)))

end FrameDrawer

namespace GameFSM

variable {r : Regs} {d : BitVec 2}

/-- The key of a direction turns the character at rest. -/
theorem posedge_turns (h : r.state = .drawMainGame) (hi : r.Idle) (hd : r.direction ≠ d) :
    (r.posedge false (facingKey d)).direction = d := by
  have ht : r.tilecounter = 31#5 := hi
  rcases direction_cases d with rfl | rfl | rfl | rfl <;>
    simp [posedge_false, comb, h, animate, walk, keyArm, ht, hd, facingKey, keyS, keyW, keyA, keyD]

/-- It keeps the facing that it is for. -/
theorem posedge_faces (h : r.state = .drawMainGame) (hd : r.direction = d) :
    (r.posedge false (facingKey d)).direction = d := by
  subst hd
  by_cases hi : r.Idle
  · exact (posedge_of_facingKey h hi).2
  · exact (posedge_of_not_idle h hi _).2

theorem facingKey_injective : Function.Injective facingKey := by
  intro d d' h
  revert d d'
  decide

theorem facingKey_ne_escape (d : BitVec 2) : facingKey d ≠ keyEscape := by
  rcases direction_cases d with rfl | rfl | rfl | rfl <;> decide

end GameFSM

namespace Game

open FrameDrawer (Pos toWall neighbour)

/-- The key of direction `d` is down at both edges of the frame, and `Reset` is not. -/
structure FrameIn.Holds (i : FrameIn) (d : BitVec 2) : Prop where
  neg : i.keycodeNeg = GameFSM.facingKey d
  pos : i.keycodePos = GameFSM.facingKey d
  reset : i.reset = false

/-- The state after `n` frames from any state, with the bounds checker wired. -/
def roam (s : System) (ins : ℕ → FrameIn) (n : ℕ) : System :=
  Driven.run (Driven.feedback System.frame (wire gyminstance)) s ins n

namespace System

/-- The character faces `d`, and a wall or a statue is ahead. -/
def Blocked (s : System) (d : BitVec 2) : Prop :=
  s.fsm.direction = d ∧ gyminstance s = true

/-- The frames until the character is blocked, at most. -/
def framesToWall (s : System) (d : BitVec 2) : ℕ :=
  if s.fsm.direction = d then
    2 * (toWall d s.pos).toNat + (if s.drawer.everyotherframe then 0 else 1)
  else 2048 + (31 - s.fsm.tilecounter.toNat)

theorem framesToWall_le (s : System) (d : BitVec 2) : s.framesToWall d ≤ 2079 := by
  have hlt := (toWall d s.pos).isLt
  unfold framesToWall
  split_ifs <;> omega

section Frame

variable {s : System} {i : FrameIn} {d : BitVec 2} (hmain : s.fsm.state = .drawMainGame)
  (hi : i.Holds d)
include hmain hi

theorem main_of_holds : (s.frame i).fsm.state = .drawMainGame := by
  refine frame_drawMainGame s i hmain hi.reset ?_
  rw [hi.pos]
  exact GameFSM.facingKey_ne_escape d

/-- What faces `d` goes on facing it. -/
theorem faces_of_holds (hd : s.fsm.direction = d) : (s.frame i).fsm.direction = d := by
  rw [frame_fsm, hi.reset, hi.pos]
  exact GameFSM.posedge_faces hmain hd

/-- What faces `d` walks at every edge at which it may. -/
theorem pos_of_holds (htile : s.atTile = false) (hd : s.fsm.direction = d) :
    (s.frame i).pos = if i.atBounds = false ∧
      (s.drawer.everyotherframe = true ∨ i.charIsRunning = true) then neighbour d s.pos
      else s.pos := by
  have hwalks : s.Walks i ↔ i.atBounds = false ∧
      (s.drawer.everyotherframe = true ∨ i.charIsRunning = true) := by
    rw [walks_iff]
    simp [hmain, htile, hi.neg, hd]
  rw [frame_pos, negedge_pos_walk s i hmain htile, hd]
  simp only [hwalks]

omit hi in
theorem everyotherframe_frame :
    (s.frame i).drawer.everyotherframe = !s.drawer.everyotherframe := by
  have hstate : (s.wires i).stateNum = 3#4 := by
    rw [wires_stateNum, hmain]
    rfl
  exact FrameDrawer.next_everyotherframe s.drawer hstate

/-- Before it is blocked the character comes closer to being so. -/
theorem framesToWall_frame (htile : s.atTile = false) (hfree : ¬ s.Blocked d)
    (hwire : i.atBounds = gyminstance s) :
    (s.frame i).framesToWall d < s.framesToWall d := by
  by_cases hd : s.fsm.direction = d
  · -- It walks, or would have walked in the next frame.
    have hopen : gyminstance s = false := by
      rw [← Bool.not_eq_true]
      exact fun hbounds => hfree ⟨hd, hbounds⟩
    have hne : toWall d s.pos ≠ 0#10 := by
      intro hzero
      have hbounds : gyminstance s = true := by
        rw [gyminstance, hd]
        exact FrameDrawer.atBounds_of_toWall hzero
      rw [hopen] at hbounds
      cases hbounds
    have hnext : toWall d (s.frame i).pos =
        if s.drawer.everyotherframe = true ∨ i.charIsRunning = true then toWall d s.pos - 1#10
        else toWall d s.pos := by
      rw [pos_of_holds hmain hi htile hd, hwire, hopen, ← FrameDrawer.toWall_neighbour]
      simp only [true_and]
      split_ifs <;> rfl
    have hone : (toWall d s.pos - 1#10).toNat + 1 = (toWall d s.pos).toNat := by bv_omega
    rw [framesToWall, framesToWall, if_pos (faces_of_holds hmain hi hd), if_pos hd,
      everyotherframe_frame hmain, hnext]
    cases s.drawer.everyotherframe <;> cases i.charIsRunning <;> simp <;> omega
  · have hfsm : (s.frame i).fsm = s.fsm.posedge false (GameFSM.facingKey d) := by
      rw [frame_fsm, hi.reset, hi.pos]
    by_cases hidle : s.fsm.Idle
    · have hturns : (s.frame i).fsm.direction = d := by
        rw [hfsm]
        exact GameFSM.posedge_turns hmain hidle hd
      have hlt := (toWall d (s.frame i).pos).isLt
      rw [framesToWall, framesToWall, if_pos hturns, if_neg hd]
      split_ifs <;> omega
    · obtain ⟨hcount, hdir⟩ := GameFSM.posedge_of_not_idle hmain hidle (GameFSM.facingKey d)
      have hsucc := GameFSM.tilecounter_succ hidle
      have hlt := (s.fsm.tilecounter + 1#5).isLt
      rw [framesToWall, framesToWall, hfsm, hdir, if_neg hd, if_neg hd, hcount]
      omega

/-- Where it is blocked the character stays. -/
theorem blocked_frame (htile : s.atTile = false) (hblocked : s.Blocked d)
    (hwire : i.atBounds = gyminstance s) :
    (s.frame i).Blocked d ∧ (s.frame i).pos = s.pos := by
  obtain ⟨hd, hbounds⟩ := hblocked
  have hfaces := faces_of_holds hmain hi hd
  have hpos : (s.frame i).pos = s.pos := by
    rw [pos_of_holds hmain hi htile hd, hwire, hbounds]
    simp
  refine ⟨⟨hfaces, ?_⟩, hpos⟩
  obtain ⟨hx, hy⟩ := Prod.mk.inj hpos
  rw [gyminstance, hfaces, hx, hy, ← hd]
  exact hbounds

end Frame

end System

/-- Nobody walks for ever: from every state of the main game, with a direction key held, the
character running or not and without `Reset`, a teleporter takes over, or after at most 2079
frames the character faces that way at a wall or a statue, and stays there. -/
theorem walks_to_wall (s : System) (ins : ℕ → FrameIn) (d : BitVec 2)
    (hmain : s.fsm.state = .drawMainGame) (hheld : ∀ n, (ins n).Holds d) :
    (∃ n, (roam s ins n).atTile = true) ∨
      ∃ n ≤ 2079, ∀ m ≥ n, (roam s ins m).Blocked d ∧ (roam s ins m).pos = (roam s ins n).pos := by
  by_cases htile : ∃ n, (roam s ins n).atTile = true
  · exact .inl htile
  have hoff (n : ℕ) : (roam s ins n).atTile = false := by
    rw [← Bool.not_eq_true]
    exact fun h => htile ⟨n, h⟩
  have hholds (n : ℕ) : (wire gyminstance (roam s ins n) (ins n)).Holds d :=
    ⟨(hheld n).neg, (hheld n).pos, (hheld n).reset⟩
  have hnext (n : ℕ) : roam s ins (n + 1) =
      (roam s ins n).frame (wire gyminstance (roam s ins n) (ins n)) := rfl
  obtain ⟨n, hn, hblocked, hstate⟩ := Driven.exists_goal
    (b := fun n => (roam s ins n).framesToWall d)
    (I := fun n => (roam s ins n).fsm.state = .drawMainGame)
    (G := fun n => (roam s ins n).Blocked d) hmain fun k hstate hfree => by
      rw [hnext]
      exact ⟨System.framesToWall_frame hstate (hholds k) (hoff k) hfree rfl,
        System.main_of_holds hstate (hholds k)⟩
  refine .inr ⟨n, Nat.le_trans hn (s.framesToWall_le d), fun m hm => ?_⟩
  suffices hrest : (roam s ins m).fsm.state = .drawMainGame ∧ (roam s ins m).Blocked d ∧
      (roam s ins m).pos = (roam s ins n).pos from hrest.2
  induction m, hm using Nat.le_induction with
  | base => exact ⟨hstate, hblocked, rfl⟩
  | succ m hm ih =>
    obtain ⟨hstate, hblocked, hpos⟩ := ih
    obtain ⟨hstays, hsame⟩ := System.blocked_frame hstate (hholds m) (hoff m) hblocked rfl
    rw [hnext]
    exact ⟨System.main_of_holds hstate (hholds m), hstays, hsame.trans hpos⟩

/-- The character at the start position, facing up. -/
def atHome : System :=
  ⟨⟨.drawMainGame, 0#6, 1#2, 0#6, 31#5⟩, ⟨.hold, 0#6, 303#10, 335#10⟩, ⟨288#10, 315#10, false⟩⟩

theorem walks_to_wall_up :
    (∃ n, (roam atHome (fun _ => .press GameFSM.keyW) n).atTile = true) ∨
      ∃ n ≤ 2079, ∀ m ≥ n, (roam atHome (fun _ => .press GameFSM.keyW) m).Blocked 1#2 ∧
        (roam atHome (fun _ => .press GameFSM.keyW) m).pos =
          (roam atHome (fun _ => .press GameFSM.keyW) n).pos :=
  walks_to_wall atHome (fun _ => .press GameFSM.keyW) 1#2 rfl fun _ => ⟨rfl, rfl, rfl⟩

end Game
