-- SUMMARY: The 16-pixel grid: the character rests on it exactly when the pixels walked since it was last placed come to a multiple of 16, which steady input ensures.
import PokemonSVE.Game.Session

/-!
# The tile grid

The start position and the tiles are on a grid of 16 by 16 pixels, and a step is
meant to be a block of 16. What is a block depends on the frames on which a pixel
is taken, and those are counted here.
-/

namespace Game

open FrameDrawer (Pos neighbour startPos)

/-- The grid: multiples of 16, moved down by 11. -/
def OnGrid (p : Pos) : Prop := p.1.toNat % 16 = 0 ∧ p.2.toNat % 16 = 11

instance (p : Pos) : Decidable (OnGrid p) := inferInstanceAs (Decidable (_ ∧ _))

/-- `w` pixels past a point of the grid, in direction `d`. -/
def Aligned (d : BitVec 2) (w : ℕ) (p : Pos) : Prop :=
  if d = 0#2 then p.1.toNat % 16 = 0 ∧ p.2.toNat % 16 = (11 + w) % 16
  else if d = 1#2 then p.1.toNat % 16 = 0 ∧ (p.2.toNat + w) % 16 = 11
  else if d = 2#2 then (p.1.toNat + w) % 16 = 0 ∧ p.2.toNat % 16 = 11
  else p.1.toNat % 16 = w % 16 ∧ p.2.toNat % 16 = 11

theorem onGrid_startPos : OnGrid startPos := by decide

theorem onGrid_tile (t : Tile) : OnGrid t.pos :=
  Tile.forall_of_all (P := fun t => OnGrid t.pos) (by decide) t

/-- A multiple of 16 pixels from the grid, in whatever direction, is on the grid. -/
theorem aligned_of_onGrid {p : Pos} (h : OnGrid p) (d : BitVec 2) {w : ℕ} (hw : 16 ∣ w) :
    Aligned d w p := by
  obtain ⟨hx, hy⟩ := h
  unfold Aligned
  split_ifs <;> constructor <;> omega

theorem Aligned.onGrid_iff {p : Pos} {d : BitVec 2} {w : ℕ} (h : Aligned d w p) :
    OnGrid p ↔ 16 ∣ w := by
  unfold Aligned at h
  unfold OnGrid
  split_ifs at h <;> omega

theorem Aligned.neighbour {p : Pos} {d : BitVec 2} {w : ℕ} (h : Aligned d w p) :
    Aligned d (w + 1) (neighbour d p) := by
  rcases p with ⟨x, y⟩
  have hx := x.isLt
  have hy := y.isLt
  unfold Aligned at *
  unfold FrameDrawer.neighbour
  split_ifs at * <;> simp only [FrameDrawer.toNat_add_one, FrameDrawer.toNat_sub_one] <;>
    dsimp only at h <;> split_ifs <;> omega

/-! ## Counting pixels -/

section Grid

variable (drawer : FrameDrawer.Regs) (ins : ℕ → FrameIn)

/-- The run of the committed code, in which nothing blocks the character. -/
abbrev openRun : ℕ → System := runWired undriven drawer ins

abbrev openIn : ℕ → FrameIn := wiredIn undriven drawer ins

/-- The main game with no step in progress. -/
def System.AtRest (s : System) : Prop := s.fsm.state = .drawMainGame ∧ s.fsm.Idle

/-- The start screen or the tile logic puts the character somewhere. -/
def System.Placed (s : System) : Prop :=
  s.fsm.state.num = 0#4 ∨ s.fsm.state = .drawMainGame ∧ s.atTile = true

instance (s : System) : Decidable s.AtRest := inferInstanceAs (Decidable (_ ∧ _))
instance (s : System) : Decidable s.Placed := inferInstanceAs (Decidable (_ ∨ _))

/-- The frames before `n` on which the character takes a pixel, counted from the
last frame that placed it. -/
def walkCount : ℕ → ℕ
  | 0 => 0
  | n + 1 =>
    if (openRun drawer ins n).Placed then 0
    else if (openRun drawer ins n).Walks (openIn drawer ins n) then walkCount n + 1
    else walkCount n

/-- At every rest the character is on the grid. -/
def RestsOnGrid : Prop :=
  ∀ n, (openRun drawer ins n).AtRest → OnGrid (openRun drawer ins n).pos

/-- The invariant: the count of pixels says how far from the grid the character
is, in the direction of the step in progress. -/
def Counted (n : ℕ) : Prop :=
  (openRun drawer ins n).fsm.state.num ≠ 0#4 →
    ∃ d, Aligned d (walkCount drawer ins n) (openRun drawer ins n).pos ∧
      ((openRun drawer ins n).fsm.Idle ∨ d = (openRun drawer ins n).fsm.direction)

variable {drawer ins}

theorem open_succ (n : ℕ) :
    openRun drawer ins (n + 1) = (openRun drawer ins n).frame (openIn drawer ins n) :=
  runWired_succ undriven drawer ins n

/-- A placed character is on the grid after the edge. -/
theorem onGrid_of_placed {s : System} (hs : s.Linked) (h : s.Placed) (i : FrameIn) :
    OnGrid (s.negedge i).pos := by
  rcases h with h0 | ⟨hdraw, htile⟩
  · rw [(s.negedge_pos_start i h0).1]
    exact onGrid_startPos
  · rw [s.negedge_pos_atTile i hdraw htile]
    rcases System.atTile_iff_visit.mp htile with hb | hl
    · obtain ⟨t, -, ht⟩ := hs.boarding hb
      rw [ht]
      exact onGrid_tile t
    · obtain ⟨t, ht⟩ := hs.landed hl
      rw [ht]
      exact onGrid_tile t

/-- Behind the screens the count is kept, or starts again. -/
theorem walkCount_succ_of_screens {n : ℕ}
    (hmain : (openRun drawer ins n).fsm.state ≠ .drawMainGame) :
    walkCount drawer ins (n + 1) =
      if (openRun drawer ins n).fsm.state.num = 0#4 then 0 else walkCount drawer ins n := by
  have hstill : ¬ (openRun drawer ins n).Walks (openIn drawer ins n) := fun hw => hmain hw.1
  have hplaced : (openRun drawer ins n).Placed ↔ (openRun drawer ins n).fsm.state.num = 0#4 :=
    ⟨fun hp => hp.resolve_right fun h => hmain h.1, .inl⟩
  rw [walkCount, if_neg hstill]
  exact if_congr hplaced rfl rfl

/-- In the main game an edge keeps the count, in the direction of the facing. -/
theorem aligned_negedge {n : ℕ} (hmain : (openRun drawer ins n).fsm.state = .drawMainGame)
    (h : Aligned (openRun drawer ins n).fsm.direction (walkCount drawer ins n)
      (openRun drawer ins n).pos) :
    Aligned (openRun drawer ins n).fsm.direction (walkCount drawer ins (n + 1))
      (openRun drawer ins (n + 1)).pos := by
  rw [open_succ, System.frame_pos]
  by_cases hplaced : (openRun drawer ins n).Placed
  · rw [walkCount, if_pos hplaced]
    exact aligned_of_onGrid (onGrid_of_placed (linked_runWired _ _ _ n) hplaced _) _ (by omega)
  · have hoff : (openRun drawer ins n).atTile = false := by
      rw [Bool.eq_false_iff]
      exact fun ht => hplaced (.inr ⟨hmain, ht⟩)
    rw [walkCount, if_neg hplaced, System.negedge_pos_walk _ _ hmain hoff]
    split_ifs
    · exact h.neighbour
    · exact h

end Grid

namespace System

/-- After an edge of the main game the facing is that of the step in progress. -/
theorem frame_idle_or_direction {s : System} (i : FrameIn) (h : s.fsm.state = .drawMainGame) :
    (s.frame i).fsm.Idle ∨ s.fsm.direction = (s.frame i).fsm.direction := by
  rw [frame_fsm]
  cases hr : i.reset with
  | true => exact .inl rfl
  | false =>
    by_cases hi : s.fsm.Idle
    · by_cases hk : i.keycodePos = GameFSM.facingKey s.fsm.direction
      · rw [hk]
        exact .inr (GameFSM.posedge_of_facingKey h hi).2.symm
      · exact .inl (GameFSM.posedge_of_other h hi hk)
    · exact .inr (GameFSM.posedge_of_not_idle h hi _).2.symm

/-- The frame leaves no step in progress: it begins none, or it is the last of one. -/
def StepOver (s : System) (i : FrameIn) : Prop :=
  if s.fsm.Idle then
    s.fsm.state = .drawMainGame → i.keycodePos ≠ GameFSM.facingKey s.fsm.direction
  else s.fsm.state = .drawMainGame ∧ s.fsm.tilecounter = 30#5

theorem frame_idle_iff {s : System} {i : FrameIn} (hr : i.reset = false) :
    (s.frame i).fsm.Idle ↔ s.StepOver i := by
  rw [frame_fsm, hr, StepOver]
  by_cases hmain : s.fsm.state = .drawMainGame
  · by_cases hi : s.fsm.Idle
    · rw [if_pos hi]
      constructor
      · rintro hidle - hkey
        rw [hkey, GameFSM.Regs.Idle, (GameFSM.posedge_of_facingKey hmain hi).1] at hidle
        exact absurd hidle (by decide)
      · exact fun hkey => GameFSM.posedge_of_other hmain hi (hkey hmain)
    · rw [if_neg hi, GameFSM.Regs.Idle, (GameFSM.posedge_of_not_idle hmain hi _).1]
      simp only [hmain, true_and]
      constructor <;> intro hcount
      · bv_omega
      · rw [hcount]
        decide
  · rw [GameFSM.Regs.Idle, (GameFSM.posedge_frozen hmain _).1, ← GameFSM.Regs.Idle]
    simp [hmain]

/-- The character is in a step, past its second frame. -/
def LateInStep (s : System) : Prop :=
  s.fsm.state = .drawMainGame ∧ ¬ s.fsm.Idle ∧ s.fsm.tilecounter ≠ 0#5

/-- Only the end of a visit, or `Reset`, takes `atTile` back. -/
theorem latch_of_atTile {s : System} {i : FrameIn} (hr : i.reset = false) (h : s.atTile = true)
    (hnext : (s.frame i).atTile = false) : s.tile.state = .latch := by
  rw [Bool.eq_false_iff, Ne, atTile_eq] at hnext
  rw [atTile_eq] at h
  rw [frame_tile, hr] at hnext
  rcases h with h | h | h | h
  · rw [GymTileLogic.posedge_prespin _ _ h] at hnext
    split_ifs at hnext <;> simp at hnext
  · rw [GymTileLogic.posedge_teleport _ _ h] at hnext
    simp at hnext
  · rw [GymTileLogic.posedge_postspin _ _ h] at hnext
    split_ifs at hnext <;> simp at hnext
  · exact h

end System

section Grid

variable {drawer : FrameDrawer.Regs} {ins : ℕ → FrameIn}

/-- The count says how far off the grid the facing has taken the character, if
that is what the invariant says and the rests so far were on the grid. -/
theorem Counted.aligned {n : ℕ} (h : Counted drawer ins n)
    (hmain : (openRun drawer ins n).fsm.state = .drawMainGame)
    (hrest : (openRun drawer ins n).AtRest → 16 ∣ walkCount drawer ins n) :
    Aligned (openRun drawer ins n).fsm.direction (walkCount drawer ins n)
      (openRun drawer ins n).pos := by
  obtain ⟨d, haligned, hidle | rfl⟩ := h (by rw [hmain]; decide)
  · have hw := hrest ⟨hmain, hidle⟩
    exact aligned_of_onGrid (haligned.onGrid_iff.mpr hw) _ hw
  · exact haligned

theorem Counted.succ {n : ℕ} (h : Counted drawer ins n)
    (hrest : (openRun drawer ins n).AtRest → 16 ∣ walkCount drawer ins n) :
    Counted drawer ins (n + 1) := by
  intro hnext
  have hstaged := staged_runWired undriven drawer ins n
  by_cases hmain : (openRun drawer ins n).fsm.state = .drawMainGame
  · exact ⟨_, aligned_negedge hmain (h.aligned hmain hrest),
      System.frame_idle_or_direction _ hmain⟩
  · -- Off the main game the character is at the start position.
    have hstart : OnGrid (openRun drawer ins (n + 1)).pos := by
      rw [open_succ, System.frame_pos, hstaged.negedge_pos _ hmain]
      exact onGrid_startPos
    have hcount : 16 ∣ walkCount drawer ins (n + 1) := by
      rw [walkCount_succ_of_screens hmain]
      split_ifs with h0
      · exact dvd_zero 16
      · have hfade : (openRun drawer ins n).fsm.state = .fade := by
          rcases hstaged.reach with hs | hs | hs
          · exact absurd (by rw [hs]; rfl) h0
          · exact hs
          · exact absurd hs hmain
        obtain ⟨d, haligned, -⟩ := h h0
        rw [← haligned.onGrid_iff, hstaged.fade_pos hfade]
        exact onGrid_startPos
    exact ⟨_, aligned_of_onGrid hstart _ hcount, .inr rfl⟩

theorem counted_zero : Counted drawer ins 0 := fun h => absurd rfl h

theorem Counted.rest_iff {n : ℕ} (h : Counted drawer ins n) :
    ((openRun drawer ins n).AtRest → OnGrid (openRun drawer ins n).pos) ↔
      ((openRun drawer ins n).AtRest → 16 ∣ walkCount drawer ins n) := by
  refine imp_congr_right fun hrest => ?_
  obtain ⟨d, haligned, -⟩ := h (by rw [hrest.1]; decide)
  exact haligned.onGrid_iff

/-! ## Steady input -/

/-- Input that makes every step a block: at rest the two edges of a frame read the
same key as far as the facing goes, the run button is the same on the frames of a
step that read it, which are those with `everyotherframe` at 0, every second one,
and neither `Escape` nor the end of a visit comes in the middle of a step. -/
structure Steady (drawer : FrameDrawer.Regs) (ins : ℕ → FrameIn) : Prop where
  key : ∀ n, (openRun drawer ins n).AtRest →
    ((ins n).keycodeNeg = GameFSM.facingKey (openRun drawer ins n).fsm.direction ↔
      (ins n).keycodePos = GameFSM.facingKey (openRun drawer ins n).fsm.direction)
  button : ∀ n, (openRun drawer ins (n + 2)).LateInStep →
    (openRun drawer ins (n + 2)).drawer.everyotherframe = false →
    (ins (n + 2)).charIsRunning = (ins n).charIsRunning
  screens : ∀ n, (openRun drawer ins n).fsm.state = .drawMainGame → (ins n).reset = false →
    (ins n).keycodePos = GameFSM.keyEscape → (openRun drawer ins n).StepOver (ins n)
  tiles : ∀ n, (openRun drawer ins n).tile.state = .latch → (ins n).reset = false →
    (openRun drawer ins n).StepOver (ins n)

/-- The pixels of the first `k` frames of a step, for the run button and the value
of `everyotherframe` after them. -/
def paced (running everyotherframe : Bool) (k : ℕ) : ℕ :=
  if running then k else if everyotherframe then k / 2 else (k + 1) / 2

/-- One more frame of the step. -/
theorem paced_succ (running e : Bool) (k : ℕ) :
    paced running (!e) (k + 1) =
      paced running e k + if e = true ∨ running = true then 1 else 0 := by
  cases running <;> cases e <;> simp only [paced] <;> grind

theorem paced_zero (running e : Bool) : paced running e 0 = 0 := by
  cases running <;> cases e <;> rfl

/-- A first frame with `everyotherframe` at 1 takes its pixel, running or not. -/
theorem paced_one (running : Bool) : paced running false 1 = 1 := by cases running <;> rfl

/-- The 32 frames of a step are a block of 16 pixels, or two. -/
theorem paced_last (running e : Bool) : 16 ∣ paced running e 32 := by
  revert running e
  decide

/-- Off the tiles a frame of the main game counts a pixel if the character moves and
it is its frame. -/
theorem walkCount_succ_of_main {n : ℕ} (hmain : (openRun drawer ins n).fsm.state = .drawMainGame)
    (hoff : (openRun drawer ins n).atTile = false) :
    walkCount drawer ins (n + 1) = walkCount drawer ins n +
      if (¬ (openRun drawer ins n).fsm.Idle ∨
          (ins n).keycodeNeg = GameFSM.facingKey (openRun drawer ins n).fsm.direction) ∧
        ((openRun drawer ins n).drawer.everyotherframe = true ∨ (ins n).charIsRunning = true)
      then 1 else 0 := by
  have hplaced : ¬ (openRun drawer ins n).Placed := by
    rintro (h0 | ⟨-, htile⟩)
    · rw [hmain] at h0
      exact absurd h0 (by decide)
    · exact Bool.false_ne_true (hoff.symm.trans htile)
  have hwalks := (openRun drawer ins n).walks_iff (openIn drawer ins n)
  simp only [hmain, hoff, true_and] at hwalks
  rw [walkCount, if_neg hplaced]
  by_cases h : (openRun drawer ins n).Walks (openIn drawer ins n)
  · obtain ⟨hmove, -, hframe⟩ := hwalks.mp h
    rw [if_pos h, if_pos ⟨hmove, hframe⟩]
  · rw [if_neg h, if_neg (fun hc => h (hwalks.mpr ⟨hc.1, rfl, hc.2⟩)), Nat.add_zero]

theorem everyotherframe_succ {n : ℕ} (hmain : (openRun drawer ins n).fsm.state = .drawMainGame) :
    (openRun drawer ins (n + 1)).drawer.everyotherframe =
      !(openRun drawer ins n).drawer.everyotherframe :=
  FrameDrawer.next_everyotherframe _ (by
    rw [System.wires_stateNum]
    exact congrArg GameFSM.State.num hmain)

/-- The run button is `running` on the next frame that reads it, if the step has read it
before. -/
structure Pressed (drawer : FrameDrawer.Regs) (ins : ℕ → FrameIn) (running : Bool) (n : ℕ) :
    Prop where
  now : (openRun drawer ins n).LateInStep →
    (openRun drawer ins n).drawer.everyotherframe = false → (ins n).charIsRunning = running
  next : (openRun drawer ins n).drawer.everyotherframe = true →
    (openRun drawer ins (n + 1)).LateInStep →
    (openRun drawer ins (n + 1)).drawer.everyotherframe = false →
    (ins (n + 1)).charIsRunning = running

/-- After `k` frames of a step the count has gone on from a multiple of 16 by their pixels. -/
def Stepped (drawer : FrameDrawer.Regs) (ins : ℕ → FrameIn) (k n : ℕ) : Prop :=
  ∃ base running, 16 ∣ base ∧ Pressed drawer ins running n ∧
    walkCount drawer ins n =
      base + paced running (openRun drawer ins n).drawer.everyotherframe k

/-- The invariant of steady input: off the main game no step is in progress, and a
character that the tile logic does not hold has walked whole blocks, and the
pixels of the step in progress. -/
structure Paced (drawer : FrameDrawer.Regs) (ins : ℕ → FrameIn) (n : ℕ) : Prop where
  screens : (openRun drawer ins n).fsm.state ≠ .drawMainGame → (openRun drawer ins n).fsm.Idle
  count : (openRun drawer ins n).fsm.state.num ≠ 0#4 →
    (openRun drawer ins n).atTile = true ∧ walkCount drawer ins n = 0 ∨
    if (openRun drawer ins n).fsm.Idle then 16 ∣ walkCount drawer ins n
    else Stepped drawer ins ((openRun drawer ins n).fsm.tilecounter.toNat + 1) n

theorem paced_start : Paced drawer ins 0 := ⟨fun _ => rfl, fun h => absurd rfl h⟩

private theorem fsm_succ (n : ℕ) :
    (openRun drawer ins (n + 1)).fsm =
      (openRun drawer ins n).fsm.posedge (ins n).reset (ins n).keycodePos := rfl

theorem idle_succ_iff {n : ℕ} (hr : (ins n).reset = false) :
    (openRun drawer ins (n + 1)).fsm.Idle ↔ (openRun drawer ins n).StepOver (ins n) := by
  rw [open_succ]
  exact System.frame_idle_iff (i := openIn drawer ins n) hr

theorem Paced.screens_succ {n : ℕ} (h : Paced drawer ins n) (hsteady : Steady drawer ins)
    (hnext : (openRun drawer ins (n + 1)).fsm.state ≠ .drawMainGame) :
    (openRun drawer ins (n + 1)).fsm.Idle := by
  cases hr : (ins n).reset with
  | true => rw [fsm_succ, hr]; rfl
  | false =>
    by_cases hmain : (openRun drawer ins n).fsm.state = .drawMainGame
    · refine (idle_succ_iff hr).mpr (hsteady.screens n hmain hr ?_)
      by_contra hkey
      rw [fsm_succ, hr, GameFSM.posedge_state] at hnext
      simp [GameFSM.nextState, hmain, hkey] at hnext
    · rw [fsm_succ, hr, GameFSM.Regs.Idle, (GameFSM.posedge_frozen hmain _).1]
      exact h.screens hmain

/-- On a frame that reads the button, the next one to read it is the second after it. -/
theorem Steady.pressed {n : ℕ} (hsteady : Steady drawer ins)
    (hmain : (openRun drawer ins n).fsm.state = .drawMainGame)
    (hreads : (openRun drawer ins n).drawer.everyotherframe = false) :
    Pressed drawer ins (ins n).charIsRunning (n + 1) := by
  have heof := everyotherframe_succ hmain
  rw [hreads] at heof
  exact ⟨fun _ hlow => absurd (heof.symm.trans hlow) (by decide),
    fun _ hlate hlow => hsteady.button n hlate hlow⟩

/-- A frame that does not read the button keeps the next one that does. -/
theorem Pressed.succ {running : Bool} {n : ℕ} (h : Pressed drawer ins running n)
    (hmain : (openRun drawer ins n).fsm.state = .drawMainGame)
    (hquiet : (openRun drawer ins n).drawer.everyotherframe = true) :
    Pressed drawer ins running (n + 1) := by
  have heof := everyotherframe_succ hmain
  rw [hquiet] at heof
  exact ⟨fun hlate hlow => h.next hquiet hlate hlow,
    fun hhigh => absurd (heof.symm.trans hhigh) (by decide)⟩

/-- The first frame of a step. -/
theorem stepped_first {n : ℕ} (hsteady : Steady drawer ins)
    (hmain : (openRun drawer ins n).fsm.state = .drawMainGame)
    (hoff : (openRun drawer ins n).atTile = false)
    (hkey : (ins n).keycodeNeg = GameFSM.facingKey (openRun drawer ins n).fsm.direction)
    (hbegins : (openRun drawer ins (n + 1)).fsm.tilecounter = 0#5)
    (hcount : 16 ∣ walkCount drawer ins n) : Stepped drawer ins 1 (n + 1) := by
  have hwalk := walkCount_succ_of_main hmain hoff
  simp only [hkey, or_true, true_and] at hwalk
  have heof := everyotherframe_succ hmain
  cases hquiet : (openRun drawer ins n).drawer.everyotherframe with
  | true =>
    rw [hquiet] at heof hwalk
    have hearly : ¬ (openRun drawer ins (n + 1)).LateInStep := fun hlate => hlate.2.2 hbegins
    refine ⟨_, false, hcount, ⟨fun hlate => absurd hlate hearly, fun hhigh => ?_⟩, ?_⟩
    · exact absurd (heof.symm.trans hhigh) (by decide)
    · rw [hwalk, heof, Bool.not_true, paced_one, if_pos (.inl rfl)]
  | false =>
    have hfirst := paced_succ (ins n).charIsRunning false 0
    rw [hquiet] at heof hwalk
    rw [paced_zero, Nat.zero_add, Nat.zero_add] at hfirst
    exact ⟨_, _, hcount, hsteady.pressed hmain hquiet, by rw [hwalk, heof, hfirst]⟩

/-- A later frame of a step. -/
theorem Stepped.succ {k n : ℕ} (h : Stepped drawer ins (k + 1) n) (hsteady : Steady drawer ins)
    (hmain : (openRun drawer ins n).fsm.state = .drawMainGame)
    (hoff : (openRun drawer ins n).atTile = false) (hi : ¬ (openRun drawer ins n).fsm.Idle)
    (hk : (openRun drawer ins n).fsm.tilecounter.toNat = k) :
    Stepped drawer ins (k + 2) (n + 1) := by
  obtain ⟨base, running, hbase, hpressed, hcount⟩ := h
  have hwalk := walkCount_succ_of_main hmain hoff
  simp only [hi, not_false_eq_true, true_or, true_and] at hwalk
  have heof := everyotherframe_succ hmain
  cases hquiet : (openRun drawer ins n).drawer.everyotherframe with
  | true =>
    have hnext := paced_succ running true (k + 1)
    rw [hquiet] at heof hwalk hcount
    refine ⟨base, running, hbase, hpressed.succ hmain hquiet, ?_⟩
    rw [hwalk, hcount, heof, hnext, Nat.add_assoc, if_pos (.inl rfl), if_pos (.inl rfl)]
  | false =>
    have hnext := paced_succ (ins n).charIsRunning false (k + 1)
    rw [hquiet] at heof hwalk hcount
    -- The second frame is the first to read the button.
    have hsame : paced running false (k + 1) = paced (ins n).charIsRunning false (k + 1) := by
      rcases Nat.eq_zero_or_pos k with rfl | hpos
      · rw [Nat.zero_add, paced_one, paced_one]
      · have hlate : (openRun drawer ins n).LateInStep := by
          refine ⟨hmain, hi, fun hzero => ?_⟩
          rw [hzero] at hk
          exact absurd hk (Nat.ne_of_lt hpos)
        rw [hpressed.now hlate hquiet]
    refine ⟨base, _, hbase, hsteady.pressed hmain hquiet, ?_⟩
    rw [hwalk, hcount, heof, hnext, hsame, Nat.add_assoc]

/-- One frame of the main game off the tiles. -/
theorem Paced.count_main {n : ℕ} (hsteady : Steady drawer ins) (hr : (ins n).reset = false)
    (hmain : (openRun drawer ins n).fsm.state = .drawMainGame)
    (hoff : (openRun drawer ins n).atTile = false)
    (hcount : if (openRun drawer ins n).fsm.Idle then 16 ∣ walkCount drawer ins n
      else Stepped drawer ins ((openRun drawer ins n).fsm.tilecounter.toNat + 1) n) :
    if (openRun drawer ins (n + 1)).fsm.Idle then 16 ∣ walkCount drawer ins (n + 1)
    else Stepped drawer ins ((openRun drawer ins (n + 1)).fsm.tilecounter.toNat + 1) (n + 1) := by
  by_cases hi : (openRun drawer ins n).fsm.Idle
  · rw [if_pos hi] at hcount
    have hkey := hsteady.key n ⟨hmain, hi⟩
    by_cases hpos : (ins n).keycodePos = GameFSM.facingKey (openRun drawer ins n).fsm.direction
    · -- A step begins, and its first pixel may be taken on this frame.
      have hcounter : (openRun drawer ins (n + 1)).fsm.tilecounter = 0#5 := by
        rw [fsm_succ, hr, hpos, (GameFSM.posedge_of_facingKey hmain hi).1]
      have hgoing : ¬ (openRun drawer ins (n + 1)).fsm.Idle := by
        rw [GameFSM.Regs.Idle, hcounter]
        decide
      rw [if_neg hgoing, hcounter]
      exact stepped_first hsteady hmain hoff (hkey.mpr hpos) hcounter hcount
    · have hrest : (openRun drawer ins (n + 1)).fsm.Idle := by
        rw [fsm_succ, hr]
        exact GameFSM.posedge_of_other hmain hi hpos
      have hwalk := walkCount_succ_of_main hmain hoff
      simp only [hi, not_true_eq_false, false_or, hkey, hpos, false_and, if_false] at hwalk
      rwa [if_pos hrest, hwalk]
  · rw [if_neg hi] at hcount
    have hcounter : (openRun drawer ins (n + 1)).fsm.tilecounter =
        (openRun drawer ins n).fsm.tilecounter + 1#5 := by
      rw [fsm_succ, hr, (GameFSM.posedge_of_not_idle hmain hi _).1]
    have hsucc : (openRun drawer ins (n + 1)).fsm.tilecounter.toNat =
        (openRun drawer ins n).fsm.tilecounter.toNat + 1 := by
      rw [hcounter]
      exact GameFSM.tilecounter_succ hi
    have hnext := hcount.succ hsteady hmain hoff hi rfl
    by_cases hlast : (openRun drawer ins (n + 1)).fsm.Idle
    · -- The step is over, and has taken its block.
      have h31 : (openRun drawer ins (n + 1)).fsm.tilecounter = 31#5 := hlast
      rw [h31] at hsucc
      have h30 : (openRun drawer ins n).fsm.tilecounter.toNat + 2 = 32 := by
        rw [← Nat.add_assoc _ 1 1, ← hsucc]
        rfl
      obtain ⟨base, running, hbase, -, hnext⟩ := hnext
      rw [if_pos hlast, hnext, h30]
      exact Nat.dvd_add hbase (paced_last running _)
    · rw [if_neg hlast, hsucc]
      exact hnext

theorem Paced.succ {n : ℕ} (h : Paced drawer ins n) (hsteady : Steady drawer ins) :
    Paced drawer ins (n + 1) := by
  refine ⟨h.screens_succ hsteady, fun hnum => ?_⟩
  have hr : (ins n).reset = false := by
    rw [Bool.eq_false_iff]
    intro hr
    refine hnum ?_
    rw [fsm_succ, hr]
    rfl
  by_cases hmain : (openRun drawer ins n).fsm.state = .drawMainGame
  · by_cases htile : (openRun drawer ins n).atTile = true
    · have hzero : walkCount drawer ins (n + 1) = 0 := by
        rw [walkCount, if_pos (.inr ⟨hmain, htile⟩)]
      by_cases hnext : (openRun drawer ins (n + 1)).atTile = true
      · exact .inl ⟨hnext, hzero⟩
      · have hlatch : (openRun drawer ins n).tile.state = .latch := by
          rw [Bool.not_eq_true, open_succ] at hnext
          exact System.latch_of_atTile (i := openIn drawer ins n) hr htile hnext
        have hidle := (idle_succ_iff hr).mpr (hsteady.tiles n hlatch hr)
        exact .inr (by rw [if_pos hidle, hzero]; exact dvd_zero 16)
    · rcases h.count (by rw [hmain]; decide) with ⟨ht, -⟩ | hcount
      · exact absurd ht htile
      · exact .inr (Paced.count_main hsteady hr hmain (Bool.eq_false_iff.mpr htile) hcount)
  · -- Behind the screens nothing moves and no step is in progress.
    have hidle : (openRun drawer ins (n + 1)).fsm.Idle := by
      rw [fsm_succ, hr, GameFSM.Regs.Idle, (GameFSM.posedge_frozen hmain _).1]
      exact h.screens hmain
    have hcount : 16 ∣ walkCount drawer ins (n + 1) := by
      rw [walkCount_succ_of_screens hmain]
      split_ifs with h0
      · exact dvd_zero 16
      · rcases h.count h0 with ⟨-, hzero⟩ | hcount
        · rw [hzero]
          exact dvd_zero 16
        · rwa [if_pos (h.screens hmain)] at hcount
    exact .inr (by rwa [if_pos hidle])

theorem Paced.rest {n : ℕ} (h : Paced drawer ins n)
    (hrest : (openRun drawer ins n).AtRest) : 16 ∣ walkCount drawer ins n := by
  rcases h.count (by rw [hrest.1]; decide) with ⟨-, hzero⟩ | hcount
  · rw [hzero]
    exact dvd_zero 16
  · rwa [if_pos hrest.2] at hcount

theorem paced_of_steady (hsteady : Steady drawer ins) (n : ℕ) : Paced drawer ins n := by
  induction n with
  | zero => exact paced_start
  | succ n ih => exact ih.succ hsteady

/-! ## The grid -/

/-- In the run of the committed code the character rests on the grid exactly if at
every rest the pixels it has taken since it was last placed are a multiple of
16. Steady input is enough for that. -/
theorem restsOnGrid_iff (drawer : FrameDrawer.Regs) (ins : ℕ → FrameIn) :
    (RestsOnGrid drawer ins ↔
      ∀ n, (openRun drawer ins n).AtRest → 16 ∣ walkCount drawer ins n) ∧
    (Steady drawer ins → RestsOnGrid drawer ins) := by
  have hiff : RestsOnGrid drawer ins ↔
      ∀ n, (openRun drawer ins n).AtRest → 16 ∣ walkCount drawer ins n :=
    Driven.forall_iff_of_invariant (J := Counted drawer ins) counted_zero
      (fun _ h => h.rest_iff) (fun _ h hrest => h.succ hrest)
  exact ⟨hiff, fun hsteady => hiff.mpr fun n hrest => (paced_of_steady hsteady n).rest hrest⟩

/-- A step up with the run button pressed on its first frame only. -/
def tapRun : List (ℕ × FrameIn) :=
  openGame ++ [(1, .pressRun GameFSM.keyW), (31, .press GameFSM.keyW)]

/-- That step takes 17 pixels, and the character rests at (288,298). -/
theorem not_restsOnGrid_tapRun : ¬ RestsOnGrid powerUp (Driven.script .noKey tapRun) := by
  have hrun : openRun powerUp (Driven.script .noKey tapRun) 84 =
      Driven.play (Driven.feedback System.frame (wire undriven)) tapRun (.onReset powerUp) :=
    runWired_script undriven .noKey tapRun 0
  intro h
  have hgrid := h 84 (by rw [hrun]; decide +kernel)
  rw [hrun] at hgrid
  revert hgrid
  decide +kernel

end Grid

end Game
