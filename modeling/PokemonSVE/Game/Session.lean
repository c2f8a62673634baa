-- SUMMARY: The screens over a run: a fade is 51 frames from `Enter`, the character waits at the start position meanwhile, and which new games start clean.
import PokemonSVE.Game.Spin

/-!
# Sessions

A session begins with `Enter` on the start screen and ends with `Escape`. The
start screen puts the position back, but neither the step counter nor the tile
FSM, so both carry over from the session before.
-/

namespace Game

open FrameDrawer (startPos)

namespace System

/-- What the screens keep: which ones are reached, where the character is during
the fade, and what the fade counter counts. -/
structure Staged (s : System) : Prop where
  reach : s.fsm.state = .startScreen ∨ s.fsm.state = .fade ∨ s.fsm.state = .drawMainGame
  fade_pos : s.fsm.state = .fade → s.pos = startPos
  fade_le : s.fsm.state = .fade → s.fsm.fadeCounter ≤ 50#6
  counter : s.fsm.state ≠ .fade → s.fsm.fadeCounter = 0#6

variable {s : System} (i : FrameIn)

theorem staged_onReset (drawer : FrameDrawer.Regs) : (onReset drawer).Staged where
  reach := .inl rfl
  fade_pos h := by cases h
  fade_le h := by cases h
  counter _ := rfl

private theorem fade_succ_le {c : BitVec 6} (h : c ≤ 50#6) (hne : c ≠ 50#6) : c + 1#6 ≤ 50#6 := by
  revert c
  decide

/-- Off the main game the character is at the start position after the edge. -/
theorem Staged.negedge_pos (hs : s.Staged) (h : s.fsm.state ≠ .drawMainGame) :
    (s.negedge i).pos = startPos := by
  rcases hs.reach with hstart | hfade | hdraw
  · exact (negedge_pos_start s i (by rw [hstart]; rfl)).1
  · rw [negedge_other s i (by rw [hfade]; decide) h]
    exact hs.fade_pos hfade
  · exact absurd hdraw h

theorem Staged.frame (hs : s.Staged) : (s.frame i).Staged := by
  cases hr : i.reset with
  | true =>
    have hfsm : (s.frame i).fsm = .onReset := by rw [frame_fsm, hr, GameFSM.posedge_reset]
    exact
      { reach := .inl (by rw [hfsm]; rfl)
        fade_pos := fun h => by rw [hfsm] at h; cases h
        fade_le := fun h => by rw [hfsm] at h; cases h
        counter := fun _ => by rw [hfsm]; rfl }
  | false =>
    have hstate : (s.frame i).fsm.state = GameFSM.nextState s.fsm i.keycodePos := by
      rw [frame_fsm, hr, GameFSM.posedge_state]
    have hcount := GameFSM.posedge_fadeCounter s.fsm i.keycodePos
    rw [← hr, ← frame_fsm] at hcount
    rcases hs.reach with hstart | hfade | hdraw
    · have hzero := hs.counter (by rw [hstart]; decide)
      simp only [hstart, reduceCtorEq, if_false, hzero] at hcount
      simp only [GameFSM.nextState, hstart] at hstate
      refine ⟨?_, fun _ => hs.negedge_pos i (by rw [hstart]; decide), ?_, fun _ => hcount⟩
      · rw [hstate]; split_ifs <;> simp
      · intro _
        rw [hcount]
        decide
    · simp only [hfade, if_true] at hcount
      simp only [GameFSM.nextState, hfade] at hstate
      refine ⟨?_, fun _ => hs.negedge_pos i (by rw [hfade]; decide), ?_, ?_⟩
      · rw [hstate]; split_ifs <;> simp
      · intro h
        by_cases hend : s.fsm.fadeCounter = 50#6
        · rw [hstate, if_pos hend] at h
          cases h
        · rw [hcount, if_neg hend]
          exact fade_succ_le (hs.fade_le hfade) hend
      · intro h
        by_cases hend : s.fsm.fadeCounter = 50#6
        · rw [hcount, if_pos hend]
        · rw [hstate, if_neg hend] at h
          exact absurd rfl h
    · have hzero := hs.counter (by rw [hdraw]; decide)
      simp only [hdraw, reduceCtorEq, if_false, hzero] at hcount
      simp only [GameFSM.nextState, hdraw] at hstate
      have hne : (s.frame i).fsm.state ≠ .fade := by
        rw [hstate]; split_ifs <;> simp
      refine ⟨?_, fun h => absurd h hne, fun h => absurd h hne, fun _ => hcount⟩
      rw [hstate]; split_ifs <;> simp

end System

theorem staged_run (drawer : FrameDrawer.Regs) (ins : ℕ → FrameIn) (n : ℕ) :
    (run drawer ins n).Staged :=
  Driven.run_invariant (System.staged_onReset drawer) (fun _ i h => h.frame i) n

theorem staged_runWired (net : System → Bool) (drawer : FrameDrawer.Regs) (ins : ℕ → FrameIn)
    (n : ℕ) : (runWired net drawer ins n).Staged :=
  runWired_of_run net drawer ins staged_run n

/-- All that a negative edge can do to the position: outside the main game it is
the start position; in the main game a landed character is on a tile, and any
other one takes the pixel in front of it, or stays. -/
theorem System.negedge_pos_cases {s : System} (hstaged : s.Staged) (hlinked : s.Linked)
    (i : FrameIn) :
    (s.fsm.state ≠ .drawMainGame ∧ (s.negedge i).pos = startPos) ∨
    (s.Landed ∧ ∃ t : Tile, (s.negedge i).pos = t.pos) ∨
    (s.Walks i ∧ (s.negedge i).pos = FrameDrawer.neighbour s.fsm.direction s.pos) ∨
    (¬ s.Walks i ∧ (s.negedge i).pos = s.pos) := by
  by_cases hmain : s.fsm.state = .drawMainGame
  · by_cases hat : s.atTile = true
    · have hstill : ¬ s.Walks i := fun hw => Bool.false_ne_true (hw.2.1.symm.trans hat)
      rcases atTile_iff_visit.mp hat with hb | hl
      · exact .inr (.inr (.inr ⟨hstill, hlinked.negedge_pos i hb hmain⟩))
      · obtain ⟨t, ht⟩ := hlinked.landed hl
        exact .inr (.inl ⟨hl, t, (negedge_pos_atTile s i hmain hat).trans ht⟩)
    · have hpos := negedge_pos_walk s i hmain (Bool.eq_false_iff.mpr hat)
      by_cases hw : s.Walks i
      · rw [if_pos hw] at hpos
        exact .inr (.inr (.inl ⟨hw, hpos⟩))
      · rw [if_neg hw] at hpos
        exact .inr (.inr (.inr ⟨hw, hpos⟩))
  · exact .inl ⟨hmain, hstaged.negedge_pos i hmain⟩

/-! ## From `Enter` to the main game -/

section Session

variable (drawer : FrameDrawer.Regs) (ins : ℕ → FrameIn)

/-- `Enter` is pressed on the start screen at the positive edge of frame `m`, and
no `Reset` comes before the fade is over. -/
structure StartsGame (m : ℕ) : Prop where
  start : (run drawer ins m).fsm.state = .startScreen
  enter : (ins m).keycodePos = GameFSM.keyEnter
  quiet : ∀ k ≤ 51, (ins (m + k)).reset = false

/-- The main game is entered from the fade at the positive edge of frame `n`. -/
def NewGame (n : ℕ) : Prop :=
  (run drawer ins n).fsm.state = .fade ∧ (run drawer ins (n + 1)).fsm.state = .drawMainGame

variable {drawer ins} {m : ℕ}

/-- The fade frame by frame. -/
theorem fade_during (h : StartsGame drawer ins m) {j : ℕ} (hj : j ≤ 50) :
    (run drawer ins (m + 1 + j)).fsm.state = .fade ∧
      (run drawer ins (m + 1 + j)).fsm.fadeCounter = BitVec.ofNat 6 j ∧
      (run drawer ins (m + 1 + j)).fsm.tilecounter = (run drawer ins m).fsm.tilecounter := by
  induction j with
  | zero =>
    have hzero := (staged_run drawer ins m).counter (by rw [h.start]; decide)
    have hr : (ins m).reset = false := h.quiet 0 (by omega)
    rw [Nat.add_zero, run_succ, System.frame_fsm, hr, h.enter]
    refine ⟨?_, ?_, (GameFSM.posedge_frozen (by rw [h.start]; decide) _).1⟩
    · simp [GameFSM.nextState, h.start]
    · simp [GameFSM.posedge_fadeCounter, h.start, hzero]
  | succ j ih =>
    obtain ⟨hstate, hcount, htile⟩ := ih (by omega)
    have hr : (ins (m + 1 + j)).reset = false := by
      rw [Nat.add_assoc, Nat.add_comm 1 j]
      exact h.quiet (j + 1) (by omega)
    have hne : BitVec.ofNat 6 j ≠ 50#6 := by
      intro he
      have := congrArg BitVec.toNat he
      simp only [BitVec.toNat_ofNat] at this
      omega
    rw [← Nat.add_assoc, run_succ, System.frame_fsm, hr]
    refine ⟨?_, ?_, ?_⟩
    · simp [GameFSM.nextState, hstate, hcount, hne]
    · rw [GameFSM.posedge_fadeCounter, if_pos hstate, hcount, if_neg hne]
      exact (BitVec.ofNat_add j 1).symm
    · rw [(GameFSM.posedge_frozen (by rw [hstate]; decide) _).1, htile]

/-- The main game comes 52 frames after `Enter`, with the step counter as it was. -/
theorem main_after_fade (h : StartsGame drawer ins m) :
    NewGame drawer ins (m + 51) ∧
      (run drawer ins (m + 52)).fsm.tilecounter = (run drawer ins m).fsm.tilecounter := by
  obtain ⟨hstate, hcount, htile⟩ := fade_during h (j := 50) le_rfl
  have hr : (ins (m + 1 + 50)).reset = false := h.quiet 51 le_rfl
  refine ⟨⟨hstate, ?_⟩, ?_⟩
  · change (run drawer ins (m + 1 + 50 + 1)).fsm.state = _
    rw [run_succ, System.frame_fsm, hr, GameFSM.posedge_state]
    simp [GameFSM.nextState, hstate, hcount]
  · change (run drawer ins (m + 1 + 50 + 1)).fsm.tilecounter = _
    rw [run_succ, System.frame_fsm, hr, (GameFSM.posedge_frozen (by rw [hstate]; decide) _).1,
      htile]

/-- A frame of the fade comes from the `Enter` that started it. -/
theorem exists_enter_of_fade {n : ℕ} (h : (run drawer ins n).fsm.state = .fade) :
    ∃ m, n = m + 1 + (run drawer ins n).fsm.fadeCounter.toNat ∧
      (run drawer ins m).fsm.state = .startScreen ∧
      (ins m).keycodePos = GameFSM.keyEnter ∧
      ∀ k, m ≤ k → k < n → (ins k).reset = false := by
  induction n with
  | zero => cases h
  | succ n ih =>
    have hstaged := staged_run drawer ins n
    rw [run_succ, System.frame_fsm] at h ⊢
    cases hr : (ins n).reset with
    | true => rw [hr] at h; cases h
    | false =>
      rw [hr, GameFSM.posedge_state] at h
      rw [GameFSM.posedge_fadeCounter]
      rcases hstaged.reach with hs | hs | hs
      · have hzero := hstaged.counter (by rw [hs]; decide)
        refine ⟨n, by simp [hs, hzero], hs, ?_, fun k hk hkn => ?_⟩
        · by_contra hkey
          simp [GameFSM.nextState, hs, hkey] at h
        · rwa [show k = n by omega]
      · obtain ⟨m, hn, hstart, henter, hquiet⟩ := ih hs
        have hne : (run drawer ins n).fsm.fadeCounter ≠ 50#6 := by
          intro he
          simp [GameFSM.nextState, hs, he] at h
        have hle := hstaged.fade_le hs
        refine ⟨m, ?_, hstart, henter, fun k hk hkn => ?_⟩
        · rw [if_pos hs, if_neg hne]
          bv_omega
        · rcases Nat.lt_succ_iff_lt_or_eq.mp hkn with hlt | rfl
          · exact hquiet k hk hlt
          · exact hr
      · simp only [GameFSM.nextState, hs] at h
        split_ifs at h

/-- Every new game comes from a press of `Enter` 51 frames before. -/
theorem startsGame_of_newGame {n : ℕ} (h : NewGame drawer ins n) :
    ∃ m, n = m + 51 ∧ StartsGame drawer ins m := by
  obtain ⟨hfade, hdraw⟩ := h
  obtain ⟨m, hn, hstart, henter, hquiet⟩ := exists_enter_of_fade hfade
  rw [run_succ, System.frame_fsm] at hdraw
  cases hr : (ins n).reset with
  | true => rw [hr] at hdraw; cases hdraw
  | false =>
    have hend : (run drawer ins n).fsm.fadeCounter = 50#6 := by
      by_contra hne
      rw [hr, GameFSM.posedge_state] at hdraw
      simp [GameFSM.nextState, hfade, hne] at hdraw
    rw [hend] at hn
    have hn' : n = m + 51 := hn
    refine ⟨m, hn', hstart, henter, fun k hk => ?_⟩
    rcases Nat.lt_or_eq_of_le (show m + k ≤ n by omega) with hlt | heq
    · exact hquiet (m + k) (by omega) hlt
    · rwa [heq]

/-! ## The tile FSM during the fade

`Enter` and the fade are 52 frames on the first tile, so the tile FSM is 52 frames
further on in its visit when the main game is entered. -/

/-- During `Enter` and the fade the tile logic reads the first tile. -/
theorem onTile_home_during (h : StartsGame drawer ins m) {j : ℕ} (hj : j ≤ 51) :
    ((run drawer ins (m + j)).negedge (ins (m + j))).OnTile Tile.home := by
  have hmain : (run drawer ins (m + j)).fsm.state ≠ .drawMainGame := by
    rcases Nat.eq_zero_or_pos j with rfl | hpos
    · rw [Nat.add_zero, h.start]
      decide
    · obtain ⟨e, rfl⟩ : ∃ e, j = 1 + e := ⟨j - 1, by omega⟩
      rw [← Nat.add_assoc, (fade_during h (j := e) (by omega)).1]
      decide
  exact ((staged_run drawer ins (m + j)).negedge_pos _ hmain).trans Tile.home_pos.symm

/-- The countdown of the visit goes on behind the screens. -/
theorem busy_behind_screens (h : StartsGame drawer ins m) {d : ℕ} (hd52 : d ≤ 52)
    (hd : d ≤ (run drawer ins m).tile.busy) :
    (run drawer ins (m + d)).tile.busy + d = (run drawer ins m).tile.busy ∧
      (0 < d → (run drawer ins (m + d)).tile.state ≠ .notTile) := by
  induction d with
  | zero => exact ⟨rfl, by omega⟩
  | succ d ih =>
    obtain ⟨hbusy, -⟩ := ih (by omega) (by omega)
    have hon := (System.isOnTile_iff _).mpr ⟨_, onTile_home_during h (j := d) (by omega)⟩
    have hr : (ins (m + d)).reset = false := h.quiet d (by omega)
    have hstep := GymTileLogic.busy_posedge _ _ (spinReady_run drawer ins (m + d))
      (fun _ => hon) (by omega)
    rw [← Nat.add_assoc m d 1, run_succ, System.frame_tile, hr]
    exact ⟨by have := hstep.1; omega, fun _ => hstep.2⟩

/-- `hold` lasts behind the screens. -/
theorem hold_behind_screens (h : StartsGame drawer ins m) {d : ℕ}
    (hhold : (run drawer ins (m + d)).tile.state = .hold) (hd : d ≤ 52) :
    (run drawer ins (m + 52)).tile.state = .hold := by
  refine Driven.hold_while (P := fun k => (run drawer ins k).tile.state = .hold)
    (G := fun k => k < m + 52) hhold ?_ (m + 52) (by omega) fun k _ hk => hk
  intro k hmk hk hstate
  obtain ⟨j, rfl⟩ := Nat.exists_eq_add_of_le (show m ≤ k by omega)
  exact System.frame_hold _ hstate (h.quiet j (by omega))
    ⟨_, onTile_home_during h (j := j) (by omega)⟩

/-- When the main game is entered, the visit is over exactly if it had at most 52
frames to go at `Enter`. -/
theorem atTile_of_startsGame (h : StartsGame drawer ins m) :
    (run drawer ins (m + 52)).tile.state = .hold ∧ (run drawer ins m).tile.busy ≤ 52 ∨
      (run drawer ins (m + 52)).atTile = true ∧ 52 < (run drawer ins m).tile.busy := by
  rcases Nat.lt_or_ge 52 (run drawer ins m).tile.busy with hlt | hle
  · obtain ⟨hbusy, hnot⟩ := busy_behind_screens h le_rfl hlt.le
    have hhold : (run drawer ins (m + 52)).tile.state ≠ .hold := by
      intro hstate
      have := GymTileLogic.busy_eq_zero.mpr hstate
      omega
    refine .inr ⟨?_, hlt⟩
    rw [System.atTile_eq]
    cases hstate : (run drawer ins (m + 52)).tile.state <;> simp_all
  · have hbusy := (busy_behind_screens h hle le_rfl).1
    exact .inl ⟨hold_behind_screens h (GymTileLogic.busy_eq_zero.mp (by omega)) hle, hle⟩

end Session

/-! ## Clean starts -/

/-- A frame on which nothing is pressed, the run button apart. -/
def FrameIn.Quiet (i : FrameIn) : Prop :=
  i.keycodeNeg = 0#8 ∧ i.keycodePos = 0#8 ∧ i.reset = false

/-- A clean state to start a game from: the character is at the start position,
no step is in progress, and the tile logic does not override the position, so
that the character stays where it is for as long as no key is pressed. -/
structure System.Clean (s : System) : Prop where
  pos : s.pos = startPos
  idle : s.fsm.Idle
  atTile : s.atTile = false
  stays : ∀ ins, (∀ k, FrameIn.Quiet (ins k)) → ∀ n,
    (Driven.run System.frame s ins n).pos = startPos

theorem facingKey_ne_zero (d : BitVec 2) : (0#8 : BitVec 8) ≠ GameFSM.facingKey d := by
  revert d
  decide

/-- At rest on the first tile in `hold`. -/
structure System.Waits (s : System) : Prop where
  main : s.fsm.state = .drawMainGame
  pos : s.pos = startPos
  idle : s.fsm.Idle
  hold : s.tile.state = .hold

theorem System.Waits.frame {s : System} (hs : s.Waits) {i : FrameIn} (hi : i.Quiet) :
    (s.frame i).Waits := by
  obtain ⟨hneg, hpos, hr⟩ := hi
  have hoff : s.atTile = false := s.atTile_of_hold hs.hold
  have hstill : ¬ s.Walks i := by
    rw [System.walks_iff, hneg]
    rintro ⟨-, -, hmove, -⟩
    exact hmove.elim (fun h => h hs.idle) (facingKey_ne_zero _)
  have hstart : (s.negedge i).pos = startPos := by
    rw [System.negedge_pos_walk s i hs.main hoff, if_neg hstill, hs.pos]
  exact
    { main := s.frame_drawMainGame i hs.main hr (by rw [hpos]; decide)
      pos := hstart
      idle := by
        rw [System.frame_fsm, hr, hpos]
        exact GameFSM.posedge_of_other hs.main hs.idle (facingKey_ne_zero _)
      hold := System.frame_hold i hs.hold hr ⟨Tile.home, hstart.trans Tile.home_pos.symm⟩ }

theorem System.Waits.run {s : System} (hs : s.Waits) {ins : ℕ → FrameIn}
    (hins : ∀ k, (ins k).Quiet) (n : ℕ) : (Driven.run System.frame s ins n).Waits :=
  Driven.run_invariant_of (P := System.Waits) (Q := FrameIn.Quiet) hs
    (fun _ _ h hi => h.frame hi) hins n

theorem System.Waits.clean {s : System} (hs : s.Waits) : s.Clean where
  pos := hs.pos
  idle := hs.idle
  atTile := s.atTile_of_hold hs.hold
  stays _ hins n := (hs.run hins n).pos

/-- Every new game of a run starts clean exactly if every `Enter` that starts one
is pressed at rest, with the tile FSM at most 52 frames away from `hold`. -/
theorem clean_newGame_iff (drawer : FrameDrawer.Regs) (ins : ℕ → FrameIn) :
    (∀ n, NewGame drawer ins n → (run drawer ins (n + 1)).Clean) ↔
      ∀ m, StartsGame drawer ins m →
        (run drawer ins m).fsm.Idle ∧ (run drawer ins m).tile.busy ≤ 52 := by
  constructor
  · intro hclean m hstart
    obtain ⟨hnew, hcount⟩ := main_after_fade hstart
    have hc : (run drawer ins (m + 52)).Clean := hclean (m + 51) hnew
    refine ⟨?_, ?_⟩
    · exact hcount.symm.trans hc.idle
    · rcases atTile_of_startsGame hstart with ⟨-, hle⟩ | ⟨hat, -⟩
      · exact hle
      · exact absurd (hc.atTile.symm.trans hat) Bool.false_ne_true
  · intro henter n hnew
    obtain ⟨m, rfl, hstart⟩ := startsGame_of_newGame hnew
    obtain ⟨hidle, hbusy⟩ := henter m hstart
    have hcount := (main_after_fade hstart).2
    have hhold : (run drawer ins (m + 52)).tile.state = .hold := by
      rcases atTile_of_startsGame hstart with ⟨hhold, -⟩ | ⟨-, hlt⟩
      · exact hhold
      · omega
    have hwaits : (run drawer ins (m + 52)).Waits :=
      { main := hnew.2
        pos := (staged_run drawer ins (m + 51)).negedge_pos _ (by rw [hnew.1]; decide)
        idle := hcount.trans hidle
        hold := hhold }
    exact hwaits.clean

/-- Leaving the game in the middle of a step, and entering it again. -/
def escapeMidStep : List (ℕ × FrameIn) :=
  openGame ++ [(5, .press GameFSM.keyW), (1, .press GameFSM.keyEscape),
    (1, .press GameFSM.keyEnter), (50, .noKey)]

/-- The second game of that run starts with five frames of the step done, and with
the tile FSM spinning. -/
theorem not_clean_escapeMidStep :
    ¬ ∀ n, NewGame powerUp (Driven.script .noKey escapeMidStep) n →
      (run powerUp (Driven.script .noKey escapeMidStep) (n + 1)).Clean := by
  have hrun : ∀ k, run powerUp (Driven.script .noKey escapeMidStep) (109 + k) =
      Driven.held System.frame .noKey k
        (Driven.play System.frame escapeMidStep (.onReset powerUp)) :=
    fun k => run_script .noKey escapeMidStep k
  intro h
  have hidle := (h 109 ⟨by rw [hrun 0]; decide +kernel, by rw [hrun 1]; decide +kernel⟩).idle
  rw [hrun 1] at hidle
  revert hidle
  decide +kernel

end Game
