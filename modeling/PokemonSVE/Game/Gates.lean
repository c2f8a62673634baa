-- SUMMARY: On every run a frame takes the character from one room to another only by a gate: from a tile to the partner of that tile.
import PokemonSVE.Game.Journey

/-!
# Rooms and gates

Left of the first column of rooms no wall stops the character, but coordinates wrap, and
the line at column 480 stops it there. With the strip between them a room of that column is
as closed as the others, and the graph of gates is all that a player can use.
-/

namespace Game

open FrameDrawer (Pos neighbour)

namespace Room

/-- The positions in a room, with those left of it if it is in the first column. -/
def Encloses (r : Room) (p : Pos) : Prop :=
  (if r.col.val = 0 then p.1.toNat ≤ 128 ∨ 480 ≤ p.1.toNat
    else 160 * r.col.val ≤ p.1.toNat ∧ p.1.toNat ≤ 160 * r.col.val + 128) ∧
  26 + 128 * r.row.val ≤ p.2.toNat ∧ p.2.toNat ≤ 107 + 128 * r.row.val

instance (r : Room) (p : Pos) : Decidable (r.Encloses p) := inferInstanceAs (Decidable (_ ∧ _))

theorem Contains.encloses {r : Room} {p : Pos} (h : r.Contains p) : r.Encloses p := by
  obtain ⟨⟨hl, hr⟩, hrows⟩ := h
  refine ⟨?_, hrows⟩
  split_ifs with hcol
  · exact .inl (by omega)
  · exact ⟨hl, hr⟩

/-- No wall is missing. -/
theorem Encloses.neighbour {r : Room} {p : Pos} (h : r.Encloses p) {d : BitVec 2}
    (hwall : GymBoundsChecker.atBounds d p.1 p.2 = false) : r.Encloses (neighbour d p) := by
  rcases r with ⟨col, row⟩
  rcases p with ⟨x, y⟩
  obtain ⟨hcols, ht, hb⟩ := h
  have hx := x.isLt
  have hrow := row.isLt
  have hcol := col.isLt
  have hopen : ¬ GymBoundsChecker.atBounds d x y = true := by rw [hwall]; exact Bool.false_ne_true
  dsimp only at *
  rcases GameFSM.direction_cases d with rfl | rfl | rfl | rfl
  · rw [GymBoundsChecker.atBounds_down] at hopen
    refine ⟨hcols, ?_⟩
    simp only [FrameDrawer.neighbour_down]
    rw [FrameDrawer.toNat_add_one]
    split_ifs <;> omega
  · rw [GymBoundsChecker.atBounds_up] at hopen
    refine ⟨hcols, ?_⟩
    simp only [FrameDrawer.neighbour_up]
    rw [FrameDrawer.toNat_sub_one]
    split_ifs <;> omega
  · rw [GymBoundsChecker.atBounds_left] at hopen
    refine ⟨?_, ht, hb⟩
    simp only [FrameDrawer.neighbour_left]
    rw [FrameDrawer.toNat_sub_one]
    split_ifs at hcols ⊢ <;> omega
  · rw [GymBoundsChecker.atBounds_right] at hopen
    refine ⟨?_, ht, hb⟩
    simp only [FrameDrawer.neighbour_right]
    rw [FrameDrawer.toNat_add_one]
    split_ifs at hcols ⊢ <;> omega

theorem Encloses.unique {r r' : Room} {p : Pos} (h : r.Encloses p) (h' : r'.Encloses p) :
    r = r' := by
  rcases r with ⟨col, row⟩
  rcases r' with ⟨col', row'⟩
  obtain ⟨hcols, ht, hb⟩ := h
  obtain ⟨hcols', ht', hb'⟩ := h'
  have hcol := col.isLt
  have hcol' := col'.isLt
  dsimp only at *
  obtain rfl : col = col' := Fin.ext (by split_ifs at hcols hcols' <;> omega)
  obtain rfl : row = row' := Fin.ext (by omega)
  rfl

end Room

theorem walled_closed : Walled (fun p => ∃ r : Room, r.Encloses p) (fun _ _ => False) where
  start := ⟨_, Room.contains_startPos.encloses⟩
  tile t := ⟨_, (Room.contains_tile t).encloses⟩
  walk d p h hwall := by
    obtain ⟨r, hr⟩ := h
    exact ⟨fun _ => not_false, fun _ => ⟨r, hr.neighbour hwall⟩⟩

/-! ## Where a landed character comes from

A visit goes on behind the screens, and one that has landed when a game ends has to be over
before the next game begins: nine frames at most against the 51 of the fade. -/

namespace System

structure Arrived (s : System) : Prop where
  main : s.fsm.state = .drawMainGame → s.Landed →
    ∃ t : Tile, s.latched = t.partner.pos ∧ (s.OnTile t ∨ s.OnTile t.partner)
  fade : s.fsm.state = .fade → s.Landed →
    s.latched = Tile.home.partner.pos ∨ s.tile.busy + s.fsm.fadeCounter.toNat ≤ 9

variable {s : System} {i : FrameIn}

/-- A character that has landed is fed back where it was, or has just been teleported. -/
theorem landed_of_frame (hready : s.tile.SpinReady) (hr : i.reset = false)
    (h : (s.frame i).Landed) : s.tile.state = .teleport ∨
      s.Landed ∧ (s.frame i).latched = s.latched ∧ (s.frame i).tile.busy < s.tile.busy := by
  have htile := frame_tile s i
  rw [hr] at htile
  have hbusy (hne : s.tile.state ≠ .notTile) (hhold : s.tile.state ≠ .hold) :
      (s.frame i).tile.busy < s.tile.busy := by
    have hless := (GymTileLogic.busy_posedge (s.negedge i).xright (s.negedge i).ybottom hready
      (fun hwalk => absurd hwalk hne) (mt GymTileLogic.busy_eq_zero.mp hhold)).1
    rw [htile]
    exact Nat.lt_of_succ_le hless.le
  cases hs : s.tile.state with
  | notTile =>
    rw [GymTileLogic.posedge_notTile _ _ hs] at htile
    rw [Landed, htile] at h
    split_ifs at h <;> simp at h
  | prespin =>
    rw [GymTileLogic.posedge_prespin _ _ hs] at htile
    rw [Landed, htile] at h
    split_ifs at h <;> simp at h
  | teleport => exact .inl rfl
  | postspin =>
    have hless := hbusy (by simp [hs]) (by simp [hs])
    rw [GymTileLogic.posedge_postspin _ _ hs] at htile
    exact .inr ⟨.inl hs, by rw [latched, latched, htile], hless⟩
  | latch =>
    rw [GymTileLogic.posedge_latch _ _ hs] at htile
    rw [Landed, htile] at h
    simp at h
  | hold =>
    rw [GymTileLogic.posedge_hold _ _ hs] at htile
    rw [Landed, htile] at h
    split_ifs at h <;> simp at h

/-- A frame of the main game. -/
theorem Arrived.frame_main (h : s.Arrived) (hs : s.Sound) (hr : i.reset = false)
    (hmain : s.fsm.state = .drawMainGame) (hl : (s.frame i).Landed) :
    ∃ t : Tile, (s.frame i).latched = t.partner.pos ∧
      ((s.frame i).OnTile t ∨ (s.frame i).OnTile t.partner) := by
  rcases landed_of_frame hs.ready hr hl with hport | ⟨hland, hlatched, -⟩
  · obtain ⟨t, hon, -⟩ := hs.linked.boarding (.inr hport)
    have hstay : (s.frame i).OnTile t := (hs.linked.negedge_pos i (.inr hport) hmain).trans hon
    exact ⟨t, (frame_latched_teleport i hr hport hstay).2, .inl hstay⟩
  · obtain ⟨t, ht, -⟩ := h.main hmain hland
    exact ⟨t, hlatched.trans ht, .inr ((negedge_pos_landed i hmain hland).trans ht)⟩

/-- A frame of the screens, where the character is on the first tile. -/
theorem Arrived.frame_screen (h : s.Arrived) (hs : s.Sound) (hr : i.reset = false)
    (hscreen : s.fsm.state ≠ .drawMainGame) (hl : (s.frame i).Landed) :
    (s.frame i).OnTile Tile.home ∧ ((s.frame i).latched = Tile.home.partner.pos ∨
      (s.frame i).tile.busy + (s.frame i).fsm.fadeCounter.toNat ≤ 9 ∧
        (s.frame i).fsm.state ≠ .drawMainGame) := by
  have hhome : (s.frame i).OnTile Tile.home :=
    (hs.staged.negedge_pos i hscreen).trans Tile.home_pos.symm
  refine ⟨hhome, ?_⟩
  have hstate : (s.frame i).fsm.state = GameFSM.nextState s.fsm i.keycodePos := by
    rw [frame_fsm, hr, GameFSM.posedge_state]
  have hcount := GameFSM.posedge_fadeCounter s.fsm i.keycodePos
  rw [← hr, ← frame_fsm] at hcount
  rcases landed_of_frame hs.ready hr hl with hport | ⟨hland, hlatched, hless⟩
  · exact .inl (frame_latched_teleport i hr hport hhome).2
  · rcases hs.staged.reach with hstart | hfade | hmain
    · have hzero := hs.staged.counter (by rw [hstart]; decide)
      have hle := GymTileLogic.busy_le_of_landed hs.ready hland
      rw [if_neg (by rw [hstart]; decide), hzero] at hcount
      rw [GameFSM.nextState, hstart] at hstate
      refine .inr ⟨?_, ?_⟩
      · rw [hcount]
        simp
        omega
      · rw [hstate]
        dsimp only
        split_ifs <;> decide
    · rcases h.fade hfade hland with hsame | hle
      · exact .inl (hlatched.trans hsame)
      · have hne : s.fsm.fadeCounter ≠ 50#6 := by bv_omega
        rw [if_pos hfade, if_neg hne] at hcount
        rw [GameFSM.nextState, hfade] at hstate
        refine .inr ⟨?_, ?_⟩
        · rw [hcount]
          bv_omega
        · rw [hstate]
          simp [hne]
    · exact absurd hmain hscreen

theorem Arrived.frame (h : s.Arrived) (hs : s.Sound) (i : FrameIn) : (s.frame i).Arrived := by
  cases hr : i.reset with
  | true =>
    have htile : (s.frame i).tile = .onReset := by rw [frame_tile, hr, GymTileLogic.posedge_reset]
    constructor <;> intro _ hl <;> simp [Landed, htile, GymTileLogic.Regs.onReset] at hl
  | false =>
    by_cases hmain : s.fsm.state = .drawMainGame
    · refine ⟨fun _ hl => h.frame_main hs hr hmain hl, fun hfade _ => ?_⟩
      rw [frame_fsm, hr, GameFSM.posedge_state, GameFSM.nextState, hmain] at hfade
      dsimp only at hfade
      split_ifs at hfade
    · constructor
      · intro hmain' hl
        obtain ⟨hhome, hlatched | ⟨-, hscreen⟩⟩ := h.frame_screen hs hr hmain hl
        · exact ⟨Tile.home, hlatched, .inl hhome⟩
        · exact absurd hmain' hscreen
      · intro _ hl
        obtain ⟨-, hlatched | ⟨hle, -⟩⟩ := h.frame_screen hs hr hmain hl
        · exact .inl hlatched
        · exact .inr hle

end System

theorem arrived_run (drawer : FrameDrawer.Regs) (ins : ℕ → FrameIn) (n : ℕ) :
    (run drawer ins n).Arrived := by
  induction n with
  | zero =>
    constructor <;> intro _ hl <;> simp [System.Landed, GymTileLogic.Regs.onReset] at hl
  | succ n ih => exact ih.frame (sound_run drawer ins n) (ins n)

theorem Tile.room_encloses (t : Tile) : t.room.Encloses t.pos := (Room.contains_tile t).encloses

section Gates

variable {drawer : FrameDrawer.Regs} {ins : ℕ → FrameIn} {n : ℕ}

/-- A landed character is taken from a tile to its partner, or is there already. -/
theorem gate_of_landed (hmain : (gymRun drawer ins n).fsm.state = .drawMainGame)
    (hland : (gymRun drawer ins n).Landed) :
    ∃ t : Tile, (gymRun drawer ins (n + 1)).OnTile t.partner ∧
      ((gymRun drawer ins n).OnTile t ∨ (gymRun drawer ins n).OnTile t.partner) := by
  obtain ⟨t, hlatched, hon⟩ :=
    (runWired_of_run gyminstance drawer ins arrived_run n).main hmain hland
  exact ⟨t, (System.negedge_pos_landed _ hmain hland).trans hlatched, hon⟩

/-- A frame keeps the room, or uses a gate. -/
theorem room_or_gate (hmain : (gymRun drawer ins n).fsm.state = .drawMainGame) :
    (∃ r : Room, r.Encloses (gymRun drawer ins n).pos ∧
      r.Encloses (gymRun drawer ins (n + 1)).pos) ∨
    ∃ t : Tile, (gymRun drawer ins n).OnTile t ∧ (gymRun drawer ins (n + 1)).OnTile t.partner := by
  have hsound := runWired_of_run gyminstance drawer ins sound_run n
  obtain ⟨⟨r, hr⟩, -⟩ := (walled_closed.staysIn_iff drawer ins).mpr (fun _ h => h.2) n hmain
  rcases System.negedge_pos_cases hsound.staged hsound.linked (gymIn drawer ins n) with
    ⟨hscreen, -⟩ | ⟨hland, -⟩ | ⟨hwalk, hpos⟩ | ⟨-, hpos⟩
  · exact absurd hmain hscreen
  · obtain ⟨t, hnext, hon⟩ := gate_of_landed hmain hland
    rcases hon with hon | hon
    · exact .inr ⟨t, hon, hnext⟩
    · refine .inl ⟨r, hr, ?_⟩
      rw [hnext, ← hon]
      exact hr
  · refine .inl ⟨r, hr, ?_⟩
    rw [gym_succ, System.frame_pos, hpos]
    exact hr.neighbour (atBounds_of_walks hwalk)
  · refine .inl ⟨r, hr, ?_⟩
    rw [gym_succ, System.frame_pos, hpos]
    exact hr

end Gates

/-- In every frame of the main game, on every run, the character goes from a room to a room,
and if they are two, it goes from a tile of the one to the partner of that tile in the
other. -/
theorem rooms_change_at_gates (drawer : FrameDrawer.Regs) (ins : ℕ → FrameIn) (n : ℕ)
    (hmain : (gymRun drawer ins n).fsm.state = .drawMainGame) :
    (∃ r r' : Room, r.Encloses (gymRun drawer ins n).pos ∧
      r'.Encloses (gymRun drawer ins (n + 1)).pos) ∧
    ∀ r r' : Room, r.Encloses (gymRun drawer ins n).pos →
      r'.Encloses (gymRun drawer ins (n + 1)).pos → r ≠ r' →
      ∃ t : Tile, (gymRun drawer ins n).OnTile t ∧
        (gymRun drawer ins (n + 1)).OnTile t.partner ∧ r = t.room ∧ r' = t.partner.room := by
  rcases room_or_gate hmain with ⟨q, hq, hq'⟩ | ⟨t, hon, hnext⟩
  · refine ⟨⟨q, q, hq, hq'⟩, fun r r' hr hr' hne => ?_⟩
    exact absurd ((hr.unique hq).trans (hq'.unique hr')) hne
  · have ht := t.room_encloses
    have hu := t.partner.room_encloses
    rw [← hon] at ht
    rw [← hnext] at hu
    exact ⟨⟨_, _, ht, hu⟩, fun r r' hr hr' _ => ⟨t, hon, hnext, hr.unique ht, hr'.unique hu⟩⟩

/-- The first frame of a game. -/
theorem rooms_change_at_gates_start :
    ∃ r r' : Room,
      r.Encloses (gymRun powerUp (Driven.script .noKey openGame) (Driven.length openGame)).pos ∧
      r'.Encloses
        (gymRun powerUp (Driven.script .noKey openGame) (Driven.length openGame + 1)).pos := by
  refine (rooms_change_at_gates powerUp (Driven.script .noKey openGame)
    (Driven.length openGame) ?_).1
  rw [gymRun, runWired_script_end]
  decide +kernel

end Game
