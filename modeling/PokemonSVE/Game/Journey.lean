-- SUMMARY: The frames realise the gym: every way of the graph can be walked with the direction keys, and from every reachable state the keys bring the character to every tile.
import PokemonSVE.Basis.Leads
import PokemonSVE.Game.Gym
import PokemonSVE.Game.Holding
import PokemonSVE.Game.Teleport

/-!
# Journeys

Each move of the graph is up to 33 frames with a direction key held, one of which may turn the
character, and the frames without a key in which the tile logic carries it on. All of this
holds with `atBounds` undriven, and with the checker on it.
-/

namespace Game

open FrameDrawer (Pos neighbour)
open Driven (Leads leads_of_imp leads_of_tick leads_of_stages leads_of_measure leads_of_path)

/-- A net for `atBounds` that stops the character nowhere but where the checker does. -/
def Lenient (net : System → Bool) : Prop := ∀ s, net s = true → gyminstance s = true

/-- The net of the committed code is one, and so is the instance of the checker. -/
theorem lenient_undriven : Lenient undriven := fun _ h => absurd h Bool.false_ne_true

theorem lenient_gyminstance : Lenient gyminstance := fun _ h => h

/-- A frame in which the net drives `atBounds`. -/
abbrev netFrame (net : System → Bool) : System → FrameIn → System :=
  Driven.feedback System.frame (wire net)

/-- No key, or one of the four direction keys, over both edges of the frame. -/
def FrameIn.Walking (i : FrameIn) : Prop := i = .noKey ∨ ∃ d, i = .press (GameFSM.facingKey d)

namespace System

/-! ## At rest -/

/-- The tile logic leaves the character alone for as long as it stays where it is. -/
def Alone (s : System) : Prop :=
  s.tile.state = .hold ∨ s.tile.state = .notTile ∧ ∀ t, ¬ s.OnTile t

/-- The character rests on a point of the grid. -/
structure Rests (s : System) (p : Pos) : Prop where
  main : s.fsm.state = .drawMainGame
  idle : s.fsm.Idle
  pos : s.pos = p
  grid : OnGrid p
  alone : s.Alone

variable {s : System} {i : FrameIn} {net : System → Bool}

theorem Alone.atTile (h : s.Alone) : s.atTile = false := by
  rw [Bool.eq_false_iff, ne_eq, atTile_eq]
  rcases h with hhold | ⟨hnot, -⟩
  · simp [hhold]
  · simp [hnot]

theorem isOnTile_frame :
    GymTileLogic.isOnTile ((s.negedge i).xright ++ (s.negedge i).ybottom) = true ↔
    ∃ t, (s.frame i).OnTile t :=
  (s.negedge i).isOnTile_iff

/-- Off the tiles the tile logic waits. -/
theorem Alone.frame_off (h : s.Alone) (hr : i.reset = false) (hoff : ∀ t, ¬ (s.frame i).OnTile t) :
    (s.frame i).tile.state = .notTile := by
  have hxy := mt isOnTile_frame.mp (not_exists.mpr hoff)
  rcases h with hhold | ⟨hnot, -⟩
  · rw [frame_tile, hr, GymTileLogic.posedge_hold _ _ hhold, if_neg hxy]
  · rw [frame_tile, hr, GymTileLogic.posedge_notTile _ _ hnot, if_neg hxy]

theorem frame_board (h : s.tile.state = .notTile) (hr : i.reset = false) {t : Tile}
    (hon : (s.frame i).OnTile t) : (s.frame i).tile.state = .prespin := by
  rw [frame_tile, hr, GymTileLogic.posedge_notTile _ _ h, if_pos (isOnTile_frame.mpr ⟨t, hon⟩)]

/-- A character that stays is left alone. -/
theorem Alone.frame_stay (h : s.Alone) (hr : i.reset = false) (hpos : (s.frame i).pos = s.pos) :
    (s.frame i).Alone := by
  by_cases hon : ∃ t, (s.frame i).OnTile t
  · obtain ⟨t, ht⟩ := hon
    rcases h with hhold | ⟨-, hoff⟩
    · exact .inl (frame_hold i hhold hr ⟨t, ht⟩)
    · exact absurd (hpos.symm.trans ht) (hoff t)
  · have hoff := not_exists.mp hon
    exact .inr ⟨h.frame_off hr hoff, hoff⟩

/-- A character at rest is in no visit. -/
theorem Alone.linked (h : s.Alone) : s.Linked := by
  constructor <;> intro hstage <;> rcases h with h | ⟨h, -⟩ <;> simp_all [Boarding, Landed]

theorem Alone.ready (h : s.Alone) : s.tile.SpinReady := by
  constructor <;> intro hstage <;> rcases h with h | ⟨h, -⟩ <;> simp_all

/-! ## Turning -/

/-- At rest a character stays that is not asked to walk on. -/
theorem Rests.frame {p : Pos} (h : s.Rests p) (hr : i.reset = false)
    (hneg : i.keycodeNeg ≠ GameFSM.facingKey s.fsm.direction)
    (hpos : i.keycodePos ≠ GameFSM.facingKey s.fsm.direction)
    (hescape : i.keycodePos ≠ GameFSM.keyEscape) : (s.frame i).Rests p := by
  have hstill : ¬ s.Walks i := by
    rw [walks_iff]
    rintro ⟨-, -, hmoves | hkey, -⟩
    · exact hmoves h.idle
    · exact hneg hkey
  have hstay : (s.frame i).pos = s.pos := by
    rw [frame_pos, negedge_pos_walk s i h.main h.alone.atTile, if_neg hstill]
  refine ⟨frame_drawMainGame s i h.main hr hescape, ?_, hstay.trans h.pos, h.grid,
    h.alone.frame_stay hr hstay⟩
  rw [frame_fsm, hr]
  exact GameFSM.posedge_of_other h.main h.idle hpos

/-- The key of another direction turns the character. -/
theorem leads_turn (d : BitVec 2) (p : Pos) :
    Leads (netFrame net) FrameIn.Walking (fun s => s.Rests p)
      (fun s => s.Rests p ∧ s.fsm.direction = d) := by
  refine leads_of_measure (fun s => if s.fsm.direction = d then 0 else 1) fun s h => ?_
  by_cases hd : s.fsm.direction = d
  · exact .inl ⟨h, hd⟩
  · have hkey : GameFSM.facingKey d ≠ GameFSM.facingKey s.fsm.direction :=
      fun heq => hd (GameFSM.facingKey_injective heq).symm
    have hturns : (netFrame net s (.press (GameFSM.facingKey d))).fsm.direction = d :=
      GameFSM.posedge_turns h.main h.idle hd
    refine .inr ⟨.press (GameFSM.facingKey d), .inr ⟨d, rfl⟩,
      h.frame rfl hkey hkey (GameFSM.facingKey_ne_escape d), ?_⟩
    rw [if_pos hturns, if_neg hd]
    exact Nat.one_pos

/-! ## A step -/

/-- The pixels of the first `k` frames of a step that has come to `s`. -/
def pixels (s : System) (k : ℕ) : ℕ := paced false s.drawer.everyotherframe k

theorem pixels_frame (h : s.fsm.state = .drawMainGame) (k : ℕ) :
    (s.frame i).pixels (k + 1) =
      s.pixels k + if s.drawer.everyotherframe = true then 1 else 0 := by
  have hsucc := paced_succ false s.drawer.everyotherframe k
  rw [pixels, everyotherframe_frame h, hsucc, pixels]
  simp

theorem pixels_le (s : System) {k : ℕ} (hk : k ≤ 32) : s.pixels k ≤ 16 := by
  simp only [pixels, paced, Bool.false_eq_true, if_false]
  split_ifs <;> omega

theorem le_of_pixels {k : ℕ} (h : s.pixels k = 16) : 31 ≤ k := by
  simp only [pixels, paced, Bool.false_eq_true, if_false] at h
  split_ifs at h <;> omega

/-- After `k` frames of a step in direction `d` from `p`: the tile logic is off, or is
still in the visit before, or is in the next one already. -/
structure Stepping (d : BitVec 2) (p : Pos) (k : ℕ) (s : System) : Prop where
  main : s.fsm.state = .drawMainGame
  direction : s.fsm.direction = d
  tilecounter : s.fsm.tilecounter = BitVec.ofNat 5 (k + 31)
  linked : s.Linked
  ready : s.tile.SpinReady
  pos : s.pos = ahead d (s.pixels k) p
  tile : (s.tile.state = .notTile ∧ ∀ t, ¬ s.OnTile t) ∨ (s.tile.state = .hold ∧ s.pixels k = 0) ∨
    s.pixels k = 16 ∧ (s.tile.state = .prespin ∨ k = 32 ∧ s.Boarding)

theorem Rests.stepping {d : BitVec 2} {p : Pos} (h : s.Rests p) (hd : s.fsm.direction = d) :
    Stepping d p 0 s where
  main := h.main
  direction := hd
  tilecounter := h.idle
  linked := h.alone.linked
  ready := h.alone.ready
  pos := by
    have hzero : s.pixels 0 = 0 := by simp [pixels, paced]
    rw [hzero, ahead_zero]
    exact h.pos
  tile := by
    have hzero : s.pixels 0 = 0 := by simp [pixels, paced]
    rcases h.alone with hhold | hoff
    · exact .inr (.inl ⟨hhold, hzero⟩)
    · exact .inl hoff

/-- After the last pixel the step has at most a frame without one. -/
theorem everyotherframe_of_pixels {k : ℕ} (hk : k < 32) (hlast : s.pixels k = 16) :
    s.drawer.everyotherframe = false := by
  have hk' := le_of_pixels hlast
  simp only [pixels, paced, Bool.false_eq_true, if_false] at hlast
  split_ifs at hlast with he
  · omega
  · exact Bool.eq_false_iff.mpr he

section Step

variable {d : BitVec 2} {p : Pos} {k : ℕ} (h : Stepping d p k s)
include h

theorem Stepping.atTile (hlt : s.pixels k < 16) : s.atTile = false := by
  refine Alone.atTile ?_
  rcases h.tile with hnot | ⟨hhold, -⟩ | ⟨hlast, -⟩
  · exact .inr hnot
  · exact .inl hhold
  · omega

variable (hk : k < 32)
include hk

theorem Stepping.tilecounter_succ (hi : i.Holds d) :
    (s.frame i).fsm.tilecounter = BitVec.ofNat 5 (k + 1 + 31) := by
  rw [frame_fsm, hi.reset, hi.pos]
  rcases Nat.eq_zero_or_pos k with rfl | hpos
  · rw [← h.direction]
    exact (GameFSM.posedge_of_facingKey h.main h.tilecounter).1
  · have hbusy : ¬ s.fsm.Idle := by
      rw [GameFSM.Regs.Idle, h.tilecounter]
      bv_omega
    rw [(GameFSM.posedge_of_not_idle h.main hbusy _).1, h.tilecounter]
    bv_omega

/-- The frame takes the pixel that its phase asks for. -/
theorem Stepping.pos_succ (hi : i.Holds d) (hopen : Open d p) (hgrid : OnGrid p)
    (hstop : i.atBounds = true → gyminstance s = true) (hrun : i.charIsRunning = false) :
    (s.frame i).pos = ahead d ((s.frame i).pixels (k + 1)) p := by
  have hsucc := pixels_frame (i := i) h.main k
  rcases Nat.lt_or_eq_of_le (s.pixels_le (k := k) hk.le) with hlt | hlast
  · have hchecker : gyminstance s = false := by
      rw [gyminstance, h.direction]
      have hahead := hopen.ahead hgrid hlt
      rwa [← h.pos] at hahead
    have hfree : i.atBounds = false :=
      Bool.eq_false_iff.mpr fun hbounds => Bool.eq_false_iff.mp hchecker (hstop hbounds)
    rw [pos_of_holds h.main hi (h.atTile hlt) h.direction, hsucc, h.pos]
    by_cases he : s.drawer.everyotherframe = true
    · simp [he, hfree, neighbour_ahead]
    · simp [he, hrun]
  · -- The step is over, and the tile logic may have begun to hold the position.
    have he := everyotherframe_of_pixels hk hlast
    have hstay : (s.frame i).pos = s.pos := by
      rcases h.tile with hnot | ⟨-, hzero⟩ | ⟨-, hboard⟩
      · rw [pos_of_holds h.main hi (Alone.atTile (.inr hnot)) h.direction]
        simp [he, hrun]
      · omega
      · have hspin := hboard.resolve_right fun hend => hk.ne hend.1
        exact h.linked.negedge_pos i (.inl hspin) h.main
    rw [hstay, hsucc, he, h.pos]
    simp

/-- The tile logic after the frame. -/
theorem Stepping.tile_succ (hr : i.reset = false) (hgrid : OnGrid p)
    (hpos : (s.frame i).pos = ahead d ((s.frame i).pixels (k + 1)) p) :
    ((s.frame i).tile.state = .notTile ∧ ∀ t, ¬ (s.frame i).OnTile t) ∨
      ((s.frame i).tile.state = .hold ∧ (s.frame i).pixels (k + 1) = 0) ∨
      (s.frame i).pixels (k + 1) = 16 ∧
        ((s.frame i).tile.state = .prespin ∨ k + 1 = 32 ∧ (s.frame i).Boarding) := by
  have hsucc := pixels_frame (i := i) h.main k
  have hle := (s.frame i).pixels_le (k := k + 1) hk
  -- On a tile the step is at its start, or at its end.
  have hends (t : Tile) (ht : (s.frame i).OnTile t) :
      (s.frame i).pixels (k + 1) = 0 ∨ (s.frame i).pixels (k + 1) = 16 := by
    by_contra hmid
    exact ahead_ne_tile hgrid d (by omega) (by omega) t (hpos.symm.trans ht)
  by_cases hon : ∃ t, (s.frame i).OnTile t
  · obtain ⟨t, ht⟩ := hon
    rcases h.tile with ⟨hnot, hoff⟩ | ⟨hhold, hzero⟩ | ⟨hlast, hboard⟩
    · rcases hends t ht with hzero | hlast
      · have hstart : s.pixels k = (s.frame i).pixels (k + 1) := by omega
        refine absurd ?_ (hoff t)
        rw [OnTile, h.pos, hstart, ← hpos]
        exact ht
      · exact .inr (.inr ⟨hlast, .inl (frame_board hnot hr ht)⟩)
    · rcases hends t ht with hzero' | hlast
      · exact .inr (.inl ⟨frame_hold i hhold hr ⟨t, ht⟩, hzero'⟩)
      · split_ifs at hsucc <;> omega
    · have hk' := le_of_pixels hlast
      have hspin := hboard.resolve_right fun hend => hk.ne hend.1
      refine .inr (.inr ⟨by omega, .inr ⟨by omega, ?_⟩⟩)
      rw [Boarding, frame_tile, hr, GymTileLogic.posedge_prespin _ _ hspin]
      split_ifs
      · exact .inr rfl
      · exact .inl rfl
  · have hoff := not_exists.mp hon
    rcases h.tile with hnot | ⟨hhold, -⟩ | ⟨hlast, hboard⟩
    · exact .inl ⟨Alone.frame_off (.inr hnot) hr hoff, hoff⟩
    · exact .inl ⟨Alone.frame_off (.inl hhold) hr hoff, hoff⟩
    · have hspin := hboard.resolve_right fun hend => hk.ne hend.1
      obtain ⟨t, ht⟩ := h.linked.negedge_onTile i (.inl hspin)
      exact absurd ht (hoff t)

theorem Stepping.succ (hi : i.Holds d) (hopen : Open d p) (hgrid : OnGrid p)
    (hstop : i.atBounds = true → gyminstance s = true) (hrun : i.charIsRunning = false) :
    Stepping d p (k + 1) (s.frame i) := by
  have hpos := h.pos_succ hk hi hopen hgrid hstop hrun
  exact
    { main := main_of_holds h.main hi
      direction := faces_of_holds h.main hi h.direction
      tilecounter := h.tilecounter_succ hk hi
      linked := h.linked.frame i
      ready := h.ready.posedge _ _ i.reset
      pos := hpos
      tile := h.tile_succ hk hi.reset hgrid hpos }

end Step

/-! ## Being carried -/

/-- A visit to `t` that nobody interferes with. -/
structure Carried (t : Tile) (s : System) : Prop where
  main : s.fsm.state = .drawMainGame
  idle : s.fsm.Idle
  linked : s.Linked
  ready : s.tile.SpinReady
  stage : s.visit = .boarding t ∨ s.visit = .landed t.partner ∨
    s.tile.state = .hold ∧ s.OnTile t.partner

theorem Carried.rests {t : Tile} (h : s.Carried t) (hhold : s.tile.state = .hold) :
    s.Rests t.partner.pos := by
  have hrest := visit_eq_resting.mpr hhold
  rcases h.stage with hv | hv | ⟨-, hon⟩
  · rw [hrest] at hv
    cases hv
  · rw [hrest] at hv
    cases hv
  · exact ⟨h.main, h.idle, hon, onGrid_tile _, .inl hhold⟩

/-- A frame without a key is one of the visit. -/
theorem Carried.frame {t : Tile} (h : s.Carried t) (hnot : s.tile.state ≠ .hold)
    (hr : i.reset = false) (hkey : i.keycodePos = 0#8) :
    (s.frame i).Carried t ∧ (s.frame i).tile.busy < s.tile.busy := by
  have hbusy := GymTileLogic.busy_posedge (s.negedge i).xright (s.negedge i).ybottom h.ready
    (fun hwalk => by
      have hv : s.visit = .walking := by simp [visit, hwalk]
      rcases h.stage with hstage | hstage | ⟨hhold, -⟩
      · rw [hv] at hstage
        cases hstage
      · rw [hv] at hstage
        cases hstage
      · exact absurd hhold hnot) (mt GymTileLogic.busy_eq_zero.mp hnot)
  have hstep := h.linked.visit_step i h.main hr
  refine ⟨⟨frame_drawMainGame s i h.main hr (by rw [hkey]; decide), ?_, h.linked.frame i,
    h.ready.posedge _ _ i.reset, ?_⟩, ?_⟩
  · rw [frame_fsm, hr, hkey]
    exact GameFSM.posedge_of_other h.main h.idle (facingKey_ne_zero _)
  · rcases h.stage with hv | hv | ⟨hhold, -⟩
    · rw [hv] at hstep
      rcases hstep.of_boarding with hv' | hv'
      · exact .inl hv'
      · exact .inr (.inl hv')
    · obtain ⟨hl, hlatched⟩ := h.linked.latched_of_visit hv
      rw [hv] at hstep
      rcases hstep.of_landed with hv' | hv'
      · exact .inr (.inl hv')
      · exact .inr (.inr ⟨visit_eq_resting.mp hv',
          (negedge_pos_landed i h.main hl).trans hlatched⟩)
    · exact absurd hhold hnot
  · rw [frame_tile, hr]
    omega

/-- Without a key a visit comes to its end. -/
theorem leads_carried (t : Tile) :
    Leads (netFrame net) FrameIn.Walking (Carried t) (fun s => s.Rests t.partner.pos) := by
  refine leads_of_measure (fun s => s.tile.busy) fun s h => ?_
  by_cases hhold : s.tile.state = .hold
  · exact .inl (h.rests hhold)
  · exact .inr ⟨.noKey, .inl rfl, h.frame hhold rfl rfl⟩

/-- A step that is over is at rest, or on a tile. -/
theorem Stepping.ends {d : BitVec 2} {p : Pos} (h : Stepping d p 32 s) (hgrid : OnGrid p) :
    s.Rests (arrive (ahead d 16 p)) ∨ ∃ t, s.Carried t ∧ t.partner.pos = arrive (ahead d 16 p) := by
  have hlast : s.pixels 32 = 16 := by
    simp only [pixels, paced, Bool.false_eq_true, if_false]
    split_ifs <;> rfl
  have hidle : s.fsm.Idle := h.tilecounter
  have hpos := h.pos
  rw [hlast] at hpos
  rcases h.tile with ⟨hnot, hoff⟩ | ⟨-, hzero⟩ | ⟨-, hboard⟩
  · have hnone : arrive (ahead d 16 p) = ahead d 16 p :=
      arrive_of_ne fun t ht => hoff t (hpos.trans ht)
    rw [hnone]
    exact .inl ⟨h.main, hidle, hpos, onGrid_ahead hgrid d, .inr ⟨hnot, hoff⟩⟩
  · omega
  · have hb : s.Boarding := by
      rcases hboard with hspin | ⟨-, hb⟩
      · exact .inl hspin
      · exact hb
    obtain ⟨t, hon, hlatched⟩ := h.linked.boarding hb
    refine .inr ⟨t, ⟨h.main, hidle, h.linked, h.ready, .inl ?_⟩, ?_⟩
    · rw [visit_of_boarding hb, hlatched, Tile.at_pos]
    · rw [← hpos, hon, arrive_tile]

/-! ## The frames realise the graph -/

/-- Every move of the graph can be made. -/
theorem leads_move (hnet : Lenient net) {p q : Pos} (h : Move p q) :
    Leads (netFrame net) FrameIn.Walking (fun s => s.Rests p) (fun s => s.Rests q) := by
  obtain ⟨d, hopen, rfl⟩ := h
  intro s hs
  have hgrid := hs.grid
  have hstep : Leads (netFrame net) FrameIn.Walking (Stepping d p 0) (Stepping d p 32) :=
    leads_of_stages fun k hk s h => ⟨.press (GameFSM.facingKey d), .inr ⟨d, rfl⟩,
      h.succ hk ⟨rfl, rfl, rfl⟩ hopen hgrid (hnet s) rfl⟩
  have hend : Leads (netFrame net) FrameIn.Walking (Stepping d p 32)
      (fun s => s.Rests (arrive (ahead d 16 p))) := by
    refine (leads_of_imp fun s h => h.ends hgrid).trans ((leads_of_imp fun _ h => h).or ?_)
    rintro s ⟨t, hcarried, ht⟩
    exact ht ▸ leads_carried t s hcarried
  exact (leads_turn d p).trans ((leads_of_imp fun s h => h.1.stepping h.2).trans
    (hstep.trans hend)) s hs

theorem leads_tile (hnet : Lenient net) (t u : Tile) :
    Leads (netFrame net) FrameIn.Walking (fun s => s.Rests t.pos) (fun s => s.Rests u.pos) :=
  leads_of_path (S := fun p (s : System) => s.Rests p) (fun _ _ => leads_move hnet)
    (Tile.moves_between t u)

end System

/-- The gym can be solved, with or without the checker: whoever rests on a tile can come to
rest on every other, in whichever room, with the direction keys alone. -/
theorem walks_between_tiles (net : System → Bool) (hnet : Lenient net) (s : System) (t u : Tile)
    (h : s.Rests t.pos) :
    ∃ entries : List (ℕ × FrameIn), (∀ entry ∈ entries, entry.2.Walking) ∧
      (Driven.play (netFrame net) entries s).Rests u.pos :=
  System.leads_tile hnet t u s h

/-- From the start position to the room in the middle, which has one tile. -/
theorem walks_between_tiles_middle :
    ∃ entries : List (ℕ × FrameIn), (∀ entry ∈ entries, entry.2.Walking) ∧
      (Driven.play (netFrame gyminstance) entries atHome).Rests (Tile.pos ⟨.M, true⟩) :=
  walks_between_tiles gyminstance lenient_gyminstance atHome Tile.home ⟨.M, true⟩
    ⟨rfl, rfl, rfl, by decide, .inl rfl⟩

/-! ## From anywhere

A character that is off the grid, or left of the gym, cannot walk to a tile. But it can end
the step, the game, and the visit that is left over from it, and begin a new one. -/

/-- No key, or one, over both edges of the frame, and nothing else. -/
def FrameIn.Keyed (i : FrameIn) : Prop := ∃ keycode, i = .press keycode

theorem FrameIn.Walking.keyed {i : FrameIn} (h : i.Walking) : i.Keyed := by
  rcases h with rfl | ⟨d, rfl⟩
  · exact ⟨0#8, rfl⟩
  · exact ⟨GameFSM.facingKey d, rfl⟩

namespace System

/-- What every run keeps. -/
structure Sound (s : System) : Prop where
  staged : s.Staged
  linked : s.Linked
  ready : s.tile.SpinReady

variable {s : System} {net : System → Bool}

theorem Sound.frame (h : s.Sound) (i : FrameIn) : (s.frame i).Sound :=
  ⟨h.staged.frame i, h.linked.frame i, h.ready.posedge _ _ i.reset⟩

theorem Sound.ne_hold (h : s.Sound) : s.fsm.state ≠ .hold := by
  rcases h.staged.reach with hs | hs | hs <;> simp [hs]

/-- On the start screen without a step in progress. -/
structure Starts (s : System) : Prop where
  sound : s.Sound
  start : s.fsm.state = .startScreen
  idle : s.fsm.Idle

/-- On the way from the start screen to the game, with no visit in progress. -/
structure Opens (s : System) : Prop where
  sound : s.Sound
  screen : s.fsm.state ≠ .drawMainGame
  idle : s.fsm.Idle
  hold : s.tile.state = .hold

theorem leads_main :
    Leads (netFrame net) FrameIn.Keyed Sound (fun s => s.Sound ∧ s.fsm.state = .drawMainGame) := by
  refine leads_of_measure (fun s => s.fsm.untilMain) fun s h => ?_
  by_cases hmain : s.fsm.state = .drawMainGame
  · exact .inl ⟨h, hmain⟩
  · have hless := GameFSM.untilMain_posedge h.ne_hold hmain
    exact .inr ⟨.press GameFSM.keyEnter, ⟨_, rfl⟩, h.frame _, Nat.lt_of_succ_le hless.le⟩

/-- Without a key the step in progress is over some time. -/
theorem leads_idle :
    Leads (netFrame net) FrameIn.Keyed (fun s => s.Sound ∧ s.fsm.state = .drawMainGame)
      (fun s => s.Sound ∧ s.fsm.state = .drawMainGame ∧ s.fsm.Idle) := by
  refine leads_of_measure (fun s => 31 - s.fsm.tilecounter.toNat) fun s h => ?_
  obtain ⟨hsound, hmain⟩ := h
  by_cases hidle : s.fsm.Idle
  · exact .inl ⟨hsound, hmain, hidle⟩
  · refine .inr ⟨.noKey, ⟨_, rfl⟩, ⟨hsound.frame _, ?_⟩, ?_⟩
    · exact frame_drawMainGame _ _ hmain rfl (show 0#8 ≠ GameFSM.keyEscape by decide)
    · have hcount : (netFrame net s .noKey).fsm.tilecounter = s.fsm.tilecounter + 1#5 :=
        (GameFSM.posedge_of_not_idle hmain hidle 0#8).1
      have hsucc := GameFSM.tilecounter_succ hidle
      have hlt := (s.fsm.tilecounter + 1#5).isLt
      rw [hcount]
      omega

theorem leads_start :
    Leads (netFrame net) FrameIn.Keyed
      (fun s => s.Sound ∧ s.fsm.state = .drawMainGame ∧ s.fsm.Idle) Starts := by
  refine leads_of_tick fun s ⟨hsound, hmain, hidle⟩ => ⟨.press GameFSM.keyEscape, ⟨_, rfl⟩, ?_⟩
  refine ⟨hsound.frame _, ?_, ?_⟩
  · change (s.fsm.posedge false GameFSM.keyEscape).state = .startScreen
    rw [GameFSM.posedge_state]
    simp [GameFSM.nextState, hmain]
  · exact GameFSM.posedge_of_other hmain hidle (GameFSM.facingKey_ne_escape _).symm

/-- On the start screen the character is on the first tile, and a visit comes to its end. -/
theorem leads_opens : Leads (netFrame net) FrameIn.Keyed Starts Opens := by
  refine leads_of_measure (fun s => s.tile.busy) fun s h => ?_
  have hscreen : s.fsm.state ≠ .drawMainGame := by
    rw [h.start]
    decide
  by_cases hhold : s.tile.state = .hold
  · exact .inl ⟨h.sound, hscreen, h.idle, hhold⟩
  · refine .inr ⟨.noKey, ⟨_, rfl⟩, ⟨h.sound.frame _, ?_, ?_⟩, ?_⟩
    · change (s.fsm.posedge false 0#8).state = .startScreen
      rw [GameFSM.posedge_state]
      simp [GameFSM.nextState, h.start, GameFSM.keyEnter]
    · exact (GameFSM.posedge_frozen hscreen 0#8).1.trans h.idle
    · have hon : ∃ t, (netFrame net s .noKey).OnTile t :=
        ⟨Tile.home, (h.sound.staged.negedge_pos _ hscreen).trans Tile.home_pos.symm⟩
      have hbusy := (GymTileLogic.busy_posedge _ _ h.sound.ready
        (fun _ => isOnTile_frame.mpr hon) (mt GymTileLogic.busy_eq_zero.mp hhold)).1
      exact Nat.lt_of_succ_le hbusy.le

/-- With Enter the new game begins at rest. -/
theorem leads_home :
    Leads (netFrame net) FrameIn.Keyed Opens (fun s => s.Rests Tile.home.pos) := by
  have hmeasure : Leads (netFrame net) FrameIn.Keyed (fun s => s.Opens ∨ s.Rests Tile.home.pos)
      (fun s => s.Rests Tile.home.pos) := by
    refine leads_of_measure (fun s => s.fsm.untilMain) fun s h => ?_
    rcases h with h | h
    · let s' := netFrame net s (.press GameFSM.keyEnter)
      have hless := GameFSM.untilMain_posedge h.sound.ne_hold h.screen
      have hpos : s'.OnTile Tile.home :=
        (h.sound.staged.negedge_pos _ h.screen).trans Tile.home_pos.symm
      have hhold : s'.tile.state = .hold := frame_hold _ h.hold rfl ⟨_, hpos⟩
      have hidle : s'.fsm.Idle := (GameFSM.posedge_frozen h.screen GameFSM.keyEnter).1.trans h.idle
      refine .inr ⟨.press GameFSM.keyEnter, ⟨_, rfl⟩, ?_, Nat.lt_of_succ_le hless.le⟩
      by_cases hmain : s'.fsm.state = .drawMainGame
      · exact .inr ⟨hmain, hidle, hpos, onGrid_tile _, .inl hhold⟩
      · exact .inl ⟨h.sound.frame _, hmain, hidle, hhold⟩
    · exact .inl h
  exact (leads_of_imp fun _ h => .inl h).trans hmeasure

theorem leads_anywhere (hnet : Lenient net) (u : Tile) :
    Leads (netFrame net) FrameIn.Keyed Sound (fun s => s.Rests u.pos) :=
  leads_main.trans <| leads_idle.trans <| leads_start.trans <| leads_opens.trans <|
    leads_home.trans <| (leads_tile hnet Tile.home u).mono fun _ => FrameIn.Walking.keyed

end System

theorem sound_run (drawer : FrameDrawer.Regs) (ins : ℕ → FrameIn) (n : ℕ) :
    (run drawer ins n).Sound :=
  ⟨staged_run drawer ins n, linked_run drawer ins n, spinReady_run drawer ins n⟩

/-- Nobody is stuck: after any run from `Reset`, with whatever inputs, there are keys that
bring the character to rest on any tile. -/
theorem never_stuck (net : System → Bool) (hnet : Lenient net) (drawer : FrameDrawer.Regs)
    (ins : ℕ → FrameIn) (n : ℕ) (u : Tile) :
    ∃ entries : List (ℕ × FrameIn), (∀ entry ∈ entries, entry.2.Keyed) ∧
      (Driven.play (netFrame net) entries (runWired net drawer ins n)).Rests u.pos :=
  System.leads_anywhere hnet u _ (runWired_of_run net drawer ins sound_run n)

/-- With nothing on `atBounds`, whatever is pressed, the first tile is in reach. -/
theorem never_stuck_undriven :
    ∃ entries : List (ℕ × FrameIn), (∀ entry ∈ entries, entry.2.Keyed) ∧
      (Driven.play (netFrame undriven) entries
        (runWired undriven powerUp (fun _ => .press (GameFSM.facingKey 1#2)) 1000)).Rests
          Tile.home.pos :=
  never_stuck undriven lenient_undriven powerUp _ 1000 Tile.home

end Game
