-- SUMMARY: The tile FSM and the position logic refine the abstract teleporter; the teleporter never fires off a tile, and the position never skips a pixel.
import PokemonSVE.Game.Tile
import PokemonSVE.Game.Teleporter

/-!
# Visits

A visit to a tile runs through `prespin` and `teleport`, in which the character
is still on the tile it stepped on, and through `postspin` and `latch`, in which
the tile logic feeds the position of the partner back to `frameDrawer`. The two
facts that make this work are collected in `Linked`: what the tile logic has
latched is a tile, and before the jump it is the position itself.
-/

namespace Game

open FrameDrawer (Pos)
open Teleporter (Visit Step)

/-- The tile at a position that is known to be one. -/
def Tile.at (p : Pos) : Tile := (all.find? fun t => t.pos == p).getD home

@[simp] theorem Tile.at_pos (t : Tile) : Tile.at t.pos = t :=
  forall_of_all (P := fun t => Tile.at t.pos = t) (by decide) t

namespace System

/-- The refinement mapping: which stage of a visit a state is in. -/
def visit (s : System) : Visit Tile :=
  match s.tile.state with
  | .notTile => .walking
  | .prespin => .boarding (Tile.at s.latched)
  | .teleport => .boarding (Tile.at s.latched)
  | .postspin => .landed (Tile.at s.latched)
  | .latch => .landed (Tile.at s.latched)
  | .hold => .resting

/-- Before the jump. -/
def Boarding (s : System) : Prop := s.tile.state = .prespin ∨ s.tile.state = .teleport

/-- After the jump, while the tile logic still overrides the walk. -/
def Landed (s : System) : Prop := s.tile.state = .postspin ∨ s.tile.state = .latch

structure Linked (s : System) : Prop where
  boarding : s.Boarding → ∃ t, s.OnTile t ∧ s.latched = t.pos
  landed : s.Landed → ∃ t : Tile, s.latched = t.pos

variable {s : System} (i : FrameIn)

theorem atTile_iff_visit : s.atTile = true ↔ s.Boarding ∨ s.Landed := by
  rw [atTile_eq, Boarding, Landed]
  tauto

/-! ## The position across an edge -/

/-- A register pair loaded from `xright` and `ybottom` feeds the position back. -/
theorem latched_of_load {s' : System} (hx : s'.tile.xleft = s.xright)
    (hy : s'.tile.ytop = s.ybottom) : s'.latched = s.pos := by
  simp only [latched, hx, hy, xright, ybottom, BitVec.add_sub_cancel]
  rfl

/-- In the main game a boarding character does not move. -/
theorem Linked.negedge_pos (hs : s.Linked) (hb : s.Boarding) (hdraw : s.fsm.state = .drawMainGame) :
    (s.negedge i).pos = s.pos := by
  obtain ⟨t, hon, hlatched⟩ := hs.boarding hb
  rw [negedge_pos_atTile s i hdraw (atTile_iff_visit.mpr (.inl hb)), hlatched]
  exact hon.symm

/-- Whatever the screen, a boarding character is on a tile after the edge: on its
own, or on the first one if the start screen has taken it back there. -/
theorem Linked.negedge_onTile (hs : s.Linked) (hb : s.Boarding) :
    ∃ t, (s.negedge i).OnTile t := by
  obtain ⟨t, hon, -⟩ := hs.boarding hb
  by_cases h0 : s.fsm.state.num = 0#4
  · exact ⟨Tile.home, (negedge_pos_start s i h0).1.trans Tile.home_pos.symm⟩
  · by_cases h3 : s.fsm.state = .drawMainGame
    · exact ⟨t, (hs.negedge_pos i hb h3).trans hon⟩
    · exact ⟨t, by rwa [negedge_other s i h0 h3]⟩

/-- `hold` lasts while the character is on a tile. -/
theorem frame_hold (h : s.tile.state = .hold) (hr : i.reset = false)
    (hon : ∃ u, (s.negedge i).OnTile u) : (s.frame i).tile.state = .hold := by
  have hxy : GymTileLogic.isOnTile ((s.negedge i).xright ++ (s.negedge i).ybottom) = true :=
    (isOnTile_iff _).mpr hon
  rw [frame_tile, hr, GymTileLogic.posedge_hold _ _ h, if_pos hxy]

/-! ## The link is kept -/

theorem linked_onReset (drawer : FrameDrawer.Regs) : (onReset drawer).Linked where
  boarding h := by simp [Boarding, onReset, GymTileLogic.Regs.onReset] at h
  landed h := by simp [Landed, onReset, GymTileLogic.Regs.onReset] at h

/-- The destination latched in `teleport` is the partner of the tile under the
character. -/
theorem frame_latched_teleport (hr : i.reset = false) (h : s.tile.state = .teleport) {t : Tile}
    (hon : (s.negedge i).OnTile t) :
    (s.frame i).tile.xleft ++ (s.frame i).tile.ytop = t.partner.coord ∧
      (s.frame i).latched = t.partner.pos := by
  have hxy : (s.negedge i).xright ++ (s.negedge i).ybottom = t.coord :=
    ((s.negedge i).currxy_eq_coord t).mpr hon
  have htile := frame_tile s i
  rw [hr, GymTileLogic.posedge_teleport _ _ h, hxy, Tile.teleportTo_coord] at htile
  simp only [latched, htile, Tile.coord_halves, Tile.pos, and_self]

theorem Linked.frame (hs : s.Linked) : (s.frame i).Linked := by
  cases hr : i.reset with
  | true =>
    have htile : (s.frame i).tile = .onReset := by rw [frame_tile, hr, GymTileLogic.posedge_reset]
    constructor <;> intro h <;>
      simp [Boarding, Landed, htile, GymTileLogic.Regs.onReset] at h
  | false =>
    have htile := frame_tile s i
    rw [hr] at htile
    cases hstate : s.tile.state with
    | notTile =>
      rw [GymTileLogic.posedge_notTile _ _ hstate] at htile
      constructor
      · intro h
        have hon : GymTileLogic.isOnTile (s.negedge i).currxy = true := by
          simp only [Boarding, htile] at h
          split_ifs at h with hon
          · exact hon
          · simp at h
        obtain ⟨t, ht⟩ := (isOnTile_iff _).mp hon
        exact ⟨t, ht, (latched_of_load (by rw [htile]) (by rw [htile])).trans ht⟩
      · intro h
        simp only [Landed, htile] at h
        split_ifs at h <;> simp at h
    | prespin =>
      rw [GymTileLogic.posedge_prespin _ _ hstate] at htile
      obtain ⟨t, ht⟩ := hs.negedge_onTile i (.inl hstate)
      constructor
      · intro _
        refine ⟨t, ht, (latched_of_load ?_ ?_).trans ht⟩
        · rw [htile]; split_ifs <;> rfl
        · rw [htile]; split_ifs <;> rfl
      · intro h
        simp only [Landed, htile] at h
        split_ifs at h <;> simp at h
    | teleport =>
      obtain ⟨t, ht⟩ := hs.negedge_onTile i (.inr hstate)
      have hdest := (frame_latched_teleport i hr hstate ht).2
      rw [GymTileLogic.posedge_teleport _ _ hstate] at htile
      constructor
      · intro h
        simp [Boarding, htile] at h
      · intro _
        exact ⟨t.partner, hdest⟩
    | postspin =>
      rw [GymTileLogic.posedge_postspin _ _ hstate] at htile
      constructor
      · intro h
        simp only [Boarding, htile] at h
        split_ifs at h <;> simp at h
      · intro _
        obtain ⟨t, ht⟩ := hs.landed (.inl hstate)
        exact ⟨t, by simpa [latched, htile] using ht⟩
    | latch =>
      rw [GymTileLogic.posedge_latch _ _ hstate] at htile
      constructor <;> intro h <;> simp [Boarding, Landed, htile] at h
    | hold =>
      rw [GymTileLogic.posedge_hold _ _ hstate] at htile
      constructor
      · intro h
        simp only [Boarding, htile] at h
        split_ifs at h <;> simp at h
      · intro h
        simp only [Landed, htile] at h
        split_ifs at h <;> simp at h

/-! ## Refinement -/

theorem visit_of_boarding (h : s.Boarding) : s.visit = .boarding (Tile.at s.latched) := by
  rcases h with h | h <;> simp [visit, h]

theorem visit_of_landed (h : s.Landed) : s.visit = .landed (Tile.at s.latched) := by
  rcases h with h | h <;> simp [visit, h]

theorem visit_eq_resting : s.visit = .resting ↔ s.tile.state = .hold := by
  cases h : s.tile.state <;> simp [visit, h]

theorem visit_eq_landed_iff {u : Tile} :
    s.visit = .landed u ↔ s.Landed ∧ Tile.at s.latched = u := by
  cases h : s.tile.state <;> simp [visit, Landed, h]

/-- A frame that starts in the main game is one tick of the teleporter whose jump
map is the pairing of the tiles. -/
theorem Linked.visit_step (hs : s.Linked) (hdraw : s.fsm.state = .drawMainGame)
    (hr : i.reset = false) : Step Tile.partner s.visit (s.frame i).visit := by
  have htile := frame_tile s i
  rw [hr] at htile
  cases hstate : s.tile.state with
  | notTile =>
    rw [GymTileLogic.posedge_notTile _ _ hstate] at htile
    have hv : s.visit = .walking := by simp [visit, hstate]
    rw [hv]
    split_ifs at htile with hon
    · rw [visit_of_boarding (.inl (by rw [htile]))]
      exact .board _
    · have hv' : (s.frame i).visit = .walking := by simp [visit, htile]
      rw [hv']
      exact .walk
  | prespin =>
    rw [GymTileLogic.posedge_prespin _ _ hstate] at htile
    obtain ⟨t, hon, ht⟩ := hs.boarding (.inl hstate)
    have hpos := hs.negedge_pos i (.inl hstate) hdraw
    have hlatched : (s.frame i).latched = t.pos := by
      refine (latched_of_load (s := s.negedge i) ?_ ?_).trans (hpos.trans hon)
      · rw [htile]; split_ifs <;> rfl
      · rw [htile]; split_ifs <;> rfl
    have hb : (s.frame i).Boarding := by
      simp only [Boarding, htile]
      split_ifs <;> simp
    rw [visit_of_boarding (.inl hstate), visit_of_boarding hb, hlatched, ht]
    exact .spin _
  | teleport =>
    obtain ⟨t, hon, ht⟩ := hs.boarding (.inr hstate)
    have hpos := hs.negedge_pos i (.inr hstate) hdraw
    have hdest := (frame_latched_teleport i hr hstate (t := t) (hpos.trans hon)).2
    have hl : (s.frame i).Landed := by
      rw [GymTileLogic.posedge_teleport _ _ hstate] at htile
      exact .inl (by rw [htile])
    rw [visit_of_boarding (.inr hstate), visit_of_landed hl, hdest, ht, Tile.at_pos, Tile.at_pos]
    exact .jump _
  | postspin =>
    rw [GymTileLogic.posedge_postspin _ _ hstate] at htile
    have hl : (s.frame i).Landed := by
      simp only [Landed, htile]
      split_ifs <;> simp
    have hlatched : (s.frame i).latched = s.latched := by simp [latched, htile]
    rw [visit_of_landed (.inl hstate), visit_of_landed hl, hlatched]
    exact .settle _
  | latch =>
    rw [GymTileLogic.posedge_latch _ _ hstate] at htile
    rw [visit_of_landed (.inr hstate), visit_eq_resting.mpr (by rw [htile])]
    exact .rest _
  | hold =>
    rw [GymTileLogic.posedge_hold _ _ hstate] at htile
    rw [visit_eq_resting.mpr hstate]
    split_ifs at htile
    · rw [visit_eq_resting.mpr (by rw [htile])]
      exact .stay
    · have hv' : (s.frame i).visit = .walking := by simp [visit, htile]
      rw [hv']
      exact .leave

end System

theorem linked_run (drawer : FrameDrawer.Regs) (ins : ℕ → FrameIn) (n : ℕ) :
    (run drawer ins n).Linked :=
  Driven.run_invariant (System.linked_onReset drawer) (fun _ i h => h.frame i) n

theorem linked_runWired (net : System → Bool) (drawer : FrameDrawer.Regs) (ins : ℕ → FrameIn)
    (n : ℕ) : (runWired net drawer ins n).Linked :=
  runWired_of_run net drawer ins linked_run n

/-! ## The teleporter never fires off a tile -/

/-- At every positive edge at which the tile FSM is in `teleport`, the character
is on a tile, the case table has an arm for it, and the coordinate latched,
unless `Reset` clears it, is the partner's. -/
theorem teleport_on_tile (drawer : FrameDrawer.Regs) (ins : ℕ → FrameIn) (n : ℕ)
    (h : (run drawer ins n).tile.state = .teleport) :
    ∃ t : Tile,
      ((run drawer ins n).negedge (ins n)).currxy = t.coord ∧
      GymTileLogic.teleportArms.lookup ((run drawer ins n).negedge (ins n)).currxy =
        some t.partner.coord ∧
      ((ins n).reset = false →
        (run drawer ins (n + 1)).tile.xleft ++ (run drawer ins (n + 1)).tile.ytop =
          t.partner.coord) := by
  obtain ⟨t, ht⟩ := (linked_run drawer ins n).negedge_onTile (ins n) (.inr h)
  have hxy := (((run drawer ins n).negedge (ins n)).currxy_eq_coord t).mpr ht
  refine ⟨t, hxy, ?_, ?_⟩
  · rw [hxy]
    exact Tile.lookup_coord t
  · intro hr
    exact (System.frame_latched_teleport (ins n) hr h ht).1

/-- The first spin after power-up reaches `teleport` on the ninth frame. -/
theorem teleport_on_tile_after_reset :
    ∃ t : Tile, ((run powerUp (fun _ => .noKey) 9).negedge .noKey).currxy = t.coord := by
  obtain ⟨t, ht, -⟩ := teleport_on_tile powerUp (fun _ => .noKey) 9 (by decide +kernel)
  exact ⟨t, ht⟩

/-! ## The position never skips a pixel -/

/-- Equal, or one apart modulo 1024. -/
def Near (a b : BitVec 10) : Prop := b = a ∨ b = a + 1#10 ∨ b = a - 1#10

/-- At most one coordinate changes, and by at most one. -/
def Adjacent (p q : Pos) : Prop := (q.1 = p.1 ∧ Near p.2 q.2) ∨ (q.2 = p.2 ∧ Near p.1 q.1)

theorem Adjacent.refl (p : Pos) : Adjacent p p := .inl ⟨rfl, .inl rfl⟩

theorem adjacent_neighbour (d : BitVec 2) (p : Pos) : Adjacent p (FrameDrawer.neighbour d p) := by
  unfold FrameDrawer.neighbour
  split_ifs
  · exact .inl ⟨rfl, .inr (.inl rfl)⟩
  · exact .inl ⟨rfl, .inr (.inr rfl)⟩
  · exact .inr ⟨rfl, .inr (.inr rfl)⟩
  · exact .inr ⟨rfl, .inr (.inl rfl)⟩

/-- A negative edge outside the start screen, the landing frames apart, moves the
character to an adjacent position. -/
theorem System.Linked.negedge_adjacent {s : System} (hs : s.Linked) (i : FrameIn)
    (h0 : s.fsm.state.num ≠ 0#4) (hland : ¬ s.Landed) : Adjacent s.pos (s.negedge i).pos := by
  by_cases hdraw : s.fsm.state = .drawMainGame
  · by_cases hb : s.Boarding
    · rw [hs.negedge_pos i hb hdraw]
      exact .refl _
    · have hoff : s.atTile = false := by
        rw [Bool.eq_false_iff, ne_eq, System.atTile_iff_visit]
        exact fun h => h.elim hb hland
      rw [System.negedge_pos_walk s i hdraw hoff]
      split_ifs
      · exact adjacent_neighbour _ _
      · exact .refl _
  · rw [System.negedge_other s i h0 hdraw]
    exact .refl _

/-- Position continuity: outside the start screen the position moves to an
adjacent one at every negative edge, except in `postspin` and `latch`, and in
`prespin` and `teleport` of the main game it does not move. -/
theorem position_continuous (drawer : FrameDrawer.Regs) (ins : ℕ → FrameIn) (n : ℕ) :
    let s := run drawer ins n
    let s' := s.negedge (ins n)
    ((s.wires (ins n)).stateNum ≠ 0#4 → s.tile.state ≠ .postspin → s.tile.state ≠ .latch →
      Adjacent s.pos s'.pos) ∧
    (s.tile.state = .prespin ∨ s.tile.state = .teleport → s.fsm.state = .drawMainGame →
      s'.pos = s.pos) := by
  intro s s'
  have hs : s.Linked := linked_run drawer ins n
  constructor
  · intro hnum hpost hlatch
    exact hs.negedge_adjacent (ins n) (by simpa using hnum) (fun h => h.elim hpost hlatch)
  · exact fun hb hdraw => hs.negedge_pos (ins n) hb hdraw

end Game
