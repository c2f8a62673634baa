-- SUMMARY: A visit from end to end: how long it takes, where the character is on each frame of it, and when the next one can begin.
import PokemonSVE.Game.Spin

/-!
# Teleporting

The refinement of `Visit.lean` says where a visit leads, the countdown of
`Spin.lean` says when. Together they give the position on every frame.
-/

namespace Game

open FrameDrawer (Pos)
open Teleporter (Visit Step)

namespace System

variable {s : System} (i : FrameIn)

/-- In the main game a landed character is put on the tile that is latched. -/
theorem negedge_pos_landed (h : s.fsm.state = .drawMainGame) (hl : s.Landed) :
    (s.negedge i).pos = s.latched :=
  negedge_pos_atTile s i h (atTile_iff_visit.mpr (.inr hl))

/-- A boarding stage belongs to the tile under the character. -/
theorem Linked.onTile_of_visit {t : Tile} (hs : s.Linked) (h : s.visit = .boarding t) :
    s.Boarding ∧ s.OnTile t := by
  have hb : s.Boarding := by
    cases hstate : s.tile.state <;> simp_all [visit, Boarding]
  obtain ⟨u, hon, hlatched⟩ := hs.boarding hb
  rw [visit_of_boarding hb, hlatched, Tile.at_pos] at h
  cases h
  exact ⟨hb, hon⟩

/-- A landed stage belongs to the tile whose position is fed back. -/
theorem Linked.latched_of_visit {t : Tile} (hs : s.Linked) (h : s.visit = .landed t) :
    s.Landed ∧ s.latched = t.pos := by
  obtain ⟨hl, hat⟩ := visit_eq_landed_iff.mp h
  obtain ⟨u, hu⟩ := hs.landed hl
  rw [hu, Tile.at_pos] at hat
  exact ⟨hl, hat ▸ hu⟩

end System

/-! ## One visit

The section fixes a run and a frame `m` of the main game after which neither
`Reset` nor `Escape` comes, and at which the tile FSM is in `prespin`. -/

section OneVisit

variable {drawer : FrameDrawer.Regs} {ins : ℕ → FrameIn} {m : ℕ}

/-- From `m` on the main game is not left. -/
def Stays (drawer : FrameDrawer.Regs) (ins : ℕ → FrameIn) (m : ℕ) : Prop :=
  ∀ k, m ≤ k → (run drawer ins k).fsm.state = .drawMainGame ∧ (ins k).reset = false

theorem stays_of_inputs (hdraw : (run drawer ins m).fsm.state = .drawMainGame)
    (hlater : ∀ k, m ≤ k → (ins k).reset = false ∧ (ins k).keycodePos ≠ GameFSM.keyEscape) :
    Stays drawer ins m := by
  intro k hmk
  refine ⟨?_, (hlater k hmk).1⟩
  induction k, hmk using Nat.le_induction with
  | base => exact hdraw
  | succ k hmk ih =>
    exact System.frame_drawMainGame _ _ ih (hlater k hmk).1 (hlater k hmk).2

theorem visit_steps (hstay : Stays drawer ins m) (k : ℕ) (hmk : m ≤ k) :
    Step Tile.partner (run drawer ins k).visit (run drawer ins (k + 1)).visit :=
  (linked_run drawer ins k).visit_step (ins k) (hstay k hmk).1 (hstay k hmk).2

variable (hstay : Stays drawer ins m) (hspin : (run drawer ins m).tile.state = .prespin)
include hstay hspin

/-- The countdown of the visit. -/
theorem busy_during {d : ℕ} (hd : d ≤ (run drawer ins m).tile.busy) :
    (run drawer ins (m + d)).tile.busy + d = (run drawer ins m).tile.busy := by
  refine (Driven.countdown (b := fun k => (run drawer ins k).tile.busy) (m := m)
    (I := fun k => (run drawer ins k).tile.state ≠ .notTile) (by simp [hspin]) ?_ hd).1
  intro k hmk hnot hbusy
  rw [run_succ, System.frame_tile, (hstay k hmk).2]
  exact GymTileLogic.busy_posedge _ _ (spinReady_run drawer ins k) (fun h => absurd h hnot) hbusy

/-- Until the tenth frame from the end the character stands on its tile. -/
theorem boarding_during {t : Tile} (hon : (run drawer ins m).OnTile t) {d : ℕ}
    (hd : d + 10 ≤ (run drawer ins m).tile.busy) :
    (run drawer ins (m + d)).visit = .boarding t := by
  have hb : (run drawer ins m).Boarding := .inl hspin
  obtain ⟨u, hu, hlatched⟩ := (linked_run drawer ins m).boarding hb
  have htu : t = u := hon.unique hu
  have hvisit : (run drawer ins m).visit = .boarding t := by
    rw [System.visit_of_boarding hb, hlatched, Tile.at_pos, htu]
  refine Teleporter.boarding_until_landed (v := fun k => (run drawer ins k).visit) hvisit
    (fun k hk => visit_steps hstay k hk) (Nat.le_add_right m d) ?_
  intro k hmk hkd u hland
  -- Ten frames or more before the end the FSM is still in `prespin` or `teleport`.
  obtain ⟨e, rfl⟩ := Nat.exists_eq_add_of_le hmk
  have hcount := busy_during hstay hspin (d := e) (by omega)
  have hl := (System.visit_eq_landed_iff.mp hland).1
  have hle := GymTileLogic.busy_le_of_landed (spinReady_run drawer ins (m + e)) hl
  omega

/-- From the ninth frame from the end on the partner is fed back. -/
theorem landed_during {t : Tile} (hon : (run drawer ins m).OnTile t) {d : ℕ}
    (hlo : (run drawer ins m).tile.busy ≤ d + 9) (hhi : d < (run drawer ins m).tile.busy) :
    (run drawer ins (m + d)).visit = .landed t.partner := by
  have hfirst : 11 ≤ (run drawer ins m).tile.busy := by simp [GymTileLogic.Regs.busy, hspin]
  obtain ⟨e, he⟩ : ∃ e, (run drawer ins m).tile.busy = e + 10 :=
    ⟨_, (Nat.sub_add_cancel (by omega)).symm⟩
  -- The last boarding frame, and the first landed one.
  have hboard := boarding_during hstay hspin hon (d := e) (by omega)
  have hcount := busy_during hstay hspin (d := e + 1) (by omega)
  have hl : (run drawer ins (m + (e + 1))).Landed :=
    GymTileLogic.landed_of_busy (spinReady_run drawer ins _) (by omega) (by omega)
  have hland : (run drawer ins (m + (e + 1))).visit = .landed t.partner := by
    have hstep := visit_steps hstay (m + e) (by omega)
    rw [System.visit_of_landed hl]
    exact congrArg _ (Teleporter.landed_after_boarding (v := fun k => (run drawer ins k).visit)
      hboard hstep (System.visit_of_landed hl))
  have hle : m + (e + 1) ≤ m + d := by omega
  refine Teleporter.landed_until_resting (v := fun k => (run drawer ins k).visit) hland
    (fun k hk => visit_steps hstay k (by omega)) hle ?_
  intro k hk hkd hrest
  obtain ⟨f, rfl⟩ := Nat.exists_eq_add_of_le (show m ≤ k by omega)
  have hcount' := busy_during hstay hspin (d := f) (by omega)
  have hzero := GymTileLogic.busy_eq_zero.mpr (System.visit_eq_resting.mp hrest)
  omega

end OneVisit

/-- Teleport correctness. Suppose the tile FSM is in `prespin` in the main game at
frame `m`, and from then on neither `Reset` nor `Escape` comes. Then the
character stands on a tile `t`, and there are frames `d < h ≤ 80` such that the
tile FSM leaves `teleport` after `d` frames and enters `hold` after `h`; up to
frame `d` the character is at `t`, from the next negative edge up to `hold` at
the partner of `t`; and `hold` lasts until a positive edge at which the character
is on no tile. The partner map is a fixed-point-free involution of the 26
coordinates. -/
theorem teleport_correct (drawer : FrameDrawer.Regs) (ins : ℕ → FrameIn) (m : ℕ)
    (hspin : (run drawer ins m).tile.state = .prespin)
    (hdraw : (run drawer ins m).fsm.state = .drawMainGame)
    (hlater : ∀ k, m ≤ k → (ins k).reset = false ∧ (ins k).keycodePos ≠ GameFSM.keyEscape) :
    (Function.Injective Tile.coord ∧ GymTileLogic.tiles = Tile.all.map Tile.coord ∧
      ∀ t : Tile, t.partner.partner = t ∧ t.partner ≠ t) ∧
    ∃ t : Tile, (run drawer ins m).OnTile t ∧ ∃ d h : ℕ, d < h ∧ h ≤ 80 ∧
      (∀ k < d, (run drawer ins (m + k)).tile.state = .prespin ∨
        (run drawer ins (m + k)).tile.state = .teleport) ∧
      (run drawer ins (m + d)).tile.state = .postspin ∧
      (∀ k < h, (run drawer ins (m + k)).tile.state ≠ .hold) ∧
      (run drawer ins (m + h)).tile.state = .hold ∧
      (∀ k ≤ d, (run drawer ins (m + k)).OnTile t) ∧
      (∀ k, d < k → k ≤ h → (run drawer ins (m + k)).OnTile t.partner) ∧
      ∀ l, m + h ≤ l →
        (∀ k, m + h ≤ k → k < l → ∃ u, ((run drawer ins k).negedge (ins k)).OnTile u) →
        (run drawer ins l).tile.state = .hold := by
  have hstay : Stays drawer ins m := stays_of_inputs hdraw hlater
  have hlinked := linked_run drawer ins
  obtain ⟨t, hon, -⟩ := (hlinked m).boarding (.inl hspin)
  have hfirst : 11 ≤ (run drawer ins m).tile.busy := by
    simp [GymTileLogic.Regs.busy, hspin]
  have hlast := GymTileLogic.busy_le_of_prespin hspin
  obtain ⟨h, hh⟩ : ∃ h, (run drawer ins m).tile.busy = h := ⟨_, rfl⟩
  have hcount : ∀ k ≤ h, (run drawer ins (m + k)).tile.busy + k = h := by
    intro k hk
    rw [← hh]
    exact busy_during hstay hspin (by omega)
  have hboard : ∀ k, k + 10 ≤ h → (run drawer ins (m + k)).Boarding ∧
      (run drawer ins (m + k)).OnTile t := by
    intro k hk
    exact (hlinked _).onTile_of_visit (boarding_during hstay hspin hon (by omega))
  have hland : ∀ k, h ≤ k + 9 → k < h → (run drawer ins (m + k)).Landed ∧
      (run drawer ins (m + k)).latched = t.partner.pos := by
    intro k hlo hhi
    exact (hlinked _).latched_of_visit (landed_during hstay hspin hon (by omega) (by omega))
  have hhold : (run drawer ins (m + h)).tile.state = .hold :=
    GymTileLogic.busy_eq_zero.mp (by have := hcount h le_rfl; omega)
  refine ⟨⟨Tile.coord_injective, by decide, fun t => ⟨t.partner_partner, t.partner_ne⟩⟩,
    t, hon, h - 9, h, by omega, by omega, ?_, ?_, ?_, hhold, ?_, ?_, ?_⟩
  · intro k hk
    exact (hboard k (by omega)).1
  · have hnine := hcount (h - 9) (by omega)
    exact GymTileLogic.postspin_of_busy (spinReady_run drawer ins _) (by omega)
  · intro k hk hcontra
    have := GymTileLogic.busy_eq_zero.mpr hcontra
    have := hcount k (by omega)
    omega
  · intro k hk
    rcases Nat.lt_or_eq_of_le hk with hlt | rfl
    · exact (hboard k (by omega)).2
    · -- The edge into `postspin` is still an edge of a boarding frame.
      obtain ⟨e, he⟩ : ∃ e, h - 9 = e + 1 := ⟨h - 10, by omega⟩
      rw [he, ← Nat.add_assoc]
      have hprev := hboard e (by omega)
      exact ((hlinked _).negedge_pos (ins (m + e)) hprev.1
        (hstay (m + e) (by omega)).1).trans hprev.2
  · intro k hdk hkh
    obtain ⟨e, rfl⟩ : ∃ e, k = e + 1 := ⟨k - 1, by omega⟩
    have hprev := hland e (by omega) (by omega)
    rw [← Nat.add_assoc]
    exact (System.negedge_pos_landed (ins (m + e)) (hstay (m + e) (by omega)).1
      hprev.1).trans hprev.2
  · intro l hl htiles
    refine Driven.hold_while (P := fun k => (run drawer ins k).tile.state = .hold)
      (G := fun k => ∃ u, ((run drawer ins k).negedge (ins k)).OnTile u) hhold ?_ l hl htiles
    intro k hk hon' hstate
    exact System.frame_hold (ins k) hstate (hstay k (by omega)).2 hon'

/-- Walking off the start tile and back on it. -/
def walkBack : List (ℕ × FrameIn) :=
  openGame ++ [(32, .press GameFSM.keyW), (33, .press GameFSM.keyS)]

/-- The character that walks back on the start tile is taken to the second room
of that pair. -/
theorem teleport_correct_walkBack :
    ∃ t : Tile, (run powerUp (Driven.script .noKey walkBack) 117).OnTile t ∧
      ∃ h ≤ 80, (run powerUp (Driven.script .noKey walkBack) (117 + h)).OnTile t.partner := by
  have hrun : run powerUp (Driven.script .noKey walkBack) 117 =
      Driven.play System.frame walkBack (.onReset powerUp) := run_script .noKey walkBack 0
  obtain ⟨-, t, hon, d, h, hdh, hh, -, -, -, -, -, hland, -⟩ :=
    teleport_correct powerUp (Driven.script .noKey walkBack) 117
      (by rw [hrun]; decide +kernel) (by rw [hrun]; decide +kernel) (by
        intro k hk
        have hlen : Driven.length walkBack ≤ k := hk
        rw [Driven.script_of_length_le .noKey hlen]
        decide)
  exact ⟨t, hon, h, hh, hland h hdh le_rfl⟩

end Game
