-- SUMMARY: The nine rooms of the gym: the bounds checker keeps the character in its room, the missing wall at column 0 apart.
import PokemonSVE.Game.Region

/-!
# Rooms

With `gyminstance` wired, a character stops at the walls of its room. The walls
to the left stand at columns 160, 320 and 480, so the first column of rooms has
none, and the condition for confinement is that nobody walks there.
-/

namespace Game

open FrameDrawer (Pos neighbour startPos)

/-- One of the nine rooms, by its column and its row. -/
structure Room where
  col : Fin 3
  row : Fin 3
  deriving DecidableEq, Repr

namespace Room

/-- The positions in a room: columns `[0,128]`, `[160,288]`, `[320,448]` and rows
`[26,107]`, `[154,235]`, `[282,363]`. -/
def Contains (r : Room) (p : Pos) : Prop :=
  (160 * r.col.val ≤ p.1.toNat ∧ p.1.toNat ≤ 160 * r.col.val + 128) ∧
    26 + 128 * r.row.val ≤ p.2.toNat ∧ p.2.toNat ≤ 107 + 128 * r.row.val

instance (r : Room) (p : Pos) : Decidable (r.Contains p) := inferInstanceAs (Decidable (_ ∧ _))

/-- The rooms do not overlap. -/
theorem Contains.unique {r r' : Room} {p : Pos} (h : r.Contains p) (h' : r'.Contains p) :
    r = r' := by
  rcases r with ⟨col, row⟩
  rcases r' with ⟨col', row'⟩
  obtain ⟨⟨hl, hr⟩, ht, hb⟩ := h
  obtain ⟨⟨hl', hr'⟩, ht', hb'⟩ := h'
  dsimp only at *
  obtain rfl : col = col' := Fin.ext (by omega)
  obtain rfl : row = row' := Fin.ext (by omega)
  rfl

/-- The room at a position that is known to be in one. -/
def ofPos (p : Pos) : Room :=
  ⟨Fin.ofNat 3 (p.1.toNat / 160), Fin.ofNat 3 ((p.2.toNat - 26) / 128)⟩

theorem contains_startPos : (Room.ofPos startPos).Contains startPos := by decide

theorem contains_tile (t : Tile) : (Room.ofPos t.pos).Contains t.pos :=
  Tile.forall_of_all (P := fun t => (Room.ofPos t.pos).Contains t.pos) (by decide) t

/-- A pixel that no wall stops stays in the room, unless it is one to the left of
column 0. -/
theorem Contains.neighbour {r : Room} {p : Pos} (h : r.Contains p) {d : BitVec 2}
    (hwall : GymBoundsChecker.atBounds d p.1 p.2 = false)
    (hgap : ¬ (d = 2#2 ∧ p.1 = 0#10)) : r.Contains (neighbour d p) := by
  rcases r with ⟨col, row⟩
  rcases p with ⟨x, y⟩
  obtain ⟨⟨hl, hr⟩, ht, hb⟩ := h
  have hcol := col.isLt
  have hrow := row.isLt
  have hopen : ¬ GymBoundsChecker.atBounds d x y = true := by rw [hwall]; exact Bool.false_ne_true
  dsimp only at *
  rcases GameFSM.direction_cases d with rfl | rfl | rfl | rfl
  · rw [GymBoundsChecker.atBounds_down] at hopen
    simp only [FrameDrawer.neighbour_down, Contains]
    rw [FrameDrawer.toNat_add_one]
    split_ifs <;> omega
  · rw [GymBoundsChecker.atBounds_up] at hopen
    simp only [FrameDrawer.neighbour_up, Contains]
    rw [FrameDrawer.toNat_sub_one]
    split_ifs <;> omega
  · rw [GymBoundsChecker.atBounds_left] at hopen
    have hne : x ≠ 0#10 := fun hx => hgap ⟨rfl, hx⟩
    have hpos : 0 < x.toNat := by bv_omega
    simp only [FrameDrawer.neighbour_left, Contains]
    rw [FrameDrawer.toNat_sub_one]
    split_ifs <;> omega
  · rw [GymBoundsChecker.atBounds_right] at hopen
    simp only [FrameDrawer.neighbour_right, Contains]
    rw [FrameDrawer.toNat_add_one]
    split_ifs <;> omega

/-- Left of column 0 there is no room. -/
theorem not_contains_wrap {r : Room} {p : Pos} (hx : p.1 = 0#10) :
    ¬ r.Contains (FrameDrawer.neighbour 2#2 p) := by
  rintro ⟨⟨-, hr⟩, -⟩
  have hcol := r.col.isLt
  simp only [FrameDrawer.neighbour_left, hx] at hr
  simp at hr
  omega

end Room

/-- The gap: to the left of column 0 there is no wall. -/
def ColumnGap (d : BitVec 2) (p : Pos) : Prop := d = 2#2 ∧ p.1 = 0#10

theorem walled_rooms : Walled (fun p => ∃ r : Room, r.Contains p) ColumnGap where
  start := ⟨_, Room.contains_startPos⟩
  tile t := ⟨_, Room.contains_tile t⟩
  walk d p h hwall := by
    obtain ⟨r, hr⟩ := h
    constructor
    · rintro ⟨r', hr'⟩ ⟨rfl, hx⟩
      exact Room.not_contains_wrap hx hr'
    · exact fun hgap => ⟨r, hr.neighbour hwall hgap⟩

section Rooms

variable (drawer : FrameDrawer.Regs) (ins : ℕ → FrameIn)

/-- In the main game the character is in a room, before and after the negative
edge, and the room changes only while the tile logic puts it on the tile it was
teleported to. -/
def Confined : Prop :=
  ∀ n, (gymRun drawer ins n).fsm.state = .drawMainGame →
    ∃ r r' : Room, r.Contains (gymRun drawer ins n).pos ∧
      r'.Contains ((gymRun drawer ins n).negedge (gymIn drawer ins n)).pos ∧
      (r' ≠ r → (gymRun drawer ins n).Landed)

variable {drawer ins}

theorem Confined.staysIn (h : Confined drawer ins) :
    StaysIn drawer ins fun p => ∃ r : Room, r.Contains p := by
  intro n hmain
  obtain ⟨r, r', hr, hr', -⟩ := h n hmain
  exact ⟨⟨r, hr⟩, r', hr'⟩

/-- A frame of the main game that does not walk through the gap and does not land
keeps the room. -/
theorem Room.Contains.negedge {n : ℕ} {r : Room}
    (hmain : (gymRun drawer ins n).fsm.state = .drawMainGame)
    (hr : r.Contains (gymRun drawer ins n).pos)
    (hgap : ¬ (gymRun drawer ins n).WalksThrough ColumnGap (gymIn drawer ins n))
    (hland : ¬ (gymRun drawer ins n).Landed) :
    r.Contains ((gymRun drawer ins n).negedge (gymIn drawer ins n)).pos := by
  rcases System.negedge_pos_cases (staged_runWired gyminstance drawer ins n)
      (linked_runWired gyminstance drawer ins n) (gymIn drawer ins n) with
    ⟨hscreen, -⟩ | ⟨hl, -⟩ | ⟨hwalk, hpos⟩ | ⟨-, hpos⟩
  · exact absurd hmain hscreen
  · exact absurd hl hland
  · rw [hpos]
    exact hr.neighbour (atBounds_of_walks hwalk) fun hg => hgap ⟨hwalk, hg⟩
  · rwa [hpos]

/-- The character is confined to its rooms exactly if it never takes a pixel to the
left from column 0. -/
theorem confined_iff (drawer : FrameDrawer.Regs) (ins : ℕ → FrameIn) :
    Confined drawer ins ↔
      ∀ n, ¬ (gymRun drawer ins n).WalksThrough ColumnGap (gymIn drawer ins n) := by
  constructor
  · exact fun h => (walled_rooms.staysIn_iff drawer ins).mp h.staysIn
  · intro hgap n hmain
    obtain ⟨⟨r, hr⟩, r', hr'⟩ := (walled_rooms.staysIn_iff drawer ins).mpr hgap n hmain
    refine ⟨r, r', hr, hr', fun hne => ?_⟩
    by_contra hland
    exact hne (hr'.unique (hr.negedge hmain (hgap n) hland))

/-- Through the tiles A1 and D2 to the first column of rooms, and to the left. -/
def throughGap : List (ℕ × FrameIn) :=
  openGame ++
    [ (32, .pressRun GameFSM.keyW), (33, .pressRun GameFSM.keyS), (75, .noKey),
      (129, .pressRun GameFSM.keyA), (75, .noKey),
      (33, .pressRun GameFSM.keyS), (130, .pressRun GameFSM.keyA) ]

/-- The character ends up left of the gym, at (1023,347). -/
theorem not_confined_throughGap : ¬ Confined powerUp (Driven.script .noKey throughGap) := by
  have hend : (Driven.play (Driven.feedback System.frame (wire gyminstance)) throughGap
        (.onReset powerUp)).fsm.state = .drawMainGame ∧
      (Driven.play (Driven.feedback System.frame (wire gyminstance)) throughGap
        (.onReset powerUp)).pos.1 = 1023#10 := by
    decide +kernel
  rw [← runWired_script_end gyminstance .noKey throughGap] at hend
  intro h
  obtain ⟨r, -, ⟨⟨-, hright⟩, -⟩, -⟩ := h _ hend.1
  have hcol := r.col.isLt
  rw [hend.2] at hright
  simp at hright
  omega

end Rooms

end Game
