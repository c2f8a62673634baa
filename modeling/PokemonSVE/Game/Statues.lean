-- SUMMARY: The two statues: where the stop lines of the bounds checker fail to meet, and that nothing else lets the character into a statue.
import PokemonSVE.Game.Region

/-!
# Statues

The vertical stops of a statue test for one column, the horizontal ones for rows
up to 315, sixteen short of the vertical stop below the statue. What is left open
is a gap in the sense of `Region.lean`.
-/

namespace Game

open FrameDrawer (Pos neighbour startPos)

/-- The columns of a statue, between the stop lines to its sides. -/
def StatueColumn (x : ℕ) : Prop := (176 < x ∧ x < 208) ∨ (240 < x ∧ x < 272)

/-- The character overlaps a statue. -/
def OverlapsStatue (p : Pos) : Prop :=
  StatueColumn p.1.toNat ∧ 283 < p.2.toNat ∧ p.2.toNat < 331

/-- The places around a statue where the checker does not stop the character: from
above and below all columns but the middle one, from the sides the rows below
315. -/
def StatueGap (d : BitVec 2) (p : Pos) : Prop :=
  (d = 0#2 ∧ p.2.toNat = 283 ∧ StatueColumn p.1.toNat ∧ p.1.toNat ≠ 192 ∧ p.1.toNat ≠ 256) ∨
  (d = 1#2 ∧ p.2.toNat = 331 ∧ StatueColumn p.1.toNat ∧ p.1.toNat ≠ 192 ∧ p.1.toNat ≠ 256) ∨
  (d = 2#2 ∧ (p.1.toNat = 208 ∨ p.1.toNat = 272) ∧ 315 < p.2.toNat ∧ p.2.toNat < 331) ∨
  (d = 3#2 ∧ (p.1.toNat = 176 ∨ p.1.toNat = 240) ∧ 315 < p.2.toNat ∧ p.2.toNat < 331)

instance (x : ℕ) : Decidable (StatueColumn x) := inferInstanceAs (Decidable (_ ∨ _))
instance (p : Pos) : Decidable (OverlapsStatue p) := inferInstanceAs (Decidable (_ ∧ _))
instance (d : BitVec 2) (p : Pos) : Decidable (StatueGap d p) :=
  inferInstanceAs (Decidable (_ ∨ _))

/-- A pixel that the checker allows leads into a statue exactly at a gap. -/
theorem overlapsStatue_neighbour {p : Pos} (h : ¬ OverlapsStatue p) {d : BitVec 2}
    (hwall : GymBoundsChecker.atBounds d p.1 p.2 = false) :
    OverlapsStatue (neighbour d p) ↔ StatueGap d p := by
  rcases p with ⟨x, y⟩
  have hopen : ¬ GymBoundsChecker.atBounds d x y = true := by rw [hwall]; exact Bool.false_ne_true
  unfold OverlapsStatue StatueColumn at *
  unfold StatueGap StatueColumn
  dsimp only at h
  rcases GameFSM.direction_cases d with rfl | rfl | rfl | rfl
  · rw [GymBoundsChecker.atBounds_down] at hopen
    simp only [FrameDrawer.neighbour_down, FrameDrawer.toNat_add_one, BitVec.reduceEq, false_and,
      or_false, true_and]
    split_ifs <;> omega
  · rw [GymBoundsChecker.atBounds_up] at hopen
    simp only [FrameDrawer.neighbour_up, FrameDrawer.toNat_sub_one, BitVec.reduceEq, false_and,
      or_false, false_or, true_and]
    split_ifs <;> omega
  · rw [GymBoundsChecker.atBounds_left] at hopen
    simp only [FrameDrawer.neighbour_left, FrameDrawer.toNat_sub_one, BitVec.reduceEq, false_and,
      or_false, false_or, true_and]
    split_ifs <;> omega
  · rw [GymBoundsChecker.atBounds_right] at hopen
    simp only [FrameDrawer.neighbour_right, FrameDrawer.toNat_add_one, BitVec.reduceEq, false_and,
      false_or, true_and]
    split_ifs <;> omega

theorem walled_statues : Walled (fun p => ¬ OverlapsStatue p) StatueGap where
  start := by decide
  tile := Tile.forall_of_all (by decide)
  walk _ _ h hwall := not_congr (overlapsStatue_neighbour h hwall)

/-- The statues are solid: the character never overlaps one. -/
def Solid (drawer : FrameDrawer.Regs) (ins : ℕ → FrameIn) : Prop :=
  StaysIn drawer ins fun p => ¬ OverlapsStatue p

/-- The statues are solid exactly in the runs in which the character never takes a
pixel through a gap between their stop lines. -/
theorem solid_iff (drawer : FrameDrawer.Regs) (ins : ℕ → FrameIn) :
    Solid drawer ins ↔
      ∀ n, ¬ (gymRun drawer ins n).WalksThrough StatueGap (gymIn drawer ins n) :=
  walled_statues.staysIn_iff drawer ins

/-- Input without the run button, and with one key a frame. -/
def FrameIn.Plain (i : FrameIn) : Prop :=
  i.charIsRunning = false ∧ i.keycodeNeg = i.keycodePos

/-- Up from the start to the wall, a step to the left, down, and to the left. The
wall stops the character one row off the grid, so that it comes down to row 330,
past the rows in which the side of the statue stops it. -/
def aroundStatue : List (ℕ × FrameIn) :=
  openGame ++
    [ (96, .press GameFSM.keyW), (33, .press GameFSM.keyA), (97, .press GameFSM.keyS),
      (2, .press GameFSM.keyA) ]

/-- The character ends up in a statue, at (271,330). -/
theorem not_solid_aroundStatue :
    (∀ k, (Driven.script .noKey aroundStatue k).Plain) ∧
      ¬ Solid powerUp (Driven.script .noKey aroundStatue) := by
  refine ⟨Driven.script_forall ⟨rfl, rfl⟩ (by
    intro entry hentry
    simp [aroundStatue, openGame] at hentry
    rcases hentry with rfl | rfl | rfl | rfl | rfl | rfl <;> exact ⟨rfl, rfl⟩), ?_⟩
  have hend : (Driven.play (Driven.feedback System.frame (wire gyminstance)) aroundStatue
        (.onReset powerUp)).fsm.state = .drawMainGame ∧
      OverlapsStatue (Driven.play (Driven.feedback System.frame (wire gyminstance)) aroundStatue
        (.onReset powerUp)).pos := by
    decide +kernel
  rw [← runWired_script_end gyminstance .noKey aroundStatue] at hend
  exact fun h => (h _ hend.1).1 hend.2

end Game
