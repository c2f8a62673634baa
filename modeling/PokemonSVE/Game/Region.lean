-- SUMMARY: Regions of the plane under the bounds checker: a region that holds the start position and the tiles is left only through the gaps in its walls.
import PokemonSVE.Game.Session

/-!
# Walled regions

With `gyminstance` wired, a character keeps to a region unless it takes a pixel
through a gap, a place where the checker tests for no wall. The rooms and the
statues are two regions with gaps of their own.
-/

namespace Game

open FrameDrawer (Pos neighbour startPos)

/-- A region that the game puts the character in, and that it can walk out of at
the gaps only. -/
structure Walled (R : Pos → Prop) (Gap : BitVec 2 → Pos → Prop) : Prop where
  start : R startPos
  tile : ∀ t : Tile, R t.pos
  walk : ∀ d p, R p → GymBoundsChecker.atBounds d p.1 p.2 = false →
    (R (neighbour d p) ↔ ¬ Gap d p)

/-- The character takes a pixel through a gap at the negative edge. -/
def System.WalksThrough (Gap : BitVec 2 → Pos → Prop) (s : System) (i : FrameIn) : Prop :=
  s.Walks i ∧ Gap s.fsm.direction s.pos

section Region

variable (drawer : FrameDrawer.Regs) (ins : ℕ → FrameIn)

/-- The run with the bounds checker wired. -/
abbrev gymRun : ℕ → System := runWired gyminstance drawer ins

abbrev gymIn : ℕ → FrameIn := wiredIn gyminstance drawer ins

/-- In the main game the character is in the region, before and after the negative
edge. -/
def StaysIn (R : Pos → Prop) : Prop :=
  ∀ n, (gymRun drawer ins n).fsm.state = .drawMainGame →
    R (gymRun drawer ins n).pos ∧ R ((gymRun drawer ins n).negedge (gymIn drawer ins n)).pos

/-- The invariant: outside the start screen the character is in the region. -/
def Within (R : Pos → Prop) (n : ℕ) : Prop :=
  (gymRun drawer ins n).fsm.state.num ≠ 0#4 → R (gymRun drawer ins n).pos

variable {drawer ins} {R : Pos → Prop} {Gap : BitVec 2 → Pos → Prop} {n : ℕ}

theorem gym_succ (n : ℕ) :
    gymRun drawer ins (n + 1) = (gymRun drawer ins n).frame (gymIn drawer ins n) :=
  runWired_succ gyminstance drawer ins n

/-- A character that walks is not stopped by the checker. -/
theorem atBounds_of_walks (h : (gymRun drawer ins n).Walks (gymIn drawer ins n)) :
    GymBoundsChecker.atBounds (gymRun drawer ins n).fsm.direction (gymRun drawer ins n).pos.1
      (gymRun drawer ins n).pos.2 = false :=
  ((System.walks_iff _ _).mp h).2.2.2.1

/-- A negative edge takes a character out of the region through a gap only. -/
theorem Walled.negedge (hR : Walled R Gap) (h : Within drawer ins R n)
    (hgap : ¬ (gymRun drawer ins n).WalksThrough Gap (gymIn drawer ins n))
    (hnum : (gymRun drawer ins n).fsm.state.num ≠ 0#4) :
    R ((gymRun drawer ins n).negedge (gymIn drawer ins n)).pos := by
  rcases System.negedge_pos_cases (staged_runWired gyminstance drawer ins n)
      (linked_runWired gyminstance drawer ins n) (gymIn drawer ins n) with
    ⟨-, hpos⟩ | ⟨-, t, hpos⟩ | ⟨hwalk, hpos⟩ | ⟨-, hpos⟩
  · rw [hpos]
    exact hR.start
  · rw [hpos]
    exact hR.tile t
  · rw [hpos, hR.walk _ _ (h hnum) (atBounds_of_walks hwalk)]
    exact fun hg => hgap ⟨hwalk, hg⟩
  · rw [hpos]
    exact h hnum

theorem Walled.succ (hR : Walled R Gap) (h : Within drawer ins R n)
    (hgap : ¬ (gymRun drawer ins n).WalksThrough Gap (gymIn drawer ins n)) :
    Within drawer ins R (n + 1) := by
  intro _
  rw [gym_succ, System.frame_pos]
  by_cases h0 : (gymRun drawer ins n).fsm.state.num = 0#4
  · rw [((gymRun drawer ins n).negedge_pos_start _ h0).1]
    exact hR.start
  · exact hR.negedge h hgap h0

theorem Walled.frame_iff (hR : Walled R Gap) (h : Within drawer ins R n) :
    ((gymRun drawer ins n).fsm.state = .drawMainGame → R (gymRun drawer ins n).pos ∧
        R ((gymRun drawer ins n).negedge (gymIn drawer ins n)).pos) ↔
      ¬ (gymRun drawer ins n).WalksThrough Gap (gymIn drawer ins n) := by
  constructor
  · rintro hin ⟨hwalk, hg⟩
    obtain ⟨hpos, hnext⟩ := hin hwalk.1
    rw [System.negedge_pos_walk _ _ hwalk.1 hwalk.2.1, if_pos hwalk,
      hR.walk _ _ hpos (atBounds_of_walks hwalk)] at hnext
    exact hnext hg
  · intro hgap hmain
    have hnum : (gymRun drawer ins n).fsm.state.num ≠ 0#4 := by rw [hmain]; decide
    exact ⟨h hnum, hR.negedge h hgap hnum⟩

/-- The rule for walled regions: the character stays in exactly if it never walks
through a gap. -/
theorem Walled.staysIn_iff (hR : Walled R Gap) (drawer : FrameDrawer.Regs)
    (ins : ℕ → FrameIn) :
    StaysIn drawer ins R ↔
      ∀ n, ¬ (gymRun drawer ins n).WalksThrough Gap (gymIn drawer ins n) :=
  Driven.forall_iff_of_invariant (J := Within drawer ins R) (fun h => absurd rfl h)
    (fun _ h => hR.frame_iff h) (fun _ h hgap => hR.succ h hgap)

end Region

end Game
