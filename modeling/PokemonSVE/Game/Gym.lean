-- SUMMARY: The gym as a graph: what a step does between two rests, the gates between the nine rooms, and that there is a way from every tile to every other.
import PokemonSVE.Game.Rooms
import PokemonSVE.Game.StepLength
import Mathlib.Logic.Relation

/-!
# The gym

What the components are for, in terms of where the character rests: a step goes 16
pixels in one direction, and on to the partner if it ends on a tile. The gym is a maze of
rooms, and the player's question is whether there is a way.
-/

namespace Game

open FrameDrawer (Pos neighbour)
open Relation (ReflTransGen)

/-- Nothing stops a step from a point of the grid in direction `d`. -/
def Open (d : BitVec 2) (p : Pos) : Prop :=
  GymBoundsChecker.atBounds d p.1 p.2 = false ∧
    GymBoundsChecker.atBounds d (neighbour d p).1 (neighbour d p).2 = false

instance (d : BitVec 2) (p : Pos) : Decidable (Open d p) := inferInstanceAs (Decidable (_ ∧ _))

/-- The tile at a position. -/
def tileAt (p : Pos) : Option Tile := Tile.all.find? fun t => t.pos == p

/-- Where a character comes to rest that steps to `p`. -/
def arrive (p : Pos) : Pos := (tileAt p).elim p fun t => t.partner.pos

/-- A step from rest to rest. -/
def Move (p q : Pos) : Prop := ∃ d, Open d p ∧ arrive (ahead d 16 p) = q

/-- The rest after a list of steps, if nothing stops them. -/
def follow : List (BitVec 2) → Pos → Option Pos
  | [], p => some p
  | d :: ds, p => if Open d p then follow ds (arrive (ahead d 16 p)) else none

theorem moves_of_follow {ds : List (BitVec 2)} {p q : Pos} (h : follow ds p = some q) :
    ReflTransGen Move p q := by
  induction ds generalizing p with
  | nil =>
    rw [Option.some.inj h]
  | cons d ds ih =>
    rw [follow] at h
    split_ifs at h with hopen
    exact (ih h).head ⟨d, hopen, rfl⟩

theorem arrive_tile (t : Tile) : arrive t.pos = t.partner.pos :=
  Tile.forall_of_all (P := fun t => arrive t.pos = t.partner.pos) (by decide +kernel) t

theorem arrive_of_ne {p : Pos} (h : ∀ t : Tile, p ≠ t.pos) : arrive p = p := by
  have hnone : tileAt p = none := by
    rw [tileAt, List.find?_eq_none]
    intro t _ heq
    exact h t (beq_iff_eq.mp heq).symm
  rw [arrive, hnone]
  rfl

/-! ## Between two points of the grid -/

theorem aligned_ahead {p : Pos} (h : OnGrid p) (d : BitVec 2) (w : ℕ) :
    Aligned d w (ahead d w p) := by
  induction w with
  | zero =>
    rw [ahead_zero]
    exact aligned_of_onGrid h d (Nat.dvd_zero 16)
  | succ w ih =>
    rw [← neighbour_ahead]
    exact ih.neighbour

/-- Between two points of the grid there is no tile. -/
theorem ahead_ne_tile {p : Pos} (h : OnGrid p) (d : BitVec 2) {w : ℕ} (hpos : 0 < w)
    (hw : w < 16) (t : Tile) : ahead d w p ≠ t.pos := by
  intro heq
  have hgrid : OnGrid (ahead d w p) := heq ▸ onGrid_tile t
  exact absurd (Nat.le_of_dvd hpos ((aligned_ahead h d w).onGrid_iff.mp hgrid)) (by omega)

/-- The walls above the rooms are one pixel past the grid, and everything else that stops
a character is on it. -/
theorem aligned_of_atBounds {d : BitVec 2} {w : ℕ} {p : Pos} (h : Aligned d w p)
    (hstop : GymBoundsChecker.atBounds d p.1 p.2 = true) : w % 16 = 0 ∨ w % 16 = 1 := by
  rcases GameFSM.direction_cases d with rfl | rfl | rfl | rfl
  · have hline := (GymBoundsChecker.atBounds_down _ _).mp hstop
    simp only [Aligned, if_true] at h
    omega
  · have hline := (GymBoundsChecker.atBounds_up _ _).mp hstop
    simp only [Aligned, BitVec.reduceEq, if_true, if_false] at h
    omega
  · have hline := (GymBoundsChecker.atBounds_left _ _).mp hstop
    simp only [Aligned, BitVec.reduceEq, if_true, if_false] at h
    omega
  · have hline := (GymBoundsChecker.atBounds_right _ _).mp hstop
    simp only [Aligned, BitVec.reduceEq, if_false] at h
    omega

/-- An open step is open at each of its pixels. -/
theorem Open.ahead {d : BitVec 2} {p : Pos} (h : Open d p) (hgrid : OnGrid p) {w : ℕ}
    (hw : w < 16) : GymBoundsChecker.atBounds d (ahead d w p).1 (ahead d w p).2 = false := by
  by_contra hstop
  rw [Bool.not_eq_false] at hstop
  rcases aligned_of_atBounds (aligned_ahead hgrid d w) hstop with hmod | hmod
  · obtain rfl : w = 0 := by omega
    rw [ahead_zero, h.1] at hstop
    cases hstop
  · obtain rfl : w = 1 := by omega
    rw [← neighbour_ahead, ahead_zero, h.2] at hstop
    cases hstop

theorem onGrid_ahead {p : Pos} (h : OnGrid p) (d : BitVec 2) : OnGrid (ahead d 16 p) :=
  (aligned_ahead h d 16).onGrid_iff.mpr (Nat.dvd_refl 16)

/-! ## Gates

In each room the character can walk from every tile to every other, and to none but that
one on the way. -/

namespace Tile

def room (t : Tile) : Room := Room.ofPos t.pos

/-- A character that rests on `t` and walks on a tile of the room ends up on the partner of
that tile, `u`. The tile can be `t` itself. -/
def Gate (t u : Tile) : Prop := t.room = u.partner.room

instance (t u : Tile) : Decidable (t.Gate u) := inferInstanceAs (Decidable (_ = _))

/-- The steps from one tile of a room to another: the tiles are in the corners, so that the
way is through the middle, unless the tiles are in one row. -/
def route (t u : Tile) : List (BitVec 2) :=
  let (inward, back) := if t.pos.2.toNat % 128 = 59 then (0#2, 1#2) else (1#2, 0#2)
  let across :=
    if t.pos.1.toNat < u.pos.1.toNat then List.replicate ((u.pos.1 - t.pos.1).toNat / 16) 3#2
    else List.replicate ((t.pos.1 - u.pos.1).toNat / 16) 2#2
  if t = u then [inward, back]
  else if t.pos.2 = u.pos.2 then across
  else inward :: (across ++ [inward, inward])

theorem follow_route : ∀ t ∈ all, ∀ u ∈ all, t.Gate u →
    follow (t.route u.partner) t.pos = some u.pos := by
  decide +kernel

theorem Gate.moves {t u : Tile} (h : t.Gate u) : ReflTransGen Move t.pos u.pos :=
  moves_of_follow (follow_route t (mem_all t) u (mem_all u) h)

/-- The way back is by the partners. -/
theorem Gate.reverse {t u : Tile} (h : t.Gate u) : u.partner.Gate t.partner := by
  rw [Gate, partner_partner]
  exact Eq.symm h

theorem gates_reverse {t u : Tile} (h : ReflTransGen Gate t u) :
    ReflTransGen Gate u.partner t.partner := by
  induction h with
  | refl => exact .refl
  | tail _ hgate ih => exact ih.head hgate.reverse

/-- A tile of each room, on which a character comes to rest that finds the room. -/
def doors : List Tile :=
  [home, ⟨.A, true⟩, ⟨.B, false⟩, ⟨.C, false⟩, ⟨.D, false⟩, ⟨.E, false⟩, ⟨.G, false⟩, ⟨.I, false⟩,
    ⟨.M, true⟩]

theorem gates_to_doors : ∀ v ∈ doors, ReflTransGen Gate home v := by
  have ha : ReflTransGen Gate home ⟨.A, true⟩ := .single (by decide)
  have hb : ReflTransGen Gate home ⟨.B, false⟩ := ha.tail (by decide)
  have hc : ReflTransGen Gate home ⟨.C, false⟩ := ha.tail (by decide)
  have hd : ReflTransGen Gate home ⟨.D, false⟩ := ha.tail (by decide)
  have he : ReflTransGen Gate home ⟨.E, false⟩ := hb.tail (by decide)
  have hg : ReflTransGen Gate home ⟨.G, false⟩ := hb.tail (by decide)
  have hi : ReflTransGen Gate home ⟨.I, false⟩ := hc.tail (by decide)
  have hm : ReflTransGen Gate home ⟨.M, true⟩ := hi.tail (by decide)
  simp only [doors, List.forall_mem_cons]
  exact ⟨.refl, ha, hb, hc, hd, he, hg, hi, hm, List.forall_mem_nil _⟩

/-- The doors are in all of the nine rooms. -/
theorem exists_door (u : Tile) : ∃ v ∈ doors, v.Gate u :=
  forall_of_all (P := fun u => ∃ v ∈ doors, v.Gate u) (by decide +kernel) u

theorem gates_from_home (u : Tile) : ReflTransGen Gate home u := by
  obtain ⟨v, hv, hgate⟩ := exists_door u
  exact (gates_to_doors v hv).tail hgate

theorem gates_between (t u : Tile) : ReflTransGen Gate t u := by
  have hback := gates_reverse (gates_from_home t.partner)
  rw [partner_partner] at hback
  exact (hback.tail rfl).trans (gates_from_home u)

/-- There is a way from every tile to every other. -/
theorem moves_between (t u : Tile) : ReflTransGen Move t.pos u.pos :=
  (gates_between t u).lift' Tile.pos fun _ _ => Gate.moves

end Tile

end Game
