-- SUMMARY: The teleport tiles as a type, their pairing, and what the hand-typed coordinate tables of `gymTileLogic` say about them.
import PokemonSVE.Game.System
import Mathlib.Logic.Function.Basic

/-!
# Tiles

The gym has thirteen pairs of tiles. Here a tile is a pair and a side of it, and
the partner of a tile is the other side. The lemmas of this file are all that
the rest of the development uses of the 26 coordinates.
-/

namespace Game

open FrameDrawer (Pos)

inductive Gate where
  | A | B | C | D | E | F | G | H | I | J | K | L | M
  deriving DecidableEq, Repr

/-- Side 1 (`far = false`) or side 2 (`far = true`) of a pair of tiles. -/
structure Tile where
  gate : Gate
  far : Bool
  deriving DecidableEq, Repr

namespace Tile

def partner (t : Tile) : Tile := { t with far := !t.far }

theorem partner_partner (t : Tile) : t.partner.partner = t := by
  simp [partner]

theorem partner_ne (t : Tile) : t.partner ≠ t := by
  intro h
  have := congrArg Tile.far h
  simp [partner] at this

open GymTileLogic in
/-- The name of the tile in the source. -/
def coord : Tile → BitVec 20
  | ⟨.A, false⟩ => A1
  | ⟨.A, true⟩ => A2
  | ⟨.B, false⟩ => B1
  | ⟨.B, true⟩ => B2
  | ⟨.C, false⟩ => C1
  | ⟨.C, true⟩ => C2
  | ⟨.D, false⟩ => D1
  | ⟨.D, true⟩ => D2
  | ⟨.E, false⟩ => E1
  | ⟨.E, true⟩ => E2
  | ⟨.F, false⟩ => F1
  | ⟨.F, true⟩ => F2
  | ⟨.G, false⟩ => G1
  | ⟨.G, true⟩ => G2
  | ⟨.H, false⟩ => H1
  | ⟨.H, true⟩ => H2
  | ⟨.I, false⟩ => I1
  | ⟨.I, true⟩ => I2
  | ⟨.J, false⟩ => J1
  | ⟨.J, true⟩ => J2
  | ⟨.K, false⟩ => K1
  | ⟨.K, true⟩ => K2
  | ⟨.L, false⟩ => L1
  | ⟨.L, true⟩ => L2
  | ⟨.M, false⟩ => M1
  | ⟨.M, true⟩ => M2

/-- The character standing on the tile: `coord` names its right and bottom edge,
15 pixels right of and 20 pixels below its top left corner. -/
def pos (t : Tile) : Pos :=
  (t.coord.extractLsb' 10 10 - 15#10, t.coord.extractLsb' 0 10 - 20#10)

/-- The start position is on the first tile. -/
def home : Tile := ⟨.A, false⟩

theorem home_pos : home.pos = FrameDrawer.startPos := by decide

/-- The tiles in the order of the source. -/
def all : List Tile :=
  [Gate.A, .B, .C, .D, .E, .F, .G, .H, .I, .J, .K, .L, .M].flatMap
    fun g => [⟨g, false⟩, ⟨g, true⟩]

theorem mem_all (t : Tile) : t ∈ all := by
  rcases t with ⟨g, far⟩
  cases g <;> cases far <;> decide

/-- What is decided for the 26 tiles holds for every tile. -/
theorem forall_of_all {P : Tile → Prop} (h : ∀ t ∈ all, P t) (t : Tile) : P t := h t (mem_all t)

/-- Different tiles have different coordinates. -/
theorem coord_injective : Function.Injective coord := by
  have hfind : ∀ t : Tile, all.find? (fun u => u.coord == t.coord) = some t :=
    forall_of_all (by decide)
  intro t u h
  have hsome : some t = some u := by rw [← hfind t, h, hfind u]
  exact Option.some.inj hsome

/-- The disjunction of the source tests for the tiles and for nothing else. -/
theorem isOnTile_iff {xy : BitVec 20} :
    GymTileLogic.isOnTile xy = true ↔ ∃ t : Tile, t.coord = xy := by
  have htiles : GymTileLogic.tiles = all.map coord := by decide
  simp [GymTileLogic.isOnTile, htiles, mem_all]

/-- The case table of the source has an arm for each tile, which names the
partner. -/
theorem lookup_coord (t : Tile) :
    GymTileLogic.teleportArms.lookup t.coord = some t.partner.coord :=
  forall_of_all (P := fun t => GymTileLogic.teleportArms.lookup t.coord = some t.partner.coord)
    (by decide) t

/-- A coordinate is its two halves. -/
theorem coord_halves (t : Tile) :
    t.coord.extractLsb' 10 10 ++ t.coord.extractLsb' 0 10 = t.coord :=
  forall_of_all
    (P := fun t => t.coord.extractLsb' 10 10 ++ t.coord.extractLsb' 0 10 = t.coord) (by decide) t

theorem teleportTo_coord (t : Tile) : GymTileLogic.teleportTo t.coord = t.partner.coord := by
  simp [GymTileLogic.teleportTo, lookup_coord]

end Tile

namespace System

/-- The character is on a tile exactly if the concatenated edges are the
coordinate of the tile. -/
theorem currxy_eq_coord (s : System) (t : Tile) : s.currxy = t.coord ↔ s.pos = t.pos := by
  have hx : s.currxy.extractLsb' 10 10 = s.xright := BitVec.extractLsb'_append_eq_left
  have hy : s.currxy.extractLsb' 0 10 = s.ybottom := BitVec.extractLsb'_append_eq_right
  constructor
  · intro h
    rw [h] at hx hy
    simp only [Tile.pos, hx, hy, pos, FrameDrawer.Regs.pos, xright, ybottom, BitVec.add_sub_cancel]
  · intro h
    have hpos : s.drawer.charxcurrpos = t.coord.extractLsb' 10 10 - 15#10 ∧
        s.drawer.charycurrpos = t.coord.extractLsb' 0 10 - 20#10 := by
      simpa [Tile.pos, pos, FrameDrawer.Regs.pos] using h
    have hcat : s.currxy = t.coord.extractLsb' 10 10 ++ t.coord.extractLsb' 0 10 := by
      simp only [currxy, xright, ybottom, hpos, BitVec.sub_add_cancel]
    rw [hcat]
    exact Tile.coord_halves t

/-- The character stands on the tile `t`. -/
def OnTile (s : System) (t : Tile) : Prop := s.pos = t.pos

theorem isOnTile_iff (s : System) :
    GymTileLogic.isOnTile s.currxy = true ↔ ∃ t, s.OnTile t := by
  simp only [Tile.isOnTile_iff, OnTile, ← currxy_eq_coord]
  exact ⟨fun ⟨t, h⟩ => ⟨t, h.symm⟩, fun ⟨t, h⟩ => ⟨t, h.symm⟩⟩

theorem OnTile.unique {s : System} {t t' : Tile} (h : s.OnTile t) (h' : s.OnTile t') : t = t' :=
  Tile.coord_injective (((currxy_eq_coord s t).mpr h).symm.trans ((currxy_eq_coord s t').mpr h'))

end System

end Game
