-- SUMMARY: The composed pixel over the map and the sprite sheet: the picture is the map around the character and the cell of its pose, both one pixel to the right.
import PokemonSVE.Video.Composition
import PokemonSVE.Video.Sprite

/-!
# The picture

With the position and the screen unchanged from one pixel to the next, the pixel that
stays in the frame buffer is the one of the map to the left. To the left of the first
column of the map lies, by its address, the last column of the row above, and above
the first row nothing. The character is the one of the sheet to the left as well, so
that of the 17 columns of the box the first one shows no column of the cell, and the
others show all 16.
-/

namespace Video

open FrameDrawer (PixelIn InWindow)

namespace PowerUp

variable (p : PowerUp)

/-- The colour of a word of the map memory. -/
def mapColour (a : ℕ) : BitVec 24 :=
  if h : a < GymMapRam.depth then SpriteRam.palette GymMapRam.colours (p.gym.mem ⟨a, h⟩)
  else SpriteRam.defaultColour

/-- The colour one pixel to the left of column `x` of row `y` of the map. -/
def lagged (x y : ℤ) : BitVec 24 :=
  if x = 0 ∧ y = 0 then SpriteRam.defaultColour else p.mapColour (464 * y + x - 1).toNat

/-- The colour of a word of the sprite sheet. -/
def sheetColour (a : ℕ) : BitVec 24 :=
  if h : a < CharacterRam.depth then
    SpriteRam.palette CharacterRam.colours (p.char.mem ⟨a, h⟩)
  else SpriteRam.defaultColour

theorem charColour_eq (i : PixelIn) : p.charColour i = p.sheetColour i.Charread_address.toNat := rfl

theorem gymColour_eq (i : PixelIn) : p.gymColour i = p.mapColour i.Gymread_address.toNat := rfl

end PowerUp

/-- The character box is columns 111 to 127 of rows 69 to 90 of the picture. -/
def BoxPixel (x y : ℕ) : Prop := 111 ≤ x ∧ x < 128 ∧ 69 ≤ y ∧ y < 91

instance (x y : ℕ) : Decidable (BoxPixel x y) := inferInstanceAs (Decidable (_ ∧ _))

theorem inBox_iff {i : PixelIn} {x y : ℕ} (hi : (i.DRAWX.toNat, i.DRAWY.toNat) = (560 + x, 80 + y))
    (hx : x < 240) (hy : y < 160) : i.InBox ↔ BoxPixel x y := by
  rw [Prod.mk.injEq] at hi
  have hX := i.DRAWX_next_toNat
  have hY := i.DRAWY_next_toNat
  simp only [PixelIn.InBox, BoxPixel, ge_iff_le, BitVec.le_def, BitVec.lt_def, BitVec.toNat_ofNat]
  omega

/-- The word of the sheet that the box shows at a pixel: the one of the cell, or in the
first column of the box the first one of the sheet. -/
def sheetWord (i : PixelIn) (x y : ℕ) : ℕ :=
  if x = 111 then 0
  else 271 * (y - 69 + (cell i).1) + (cell i).2 + (if facing i = 3#2 then 127 - x else x - 112)

/-- The nets of a pixel of the main game, and those of the pixel before it on the line. -/
structure Neighbours (before i : PixelIn) : Prop where
  stateNum : before.stateNum = 3#4
  drawx : i.DRAWX.toNat = before.DRAWX.toNat + 1
  drawy : i.DRAWY = before.DRAWY
  x : i.charxcurrpos = before.charxcurrpos
  y : i.charycurrpos = before.charycurrpos
  window : InWindow (before.DRAWX.toNat, before.DRAWY.toNat)

section Neighbours

variable {p : PowerUp} {before i : PixelIn}

theorem Neighbours.map (h : Neighbours before i) :
    mapX before = mapX i - 1 ∧ mapY before = mapY i := by
  unfold mapX mapY
  rw [h.drawx, h.drawy, h.x, h.y]
  omega

/-- Left of the first column of the map the address is that of the end of the row above,
or wraps. -/
theorem Neighbours.gymread (h : Neighbours before i) (hg : InGym i) :
    before.Gymread_address.toNat =
      if mapX i = 0 ∧ mapY i = 0 then 524287 else (464 * mapY i + mapX i - 1).toNat := by
  obtain ⟨hmapX, hmapY⟩ := h.map
  obtain ⟨hx0, hx, hy0, hy⟩ := hg
  by_cases hedge : mapX i = 0
  · obtain ⟨hwx, hwx', hwy, hwy'⟩ := h.window
    obtain ⟨row, hrow⟩ := Int.eq_ofNat_of_zero_le hy0
    have hX := before.DRAWX_next_toNat
    have hY := before.DRAWY_next_toNat
    have hcolumn : before.DRAWX_next.toNat + before.charxcurrpos.toNat = 110 := by
      unfold mapX at hmapX hedge
      simp only at hwx hwx'
      omega
    have hline : before.DRAWY_next.toNat + before.charycurrpos.toNat = row + 69 := by
      unfold mapY at hmapY hrow
      simp only at hwy hwy'
      omega
    have hmapx : before.mapx.toNat = 4294967295 := by
      rw [PixelIn.mapx, toNat_wide_sub 111 (by decide), hcolumn]
      rfl
    have hmapy : before.mapy.toNat = row := by
      rw [PixelIn.mapy, toNat_wide_sub 69 (by decide), if_pos (by omega), hline]
      omega
    rw [PixelIn.Gymread_address, if_pos h.stateNum, BitVec.toNat_setWidth, BitVec.toNat_add,
      BitVec.toNat_mul, hmapx, hmapy, hedge, hrow, BitVec.toNat_ofNat]
    split_ifs with hcorner <;> omega
  · have hgb : InGym before := by
      unfold InGym
      omega
    have haddr := gymread_toNat h.stateNum h.window hgb
    rw [if_neg fun hcorner => hedge hcorner.1]
    omega

theorem Neighbours.gymColour (h : Neighbours before i) (hg : InGym i) :
    p.gymColour before = p.lagged (mapX i) (mapY i) := by
  rw [PowerUp.gymColour_eq, h.gymread hg, PowerUp.lagged]
  split_ifs
  · exact dif_neg (by decide)
  · rfl

/-- In the box the pixel before is one column to the left in the cell. -/
theorem Neighbours.charread (h : Neighbours before i) {x y : ℕ}
    (hi : (i.DRAWX.toNat, i.DRAWY.toNat) = (560 + x, 80 + y)) (hbox : BoxPixel x y) :
    before.Charread_address.toNat = sheetWord before x y := by
  rw [Prod.mk.injEq, h.drawx, h.drawy] at hi
  obtain ⟨hx, hx', hy, hy'⟩ := hbox
  have hX : before.DRAWX_next.toNat = x - 1 := by
    rw [before.DRAWX_next_toNat]
    omega
  have hY : before.DRAWY_next.toNat = y := by
    rw [before.DRAWY_next_toNat]
    omega
  have hin : before.InBox ↔ x ≠ 111 := by
    simp only [PixelIn.InBox, ge_iff_le, BitVec.le_def, BitVec.lt_def, BitVec.toNat_ofNat, hX, hY]
    omega
  rw [sheetWord]
  split_ifs with hfirst hright
  · rw [PixelIn.Charread_address, if_neg fun hc => hin.mp hc.2 hfirst]
    rfl
  · have haddr := charread_toNat h.stateNum (hin.mpr hfirst)
    simp only [PixelIn.dx, PixelIn.dy, hX, hY, if_pos hright] at haddr
    omega
  · have haddr := charread_toNat h.stateNum (hin.mpr hfirst)
    simp only [PixelIn.dx, PixelIn.dy, hX, hY, if_neg hright] at haddr
    omega

/-- The composed pixel of the main game. -/
theorem Neighbours.composed (h : Neighbours before i) {x y : ℕ}
    (hi : (i.DRAWX.toNat, i.DRAWY.toNat) = (560 + x, 80 + y)) (hx : x < 240) (hy : y < 160) :
    p.composed before i =
      if BoxPixel x y ∧ p.sheetColour (sheetWord before x y) ≠ PixelIn.transparent then
        p.sheetColour (sheetWord before x y)
      else if InGym i then p.lagged (mapX i) (mapY i)
      else 0x000000#24 := by
  unfold PowerUp.composed
  by_cases hbox : BoxPixel x y
  · have hsheet : p.charColour before = p.sheetColour (sheetWord before x y) := by
      rw [PowerUp.charColour_eq, h.charread hi hbox]
    simp only [(inBox_iff hi hx hy).mpr hbox, hbox, hsheet, true_and]
    split_ifs with hchar hg
    · rfl
    · exact h.gymColour hg
    · rfl
  · simp only [mt (inBox_iff hi hx hy).mp hbox, hbox, false_and, if_false]
    split_ifs with hg
    · exact h.gymColour hg
    · rfl

end Neighbours

end Video
