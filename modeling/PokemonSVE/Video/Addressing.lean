-- SUMMARY: The read addresses of the three memories of `frameDrawer` are in range and exact, for every position of the character.
import PokemonSVE.Rtl.PixelLogic
import PokemonSVE.Rtl.SpriteRam

/-!
# Addressing

The read addresses at the widths of the source agree with integer arithmetic where
they are used. A position left of or above the map gives a difference near 2 ^ 32,
which the range test rejects.
-/

namespace Video

open FrameDrawer (InWindow PixelIn)

/-! ## The map -/

/-- The pixel of the map under the scan, as integers. -/
def mapX (i : PixelIn) : ℤ := i.DRAWX.toNat - 560 + i.charxcurrpos.toNat - 111
def mapY (i : PixelIn) : ℤ := i.DRAWY.toNat - 80 + i.charycurrpos.toNat - 69

/-- The pixel is one of the 464 by 388 of the gym image. -/
def InGym (i : PixelIn) : Prop := 0 ≤ mapX i ∧ mapX i < 464 ∧ 0 ≤ mapY i ∧ mapY i < 388

instance (i : PixelIn) : Decidable (InGym i) := inferInstanceAs (Decidable (_ ∧ _))

/-- The pixel is taken from the character memory. -/
def DrawsChar (i : PixelIn) : Prop :=
  i.stateNum = 3#4 ∧ i.InBox ∧ i.Chardata_Out ≠ PixelIn.transparent

instance (i : PixelIn) : Decidable (DrawsChar i) := inferInstanceAs (Decidable (_ ∧ _))

/-- A coordinate at full width: below zero it wraps to the top of the 32 bits. -/
theorem toNat_wide_sub {v w : BitVec 10} (n : ℕ) (hn : n < 1024) :
    (PixelIn.wide v + PixelIn.wide w - BitVec.ofNat 32 n).toNat =
      if n ≤ v.toNat + w.toNat then v.toNat + w.toNat - n
      else v.toNat + w.toNat + 4294967296 - n := by
  have hv := v.isLt
  have hw := w.isLt
  simp only [BitVec.toNat_sub, BitVec.toNat_add, BitVec.toNat_setWidth, BitVec.toNat_ofNat]
  split_ifs <;> omega

/-- In the window the range test is the one on integers. -/
theorem onMap_iff {i : PixelIn} (hw : InWindow (i.DRAWX.toNat, i.DRAWY.toNat)) :
    i.OnMap ↔ InGym i := by
  obtain ⟨hx, hx', hy, hy'⟩ := hw
  have hX := i.DRAWX_next_toNat
  have hY := i.DRAWY_next_toNat
  have hmx := toNat_wide_sub (v := i.DRAWX_next) (w := i.charxcurrpos) 111 (by decide)
  have hmy := toNat_wide_sub (v := i.DRAWY_next) (w := i.charycurrpos) 69 (by decide)
  simp only [PixelIn.OnMap, InGym, mapX, mapY, PixelIn.mapx, PixelIn.mapy, ge_iff_le,
    BitVec.le_def, BitVec.lt_def, hmx, hmy]
  simp only [BitVec.toNat_ofNat] at hx hx' hy hy' ⊢
  split_ifs <;> omega

/-- Where the map is drawn the address is the one of its pixel. -/
theorem gymread_toNat {i : PixelIn} (h3 : i.stateNum = 3#4)
    (hw : InWindow (i.DRAWX.toNat, i.DRAWY.toNat)) (hg : InGym i) :
    (i.Gymread_address.toNat : ℤ) = 464 * mapY i + mapX i := by
  have hmap := (onMap_iff hw).mpr hg
  obtain ⟨hx, hx', hy, hy'⟩ := hw
  have hX := i.DRAWX_next_toNat
  have hY := i.DRAWY_next_toNat
  have hmx := toNat_wide_sub (v := i.DRAWX_next) (w := i.charxcurrpos) 111 (by decide)
  have hmy := toNat_wide_sub (v := i.DRAWY_next) (w := i.charycurrpos) 69 (by decide)
  unfold InGym mapX mapY at hg
  unfold mapX mapY PixelIn.Gymread_address PixelIn.mapx PixelIn.mapy
  rw [if_pos (by omega)] at hmx hmy
  rw [if_pos h3, BitVec.toNat_setWidth, BitVec.toNat_add, BitVec.toNat_mul, hmx, hmy,
    BitVec.toNat_ofNat]
  simp only at hx hx' hy hy'
  omega

/-- The pixel logic of the main game, over the map as numbers. -/
theorem next_pixel_eq {i : PixelIn} (h3 : i.stateNum = 3#4)
    (hw : InWindow (i.DRAWX.toNat, i.DRAWY.toNat)) :
    i.next_pixel = if DrawsChar i then i.Chardata_Out
      else if InGym i then i.Gymdata_Out else 0x000000#24 := by
  have h2 : i.stateNum ≠ 2#4 := by
    rw [h3]
    decide
  unfold PixelIn.next_pixel DrawsChar
  rw [if_neg h2, if_pos h3]
  simp only [h3, true_and, onMap_iff hw]

/-! ## The character and the display -/

/-- Every address of the character box is below row 64 of the sheet. -/
theorem charread_lt (i : PixelIn) : i.Charread_address.toNat < CharacterRam.depth := by
  have hf := i.charMoveFrame.isLt
  have hr := Bool.toNat_le i.charIsRunning
  unfold PixelIn.Charread_address CharacterRam.depth
  split_ifs with hbox
  · have hdx := hbox.2.bounds
    rw [PixelIn.standing_toNat hbox.2]
    split_ifs <;> omega
  · have hdx := hbox.2.bounds
    rw [PixelIn.standing_toNat hbox.2]
    split_ifs <;> omega
  · have hdx := hbox.2.bounds
    rw [PixelIn.walking_toNat hbox.2]
    split_ifs <;> omega
  · decide

theorem toNat_wide_sub_margin {v : BitVec 10} (h : 79 < v.toNat) :
    (PixelIn.wide v - 80#32).toNat = v.toNat - 80 := by
  have hv := v.isLt
  simp only [BitVec.toNat_sub, BitVec.toNat_setWidth, BitVec.toNat_ofNat]
  omega

theorem fbread_toNat {i : PixelIn} (h : i.InDisplay) :
    i.FBread_address.toNat =
      240 * ((i.DRAWY.toNat - 80) / 2) + (i.DRAWX.toNat - 80) / 2 := by
  obtain ⟨hx, hx', hy, hy'⟩ := id h
  simp only [gt_iff_lt, BitVec.lt_def, BitVec.toNat_ofNat] at hx hx' hy hy'
  unfold PixelIn.FBread_address
  rw [if_pos h]
  simp only [BitVec.toNat_setWidth, BitVec.toNat_add, BitVec.toNat_mul, BitVec.toNat_udiv,
    toNat_wide_sub_margin hx, toNat_wide_sub_margin hy, BitVec.toNat_ofNat, Nat.reducePow,
    Nat.reduceMod]
  omega

/-- For every position of the character, on the map or off it: the map is drawn
exactly on its own pixels and black elsewhere, and each of the three addresses is
the one of its pixel and within its memory. -/
theorem addressing (i : PixelIn) :
    (i.stateNum = 3#4 ∧ InWindow (i.DRAWX.toNat, i.DRAWY.toNat) →
      (i.OnMap ↔ InGym i) ∧
      i.next_pixel = (if DrawsChar i then i.Chardata_Out
        else if InGym i then i.Gymdata_Out else 0x000000#24) ∧
      (InGym i → (i.Gymread_address.toNat : ℤ) = 464 * mapY i + mapX i ∧
        i.Gymread_address.toNat < GymMapRam.depth)) ∧
    i.Charread_address.toNat < CharacterRam.depth ∧
    (i.InDisplay →
      i.FBread_address.toNat = 240 * ((i.DRAWY.toNat - 80) / 2) + (i.DRAWX.toNat - 80) / 2 ∧
      i.FBread_address.toNat < FramebufferRam.depth) := by
  refine ⟨fun ⟨h3, hw⟩ => ⟨onMap_iff hw, next_pixel_eq h3 hw, fun hg => ?_⟩, charread_lt i,
    fun h => ?_⟩
  · have haddr := gymread_toNat h3 hw hg
    obtain ⟨hx, hx', hy, hy'⟩ := hg
    refine ⟨haddr, ?_⟩
    unfold GymMapRam.depth
    omega
  · have haddr := fbread_toNat h
    obtain ⟨hx, hx', hy, hy'⟩ := h
    refine ⟨haddr, ?_⟩
    simp only [gt_iff_lt, BitVec.lt_def, BitVec.toNat_ofNat] at hx hx' hy hy'
    unfold FramebufferRam.depth
    omega

/-- At the start position the top left pixel of the window is pixel (177, 246) of
the map. -/
theorem addressing_start :
    ∃ i : PixelIn, i.stateNum = 3#4 ∧ InWindow (i.DRAWX.toNat, i.DRAWY.toNat) ∧ InGym i ∧
      i.Gymread_address.toNat = 464 * 246 + 177 := by
  let i : PixelIn := ⟨3#4, 560#10, 80#10, 288#10, 315#10, false, false, 0#2, 0#2, false, 0#2,
    0#24, 0#24, 0#24⟩
  have hw : i.stateNum = 3#4 ∧ InWindow (i.DRAWX.toNat, i.DRAWY.toNat) := by decide
  have hg : InGym i := by decide
  have haddr := (((addressing i).1 hw).2.2 hg).1
  have hx : mapX i = 177 := by decide
  have hy : mapY i = 246 := by decide
  rw [hx, hy] at haddr
  exact ⟨i, hw.1, hw.2, hg, by omega⟩

end Video
