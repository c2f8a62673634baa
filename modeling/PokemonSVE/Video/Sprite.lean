-- SUMMARY: The cell of the sprite sheet that the character is drawn from: the character box is one column and one row larger than the cell.
import PokemonSVE.Video.Addressing

/-!
# The sprite cell

The sheet is 271 pixels wide, and a pose is a cell of 16 by 21 pixels. The right
facing poses are the left facing ones read backwards.
-/

namespace Video

open FrameDrawer (PixelIn)

/-- The facing of the character: on a tile it spins. -/
def facing (i : PixelIn) : BitVec 2 := if i.atTile then i.spinDirection else i.direction

/-- The same pixel of the screen row for another facing and column. -/
def facingAt (i : PixelIn) (d : BitVec 2) (DRAWX : BitVec 10) : PixelIn :=
  if i.atTile then { i with spinDirection := d, DRAWX := DRAWX }
  else { i with direction := d, DRAWX := DRAWX }

/-- The top left corner of the cell of the pose: row and column of the sheet. -/
def cell (i : PixelIn) : ℕ × ℕ :=
  (21 * (if facing i = 3#2 then 2 else (facing i).toNat),
    if i.atTile ∨ i.charIsMoving = false then 16
    else 16 * i.charMoveFrame.toNat + 48 * i.charIsRunning.toNat)

/-- The pixel that is fetched lies in the cell of the pose. -/
def InCell (i : PixelIn) : Prop :=
  ((cell i).1 ≤ i.Charread_address.toNat / 271 ∧
      i.Charread_address.toNat / 271 ≤ (cell i).1 + 20) ∧
    ((cell i).2 ≤ i.Charread_address.toNat % 271 ∧
      i.Charread_address.toNat % 271 ≤ (cell i).2 + 15)

instance (i : PixelIn) : Decidable (InCell i) := inferInstanceAs (Decidable (_ ∧ _))

/-- Facing `d`, the pixel is the one at the mirrored column of the image that
faces `d'`. -/
def Mirrored (d d' : BitVec 2) (i : PixelIn) : Prop :=
  facing i = d → ∃ DRAWX, (facingAt i d' DRAWX).InBox ∧ (facingAt i d' DRAWX).dx + i.dx = 15 ∧
    (facingAt i d' DRAWX).Charread_address = i.Charread_address

/-- What should hold of a pixel of the character. -/
def CurrentSprite (i : PixelIn) : Prop :=
  InCell i ∧ Mirrored 3#2 2#2 i ∧ Mirrored 2#2 3#2 i

/-! ## The address in the box -/

/-- The number of the sheet's pixel: row and column in the cell, from the left or,
facing right, from the right. -/
theorem charread_toNat {i : PixelIn} (h3 : i.stateNum = 3#4) (hbox : i.InBox) :
    i.Charread_address.toNat + (if facing i = 3#2 then i.dx else 0) =
      (i.dy + (cell i).1) * 271 + (cell i).2 + (if facing i = 3#2 then 15 else i.dx) := by
  have hdx := hbox.bounds
  unfold PixelIn.Charread_address cell facing
  rw [if_pos ⟨h3, hbox⟩]
  cases htile : i.atTile <;> cases hmove : i.charIsMoving
  all_goals
    simp only [if_true, if_false, Bool.false_eq_true, Bool.not_true, Bool.not_false, true_or,
      or_true, or_self, reduceCtorEq, PixelIn.standing_toNat hbox, PixelIn.walking_toNat hbox]
    split_ifs <;> omega

theorem inCell_iff {i : PixelIn} (h3 : i.stateNum = 3#4) (hbox : i.InBox) :
    InCell i ↔ i.dx ≤ 15 ∧ i.dy ≤ 20 := by
  have hdx := hbox.bounds
  have haddr := charread_toNat h3 hbox
  have hcol : (cell i).2 ≤ 96 := by
    have hf := i.charMoveFrame.isLt
    have hr := Bool.toNat_le i.charIsRunning
    unfold cell
    split_ifs <;> omega
  unfold InCell
  split_ifs at haddr <;> omega

/-! ## The mirror image -/

@[simp] theorem facing_facingAt (i : PixelIn) (d : BitVec 2) (DRAWX : BitVec 10) :
    facing (facingAt i d DRAWX) = d := by
  cases htile : i.atTile <;> simp [facing, facingAt, htile]

/-- Only the column and the facing are changed. -/
theorem facingAt_frame (i : PixelIn) (d : BitVec 2) (DRAWX : BitVec 10) :
    (facingAt i d DRAWX).stateNum = i.stateNum ∧ (facingAt i d DRAWX).DRAWX = DRAWX ∧
      (facingAt i d DRAWX).DRAWY_next = i.DRAWY_next ∧
      (cell (facingAt i d DRAWX)).2 = (cell i).2 := by
  cases htile : i.atTile <;> simp [facingAt, htile, PixelIn.DRAWY_next, cell]

/-- The left and the right facing images are mirror images where both are 16 wide. -/
theorem mirrored_of_le {i : PixelIn} (h3 : i.stateNum = 3#4) (hbox : i.InBox) (hdx : i.dx ≤ 15)
    {d d' : BitVec 2} (hd : d = 3#2 ∧ d' = 2#2 ∨ d = 2#2 ∧ d' = 3#2) : Mirrored d d' i := by
  intro hfacing
  obtain ⟨hx, hy, -, -⟩ := hbox.bounds
  refine ⟨BitVec.ofNat 10 (686 - i.dx), ?_⟩
  obtain ⟨hnum, hDRAWX, hrow, hcol⟩ := facingAt_frame i d' (BitVec.ofNat 10 (686 - i.dx))
  have hfacing' := facing_facingAt i d' (BitVec.ofNat 10 (686 - i.dx))
  generalize facingAt i d' (BitVec.ofNat 10 (686 - i.dx)) = j at *
  have hjx : j.DRAWX_next.toNat = 126 - i.dx := by
    rw [j.DRAWX_next_toNat, hDRAWX, BitVec.toNat_ofNat]
    omega
  have hjbox : j.InBox := by
    obtain ⟨hbx, hbx', hby, hby'⟩ := hbox
    refine ⟨?_, ?_, hrow ▸ hby, hrow ▸ hby'⟩ <;> bv_omega
  have hjdx : j.dx = 15 - i.dx := by
    unfold PixelIn.dx at *
    omega
  have hjdy : j.dy = i.dy := by simp only [PixelIn.dy, hrow]
  have hrows : (cell j).1 = (cell i).1 := by
    rcases hd with ⟨rfl, rfl⟩ | ⟨rfl, rfl⟩ <;> simp [cell, hfacing, hfacing']
  refine ⟨hjbox, by omega, BitVec.eq_of_toNat_eq ?_⟩
  have haddr := charread_toNat h3 hbox
  have haddr' := charread_toNat (hnum.trans h3) hjbox
  rw [hfacing] at haddr
  rw [hfacing', hjdx, hjdy, hrows, hcol] at haddr'
  rcases hd with ⟨rfl, rfl⟩ | ⟨rfl, rfl⟩ <;> simp at haddr haddr' <;> omega

/-- A pixel of the character is one of the current sprite exactly within 16 columns
and 21 rows. -/
theorem currentSprite_iff (i : PixelIn) (h : DrawsChar i) :
    CurrentSprite i ↔ i.dx ≤ 15 ∧ i.dy ≤ 20 := by
  obtain ⟨h3, hbox, -⟩ := h
  constructor
  · exact fun hcur => (inCell_iff h3 hbox).mp hcur.1
  · intro hle
    exact ⟨(inCell_iff h3 hbox).mpr hle, mirrored_of_le h3 hbox hle.1 (.inl ⟨rfl, rfl⟩),
      mirrored_of_le h3 hbox hle.1 (.inr ⟨rfl, rfl⟩)⟩

/-- The character stands and faces left, as the scan shows the pixel in column
`DRAWX` of row 156. In columns 671 and 687 the sheet is black. -/
def standsLeft (DRAWX : BitVec 10) : PixelIn where
  stateNum := 3#4
  DRAWX := DRAWX
  DRAWY := 156#10
  charxcurrpos := 288#10
  charycurrpos := 315#10
  charIsMoving := false
  charIsRunning := false
  direction := 2#2
  charMoveFrame := 0#2
  atTile := false
  spinDirection := 0#2
  FBdata_Out := 0x000000#24
  Gymdata_Out := 0xFFFFFF#24
  Chardata_Out := 0x000000#24

theorem currentSprite_iff_column671 : DrawsChar (standsLeft 671#10) ∧
    CurrentSprite (standsLeft 671#10) :=
  ⟨by decide, (currentSprite_iff (standsLeft 671#10) (by decide)).mpr (by decide)⟩

/-- The pixel in column 16 of the box is drawn from the cell to the right. -/
theorem not_currentSprite_column687 :
    ¬ ∀ i, DrawsChar i → CurrentSprite i := by
  intro h
  have hcell : ¬ InCell (standsLeft 687#10) := by decide
  exact hcell (h (standsLeft 687#10) (by decide)).1

end Video
