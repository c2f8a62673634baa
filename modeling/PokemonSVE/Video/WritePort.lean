-- SUMMARY: The write port of the frame buffer over a frame: every address gets its pixel last, except those that the write after the end of a row hits.
import PokemonSVE.Rtl.FrameDrawer
import PokemonSVE.Rtl.VgaController

/-!
# The write port over a frame

`FBwe` and `FBdata_In` are one cycle of `Clk` late, `FBwrite_address` is not, and a
pixel lasts two cycles. So each pixel of the window is written twice: in its own
second cycle to its own address, and one cycle later to the address of the next
pixel of the scan, which overwrites the second write before that one's own pixel
comes. At the end of a row the next pixel is column 0 of the row below, and the
address that belongs to it, 320 below the row, is not overwritten any more.
-/

namespace Video

open FrameDrawer (Port PortIn FBwrite_address InWindow port_posedge FBwrite_address_toNat)

variable {Pixel : Type*}

/-- The nets of `frameDrawer` that are not driven by the scan, for one cycle. -/
structure Feed (Pixel : Type*) where
  stateNum : BitVec 4
  nextPixel : Pixel

/-- `(DRAWX, DRAWY)` in cycle `t` of `Clk`: `VGA_CLK` has half its rate. -/
def draw (t : ℕ) : BitVec 10 × BitVec 10 := (VgaController.run (t / 2)).draw

/-- The same as numbers. -/
def pixel (t : ℕ) : ℕ × ℕ := (VgaController.run (t / 2)).pixel

/-- What the port reads in cycle `t`. -/
def portIn (feed : ℕ → Feed Pixel) (t : ℕ) : PortIn Pixel where
  DRAWX := (draw t).1
  DRAWY := (draw t).2
  stateNum := (feed t).stateNum
  nextPixel := (feed t).nextPixel

/-- The registers of the port in cycle `t`. They power up with the write disabled
and with some pixel. -/
def port (powerUp : Pixel) (feed : ℕ → Feed Pixel) (t : ℕ) : Port Pixel :=
  Driven.run Port.posedge ⟨false, powerUp⟩ (portIn feed) t

/-- The edge that ends cycle `t` writes to address `a`. -/
def Writes (powerUp : Pixel) (feed : ℕ → Feed Pixel) (t : ℕ) (a : BitVec 19) : Prop :=
  (port powerUp feed t).FBwe = true ∧ FBwrite_address (draw t).1 (draw t).2 = a

/-- The cycles of frame `f`: two for each of the 800 by 525 pixels. -/
def InFrame (f t : ℕ) : Prop := f * 840000 ≤ t ∧ t < (f + 1) * 840000

/-- The edge that ends cycle `t` is the last one of frame `f` that writes to `a`. -/
structure LastWrite (powerUp : Pixel) (feed : ℕ → Feed Pixel) (f : ℕ) (a : BitVec 19) (t : ℕ) :
    Prop where
  inFrame : InFrame f t
  writes : Writes powerUp feed t a
  last : ∀ t', InFrame f t' → Writes powerUp feed t' a → t' ≤ t

/-- The pixel that an address of the frame buffer is for. -/
def target (a : ℕ) : ℕ × ℕ := (560 + a % 240, 80 + a / 240)

/-- What frame `f` should do with address `a`: an address of the buffer is written,
and the last write carries a pixel that was computed at its target; no other
address is written. -/
def Drawn (powerUp : Pixel) (feed : ℕ → Feed Pixel) (f : ℕ) (a : BitVec 19) : Prop :=
  if a.toNat < 38400 then
    ∃ c, LastWrite powerUp feed f a (c + 1) ∧
      (port powerUp feed (c + 1)).FBdata_In = (feed c).nextPixel ∧ pixel c = target a.toNat
  else ¬ ∃ t, InFrame f t ∧ Writes powerUp feed t a

/-- The addresses hit after the end of one of the 160 rows. -/
def Stray (a : BitVec 19) : Prop := ∃ r < 160, a.toNat = (240 * r + 523968) % 524288

instance (a : BitVec 19) : Decidable (Stray a) :=
  inferInstanceAs (Decidable (∃ r, r < 160 ∧ _))

/-! ## The port cycle by cycle -/

theorem pixel_eq (t : ℕ) : pixel t = (t / 2 % 800, t / 2 / 800 % 525) :=
  VgaController.run_pixel (t / 2)

section Frame

variable {powerUp : Pixel} {feed : ℕ → Feed Pixel} {f : ℕ}

theorem port_succ (c : ℕ) :
    port powerUp feed (c + 1) = (port powerUp feed c).posedge (portIn feed c) := rfl

/-- A write in cycle `c + 1` means that cycle `c` shows a pixel of the window, and
it carries that pixel. -/
theorem writes_succ (c : ℕ) (a : BitVec 19) :
    (Writes powerUp feed (c + 1) a ↔ (InWindow (pixel c) ∧ (feed c).stateNum ≠ 0#4) ∧
        (240 * (pixel (c + 1)).2 + (pixel (c + 1)).1 + 504528) % 524288 = a.toNat) ∧
      (Writes powerUp feed (c + 1) a →
        (port powerUp feed (c + 1)).FBdata_In = (feed c).nextPixel) := by
  obtain ⟨hwe, hdata⟩ := port_posedge (port powerUp feed c) (portIn feed c)
  have haddr := FBwrite_address_toNat (draw (c + 1)).1 (draw (c + 1)).2
  refine ⟨?_, fun hw => hdata hw.1⟩
  unfold Writes
  rw [port_succ, hwe, ← BitVec.toNat_inj, haddr]
  exact Iff.rfl

theorem not_writes_zero (a : BitVec 19) : ¬ Writes powerUp feed 0 a := fun h => by cases h.1

/-! ## The writes of a frame -/

/-- Half `b` of the pixel in column `x` and row `y` of the window, in frame `f`. -/
def cycleOf (f x y b : ℕ) : ℕ := f * 840000 + 2 * (800 * (80 + y) + (560 + x)) + b

/-- The address on the bus one cycle later. -/
def addressAfter (x y b : ℕ) : ℕ :=
  if b = 0 then 240 * y + x
  else if x < 239 then 240 * y + x + 1
  else (240 * y + 523968) % 524288

/-- Where the scan is `q` pixels into frame `f`. -/
theorem pixel_of_half {t q : ℕ} (ht : t / 2 = f * 420000 + q) (hq : q < 420000) :
    pixel t = (q % 800, q / 800) := by
  have hcol : (f * 420000 + q) % 800 = q % 800 := by omega
  have hrow : (f * 420000 + q) / 800 = 525 * f + q / 800 := by omega
  have hframe : (525 * f + q / 800) % 525 = q / 800 := by omega
  rw [pixel_eq, ht, hcol, hrow, hframe]

theorem pixel_cycleOf {x y b : ℕ} (hx : x < 240) (hy : y < 160) (hb : b < 2) :
    pixel (cycleOf f x y b) = (560 + x, 80 + y) := by
  have ht : cycleOf f x y b / 2 = f * 420000 + (800 * (80 + y) + (560 + x)) := by
    unfold cycleOf
    omega
  rw [pixel_of_half ht (by omega), Prod.mk.injEq]
  omega

theorem addressAfter_eq {x y b : ℕ} (hx : x < 240) (hy : y < 160) (hb : b < 2) :
    (240 * (pixel (cycleOf f x y b + 1)).2 + (pixel (cycleOf f x y b + 1)).1 + 504528) % 524288 =
      addressAfter x y b := by
  unfold addressAfter
  split_ifs with h0 hlast
  · have ht : (cycleOf f x y b + 1) / 2 = f * 420000 + (800 * (80 + y) + (560 + x)) := by
      unfold cycleOf
      omega
    rw [pixel_of_half ht (by omega)]
    omega
  · have ht : (cycleOf f x y b + 1) / 2 = f * 420000 + (800 * (80 + y) + (561 + x)) := by
      unfold cycleOf
      omega
    rw [pixel_of_half ht (by omega)]
    omega
  · -- After the last column comes column 0 of the next row.
    have ht : (cycleOf f x y b + 1) / 2 = f * 420000 + 800 * (81 + y) := by
      unfold cycleOf
      omega
    rw [pixel_of_half ht (by omega)]
    omega

/-- A cycle of frame `f` that shows a pixel of the window. -/
theorem exists_cycleOf {c : ℕ} (hc : InFrame f (c + 1)) (hwin : InWindow (pixel c)) :
    ∃ x y b, x < 240 ∧ y < 160 ∧ b < 2 ∧ c = cycleOf f x y b := by
  simp only [pixel_eq, InWindow] at hwin
  unfold InFrame at hc
  refine ⟨c / 2 % 800 - 560, c / 2 / 800 % 525 - 80, c % 2, by omega, by omega, by omega, ?_⟩
  unfold cycleOf
  omega

theorem inFrame_cycleOf {x y b : ℕ} (hx : x < 240) (hy : y < 160) (hb : b < 2) :
    InFrame f (cycleOf f x y b) ∧ InFrame f (cycleOf f x y b + 1) := by
  unfold InFrame cycleOf
  omega

variable (hstate : ∀ t, InFrame f t → InWindow (pixel t) → (feed t).stateNum ≠ 0#4)
include hstate

/-- The writes of a frame are those of the two halves of the pixels of the window. -/
theorem writes_cycleOf {x y b : ℕ} (hx : x < 240) (hy : y < 160) (hb : b < 2) {a : BitVec 19}
    (ha : a.toNat = addressAfter x y b) : Writes powerUp feed (cycleOf f x y b + 1) a := by
  have hwin : InWindow (pixel (cycleOf f x y b)) := by
    rw [pixel_cycleOf hx hy hb]
    unfold InWindow
    omega
  refine (writes_succ _ _).1.mpr ⟨⟨hwin, hstate _ (inFrame_cycleOf hx hy hb).1 hwin⟩, ?_⟩
  rw [addressAfter_eq hx hy hb, ha]

omit hstate in
theorem exists_of_writes {t : ℕ} (ht : InFrame f t) {a : BitVec 19}
    (h : Writes powerUp feed t a) : ∃ x y b, x < 240 ∧ y < 160 ∧ b < 2 ∧
      t = cycleOf f x y b + 1 ∧ a.toNat = addressAfter x y b := by
  cases t with
  | zero => exact absurd h (not_writes_zero a)
  | succ c =>
    obtain ⟨⟨hwin, -⟩, ha⟩ := (writes_succ c a).1.mp h
    obtain ⟨x, y, b, hx, hy, hb, rfl⟩ := exists_cycleOf ht hwin
    rw [addressAfter_eq hx hy hb] at ha
    exact ⟨x, y, b, hx, hy, hb, rfl, ha.symm⟩

/-- An address of the buffer that no stray write hits is last written in the second
cycle of its target. -/
theorem drawn_of_not_stray {a : BitVec 19} (hstray : ¬ Stray a) : Drawn powerUp feed f a := by
  unfold Drawn
  split_ifs with hlt
  · have hx : a.toNat % 240 < 240 := Nat.mod_lt _ (by decide)
    have hy : a.toNat / 240 < 160 := by omega
    have ha : a.toNat = addressAfter (a.toNat % 240) (a.toNat / 240) 0 := by
      unfold addressAfter
      rw [if_pos rfl]
      omega
    have hw : Writes powerUp feed (cycleOf f (a.toNat % 240) (a.toNat / 240) 0 + 1) a :=
      writes_cycleOf hstate hx hy (by decide) ha
    refine ⟨_, ⟨(inFrame_cycleOf hx hy (by decide)).2, hw, ?_⟩, (writes_succ _ _).2 hw,
      pixel_cycleOf hx hy (by decide)⟩
    -- Any other write to `a` is the first one, from the pixel to the left.
    intro t ht hwt
    obtain ⟨x, y, b, hx', hy', hb', rfl, ha'⟩ := exists_of_writes ht hwt
    unfold addressAfter at ha'
    unfold cycleOf
    split_ifs at ha' with h0 hlast
    · omega
    · omega
    · exact absurd ⟨y, hy', ha'⟩ hstray
  · rintro ⟨t, ht, hwt⟩
    obtain ⟨x, y, b, hx, hy, hb, rfl, ha⟩ := exists_of_writes ht hwt
    unfold addressAfter at ha
    split_ifs at ha with h0 hlast
    · omega
    · omega
    · exact hstray ⟨y, hy, ha⟩

/-- A stray write comes after the write from the target, or hits an address outside
the buffer. -/
theorem not_drawn_of_stray {a : BitVec 19} (hstray : Stray a) : ¬ Drawn powerUp feed f a := by
  obtain ⟨r, hr, ha⟩ := hstray
  have hafter : addressAfter 239 r 1 = (240 * r + 523968) % 524288 := by simp [addressAfter]
  have hw : Writes powerUp feed (cycleOf f 239 r 1 + 1) a :=
    writes_cycleOf hstate (by decide) hr (by decide) (ha.trans hafter.symm)
  have hin := (inFrame_cycleOf (f := f) (x := 239) (y := r) (b := 1) (by decide) hr (by decide)).2
  unfold Drawn
  split_ifs with hlt
  · rintro ⟨c, hlast, -, hpixel⟩
    have hle := hlast.last _ hin hw
    obtain ⟨x, y, b, hx, hy, hb, hc, -⟩ := exists_of_writes hlast.inFrame hlast.writes
    obtain rfl : c = cycleOf f x y b := by omega
    rw [pixel_cycleOf hx hy hb, target, Prod.mk.injEq] at hpixel
    -- The stray address is in the row two above the one that has ended.
    have hrow : a.toNat + 320 = 240 * r := by omega
    unfold cycleOf at hle
    omega
  · exact fun hnone => hnone ⟨_, hin, hw⟩

end Frame

/-- In a frame of the main game the port does with an address what it should exactly
if the address is not hit after the end of a row. -/
theorem drawn_iff (powerUp : Pixel) (feed : ℕ → Feed Pixel) (f : ℕ)
    (hstate : ∀ t, InFrame f t → (feed t).stateNum = 3#4) (a : BitVec 19) :
    Drawn powerUp feed f a ↔ ¬ Stray a := by
  have hon : ∀ t, InFrame f t → InWindow (pixel t) → (feed t).stateNum ≠ 0#4 := by
    intro t ht _
    rw [hstate t ht]
    decide
  exact ⟨fun h hstray => not_drawn_of_stray hon hstray h, drawn_of_not_stray hon⟩

/-- The main game throughout, with a numbered pixel in each cycle. -/
def mainGame (t : ℕ) : Feed ℕ := ⟨3#4, t⟩

/-- The top left pixel of the first frame is drawn. -/
theorem drawn_iff_first : Drawn 0 mainGame 0 0#19 :=
  (drawn_iff 0 mainGame 0 (fun _ _ => rfl) 0#19).mpr (by decide +kernel)

/-- The pixel in column 160 of its first row is not. -/
theorem not_drawn_column160 : ¬ Drawn 0 mainGame 0 160#19 :=
  not_drawn_of_stray (fun _ _ _ => by simp [mainGame]) ⟨2, by decide, by decide⟩

end Video
