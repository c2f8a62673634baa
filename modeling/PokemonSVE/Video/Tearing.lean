-- SUMMARY: When a frame writes and reads the same word of the frame buffer: all rows but the first are read after they are written, and the first is written between its two reads.
import Mathlib.Data.Set.Defs
import PokemonSVE.Video.Addressing
import PokemonSVE.Video.Framebuffer

/-!
# Tearing

Both windows start on line 80 of the scan. The write window is one line of the scan
for each row of the buffer and the display window two, so that row `y` is written
on line `80 + y` and read on lines `80 + 2 y` and `81 + 2 y`. On a line the display
comes first.
-/

namespace Video

open FrameDrawer (PixelIn FBwrite_address InWindow FBwrite_address_toNat)
open FramebufferRam (depth)

section Instants

variable (ins : ℕ → PixelIn)

/-- In cycle `t` the write window addresses `a`. -/
def Addresses (t : ℕ) (a : Fin depth) : Prop :=
  (InWindow (pixel t) ∧ (ins t).stateNum ≠ 0#4) ∧
    (FBwrite_address (draw t).1 (draw t).2).toNat = a.val

/-- In cycle `t` the display window reads `a`. -/
def Reads (t : ℕ) (a : Fin depth) : Prop :=
  (scanned ins t).InDisplay ∧ (scanned ins t).FBread_address.toNat = a.val

/-- Frame `f` reads `a` only after it has written it. -/
def ReadsAfter (f : ℕ) (a : Fin depth) : Prop :=
  ∀ t t', InFrame f t → InFrame f t' → Addresses ins t a → Reads ins t' a → t < t'

/-- Frame `f` reads `a` only before it writes it. -/
def ReadsBefore (f : ℕ) (a : Fin depth) : Prop :=
  ∀ t t', InFrame f t → InFrame f t' → Addresses ins t a → Reads ins t' a → t' < t

/-- Frame `f` shows the words of `S` from one image: all from after its own writes, or
all from before them. -/
def Untorn (f : ℕ) (S : Set (Fin depth)) : Prop :=
  (∀ a ∈ S, ReadsAfter ins f a) ∨ ∀ a ∈ S, ReadsBefore ins f a

end Instants

/-- Half `b` of the pixel that shows word `x` of row `y`, in column `i` and line `j` of
the four pixels that do, in frame `f`. -/
def readCycle (f x y i j b : ℕ) : ℕ :=
  f * 840000 + 2 * (800 * (80 + 2 * y + j) + (80 + 2 * x + i)) + b

section Frame

variable {ins : ℕ → PixelIn} {f t : ℕ} {a : Fin depth}

theorem inDisplay_iff : (scanned ins t).InDisplay ↔
    79 < (pixel t).1 ∧ (pixel t).1 < 560 ∧ 79 < (pixel t).2 ∧ (pixel t).2 < 400 := Iff.rfl

/-- A cycle of frame `f` is half `b` of the pixel in some column and line. -/
theorem exists_pixel (ht : InFrame f t) : ∃ x y b, x < 800 ∧ y < 525 ∧ b < 2 ∧
    t = f * 840000 + 2 * (800 * y + x) + b ∧ pixel t = (x, y) := by
  unfold InFrame at ht
  have hhalf : t / 2 = f * 420000 + (t / 2 - f * 420000) := by omega
  refine ⟨_, _, t % 2, Nat.mod_lt _ (by decide), by omega, by omega, ?_,
    pixel_of_half hhalf (by omega)⟩
  omega

/-- A word is addressed for the two cycles of its own pixel. -/
theorem addresses_iff (hstate : ∀ t, InFrame f t → (ins t).stateNum = 3#4) (ht : InFrame f t) :
    Addresses ins t a ↔ ∃ b < 2, t = cycleOf f (a.val % 240) (a.val / 240) b := by
  have ha : a.val < 38400 := a.isLt
  have hon : (ins t).stateNum ≠ 0#4 := by
    rw [hstate t ht]
    decide
  have haddr : (FBwrite_address (draw t).1 (draw t).2).toNat =
      (240 * (pixel t).2 + (pixel t).1 + 504528) % 524288 := FBwrite_address_toNat _ _
  obtain ⟨x, y, b, hx, hy, hb, htime, hpixel⟩ := exists_pixel ht
  unfold Addresses InWindow cycleOf
  rw [haddr, hpixel]
  simp only
  constructor
  · rintro ⟨⟨⟨hx, hx', hy, hy'⟩, -⟩, hword⟩
    have hexact : (240 * y + x + 504528) % 524288 = 240 * (y - 80) + (x - 560) := by omega
    rw [hexact] at hword
    exact ⟨b, hb, by omega⟩
  · rintro ⟨c, hc, hcycle⟩
    exact ⟨⟨by omega, hon⟩, by omega⟩

/-- A word is read for the eight cycles of the two by two pixels that show it. -/
theorem reads_iff (ht : InFrame f t) :
    Reads ins t a ↔ ∃ i < 2, ∃ j < 2, ∃ b < 2,
      t = readCycle f (a.val % 240) (a.val / 240) i j b := by
  have ha : a.val < 38400 := a.isLt
  obtain ⟨x, y, b, hx, hy, hb, htime, hpixel⟩ := exists_pixel ht
  have haddr : (scanned ins t).InDisplay → (scanned ins t).FBread_address.toNat =
      240 * (((pixel t).2 - 80) / 2) + ((pixel t).1 - 80) / 2 := fbread_toNat
  unfold Reads readCycle
  constructor
  · rintro ⟨hin, hword⟩
    rw [haddr hin, hpixel] at hword
    rw [inDisplay_iff, hpixel] at hin
    obtain ⟨hx, hx', hy, hy'⟩ := hin
    simp only at hx hx' hy hy' hword
    exact ⟨x % 2, by omega, y % 2, by omega, b, hb, by omega⟩
  · rintro ⟨i, hi, j, hj, c, hc, hcycle⟩
    have hin : (scanned ins t).InDisplay := by
      rw [inDisplay_iff, hpixel]
      simp only
      omega
    refine ⟨hin, ?_⟩
    rw [haddr hin, hpixel]
    simp only
    omega

/-- A word is read on each of its two lines. -/
theorem reads_line (ins : ℕ → PixelIn) (f : ℕ) (a : Fin depth) {j : ℕ} (hj : j < 2) :
    InFrame f (readCycle f (a.val % 240) (a.val / 240) 0 j 0) ∧
      Reads ins (readCycle f (a.val % 240) (a.val / 240) 0 j 0) a := by
  have ha : a.val < 38400 := a.isLt
  have hin : InFrame f (readCycle f (a.val % 240) (a.val / 240) 0 j 0) := by
    unfold InFrame readCycle
    omega
  exact ⟨hin, (reads_iff hin).mpr ⟨0, by decide, j, hj, 0, by decide, rfl⟩⟩

variable (hstate : ∀ t, InFrame f t → (ins t).stateNum = 3#4)
include hstate

/-- Below the first row the line that is written is above the two that show it. -/
theorem readsAfter_of_le (ha : 240 ≤ a.val) : ReadsAfter ins f a := by
  intro t t' ht ht' hwrite hread
  obtain ⟨b, hb, rfl⟩ := (addresses_iff hstate ht).mp hwrite
  obtain ⟨i, hi, j, hj, c, hc, rfl⟩ := (reads_iff ht').mp hread
  unfold cycleOf readCycle
  omega

/-- The first row is read on line 80 before it is written there, and again on line
81. -/
theorem torn_of_lt (ha : a.val < 240) : ¬ ReadsAfter ins f a ∧ ¬ ReadsBefore ins f a := by
  have hx : a.val % 240 < 240 := Nat.mod_lt _ (by decide)
  have hy : a.val / 240 < 160 := by omega
  have hin := (inFrame_cycleOf (f := f) hx hy (b := 0) (by decide)).1
  have hwrite := (addresses_iff hstate hin).mpr ⟨0, by decide, rfl⟩
  obtain ⟨hin80, hread80⟩ := reads_line ins f a (j := 0) (by decide)
  obtain ⟨hin81, hread81⟩ := reads_line ins f a (j := 1) (by decide)
  constructor
  · intro h
    have hlt := h _ _ hin hin80 hwrite hread80
    unfold cycleOf readCycle at hlt
    omega
  · intro h
    have hlt := h _ _ hin hin81 hwrite hread81
    unfold cycleOf readCycle at hlt
    omega

end Frame

/-- In a frame of the main game a set of words is shown from one image exactly if none
of them is in the first row of the buffer. -/
theorem untorn_iff (ins : ℕ → PixelIn) (f : ℕ)
    (hstate : ∀ t, InFrame f t → (ins t).stateNum = 3#4) (S : Set (Fin depth)) :
    Untorn ins f S ↔ ∀ a ∈ S, 240 ≤ a.val := by
  constructor
  · intro h a ha
    by_contra hlt
    obtain ⟨hafter, hbefore⟩ := torn_of_lt hstate (Nat.lt_of_not_le hlt)
    rcases h with h | h
    · exact hafter (h a ha)
    · exact hbefore (h a ha)
  · exact fun h => .inl fun a ha => readsAfter_of_le hstate (h a ha)

/-- The main game with the character at rest. -/
def atRest (_ : ℕ) : PixelIn :=
  ⟨3#4, 0#10, 0#10, 288#10, 315#10, false, false, 0#2, 0#2, false, 0#2, 0#24, 0#24, 0#24⟩

/-- The second row is shown from one image. -/
theorem untorn_iff_second_row : Untorn atRest 0 {a | 240 ≤ a.val ∧ a.val < 480} :=
  (untorn_iff atRest 0 (fun _ _ => rfl) _).mpr fun _ ha => ha.1

/-- The buffer as a whole is not. -/
theorem not_untorn_univ : ¬ Untorn atRest 0 {a | a.val < 38400} := by
  intro h
  obtain ⟨hafter, hbefore⟩ : ¬ ReadsAfter atRest 0 0 ∧ ¬ ReadsBefore atRest 0 0 :=
    torn_of_lt (fun _ _ => rfl) (by decide)
  rcases h with h | h
  · exact hafter (h 0 (Fin.isLt 0))
  · exact hbefore (h 0 (Fin.isLt 0))

end Video
