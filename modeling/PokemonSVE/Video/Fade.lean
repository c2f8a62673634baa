-- SUMMARY: The fade: in the write window the display is blank, so that the first frame of a fade writes black everywhere; it darkens in place exactly a picture that is nearly black already.
import PokemonSVE.Video.Framebuffer

/-!
# The fade

The arithmetic of `state_num` 2 takes its word from `FBdata_Out` and its
comparisons from `R`, `G` and `B`. In the display window these are the channels of
that word. In the write window they are 0, whatever the memory puts out, and all
three channels are masked.
-/

namespace Video

open FrameDrawer (PixelIn InWindow)
open FramebufferRam (depth)

/-! ## Channels -/

/-- The channels of a pixel. -/
inductive Channel where
  | R
  | G
  | B
  deriving DecidableEq, Repr

def Channel.of (v : BitVec 24) : Channel → BitVec 8
  | .R => v.extractLsb' 16 8
  | .G => v.extractLsb' 8 8
  | .B => v.extractLsb' 0 8

/-- The pixel with the given channels. -/
def rgb (r g b : BitVec 8) : BitVec 24 := r ++ g ++ b

section Rgb

variable (r g b : BitVec 8) (v : BitVec 24)

theorem rgb_red : (rgb r g b).extractLsb' 16 8 = r :=
  calc (rgb r g b).extractLsb' 16 8
      = (r ++ g).extractLsb' 8 8 := BitVec.extractLsb'_append_eq_of_le (by decide)
    _ = r := BitVec.extractLsb'_append_eq_left

theorem rgb_green : (rgb r g b).extractLsb' 8 8 = g :=
  calc (rgb r g b).extractLsb' 8 8
      = (r ++ g).extractLsb' 0 8 := BitVec.extractLsb'_append_eq_of_le (by decide)
    _ = g := BitVec.extractLsb'_append_eq_right

theorem rgb_blue : (rgb r g b).extractLsb' 0 8 = b := BitVec.extractLsb'_append_eq_right

theorem extract_append :
    v.extractLsb' 8 16 ++ b = rgb (v.extractLsb' 16 8) (v.extractLsb' 8 8) b := by
  have hhigh : v.extractLsb' 16 8 ++ v.extractLsb' 8 8 = v.extractLsb' 8 16 :=
    BitVec.extractLsb'_append_extractLsb'_eq_extractLsb' rfl
  rw [rgb, hhigh]

theorem append_extract :
    r ++ v.extractLsb' 0 16 = rgb r (v.extractLsb' 8 8) (v.extractLsb' 0 8) := by
  have hlow : v.extractLsb' 8 8 ++ v.extractLsb' 0 8 = v.extractLsb' 0 16 :=
    BitVec.extractLsb'_append_extractLsb'_eq_extractLsb' rfl
  rw [rgb, BitVec.append_assoc, hlow]
  rfl

theorem rgb_of : rgb (Channel.R.of v) (Channel.G.of v) (Channel.B.of v) = v :=
  calc rgb (Channel.R.of v) (Channel.G.of v) (Channel.B.of v)
      = v.extractLsb' 8 16 ++ v.extractLsb' 0 8 := (extract_append _ v).symm
    _ = v := BitVec.extractLsb'_append_extractLsb'

theorem rgb_and (r' g' b' : BitVec 8) :
    rgb r g b &&& rgb r' g' b' = rgb (r &&& r') (g &&& g') (b &&& b') :=
  calc rgb r g b &&& rgb r' g' b'
      = (r ++ g &&& r' ++ g') ++ (b &&& b') := BitVec.and_append
    _ = rgb (r &&& r') (g &&& g') (b &&& b') := congrArg (· ++ (b &&& b')) BitVec.and_append

variable {r g b}

theorem rgb_eq_zero : rgb r g b = 0#24 ↔ r = 0#8 ∧ g = 0#8 ∧ b = 0#8 := by
  constructor
  · intro h
    have hr := rgb_red r g b
    have hg := rgb_green r g b
    have hb := rgb_blue r g b
    rw [h] at hr hg hb
    exact ⟨hr.symm, hg.symm, hb.symm⟩
  · rintro ⟨rfl, rfl, rfl⟩
    rfl

end Rgb

/-- What the fade should do to a channel. -/
def darker (c : BitVec 8) : BitVec 8 := if c < 5#8 then 0#8 else c - 1#8

/-- What the fade should do to a pixel. -/
def darkened (v : BitVec 24) : BitVec 24 :=
  rgb (darker (Channel.R.of v)) (darker (Channel.G.of v)) (darker (Channel.B.of v))

/-- A pixel with all channels below 5. -/
def Dark (v : BitVec 24) : Prop := ∀ c : Channel, c.of v < 5#8

theorem darker_eq_zero {c : BitVec 8} : darker c = 0#8 ↔ c < 5#8 := by
  unfold darker
  split_ifs with h
  · simp only [h]
  · simp only [h, iff_false]
    bv_omega

/-- The dark pixels are those that the fade should take to black. -/
theorem darkened_eq_zero {v : BitVec 24} : darkened v = 0#24 ↔ Dark v := by
  simp only [darkened, rgb_eq_zero, darker_eq_zero]
  constructor
  · rintro ⟨hr, hg, hb⟩ c
    cases c with
    | R => exact hr
    | G => exact hg
    | B => exact hb
  · exact fun h => ⟨h .R, h .G, h .B⟩

theorem dark_zero : Dark 0#24 := darkened_eq_zero.mp rfl

/-! ## The arithmetic -/

section Arithmetic

variable (r g b : BitVec 8) (p : Prop) [Decidable p]

theorem fade_red :
    (if p then rgb r g b &&& 0x00FFFF#24
      else ((rgb r g b).extractLsb' 16 8 - 1#8) ++ (rgb r g b).extractLsb' 0 16) =
      rgb (if p then 0#8 else r - 1#8) g b := by
  split_ifs
  · have hmask : 0x00FFFF#24 = rgb 0#8 (BitVec.allOnes 8) (BitVec.allOnes 8) := rfl
    rw [hmask, rgb_and, BitVec.and_zero, BitVec.and_allOnes, BitVec.and_allOnes]
  · rw [append_extract, rgb_red, rgb_green, rgb_blue]

theorem fade_green :
    (if p then rgb r g b &&& 0xFF00FF#24
      else (rgb r g b).extractLsb' 16 8 ++ ((rgb r g b).extractLsb' 8 8 - 1#8) ++
        (rgb r g b).extractLsb' 0 8) =
      rgb r (if p then 0#8 else g - 1#8) b := by
  split_ifs
  · have hmask : 0xFF00FF#24 = rgb (BitVec.allOnes 8) 0#8 (BitVec.allOnes 8) := rfl
    rw [hmask, rgb_and, BitVec.and_zero, BitVec.and_allOnes, BitVec.and_allOnes]
  · rw [rgb_red, rgb_green, rgb_blue, rgb]

theorem fade_blue :
    (if p then rgb r g b &&& 0xFFFF00#24
      else (rgb r g b).extractLsb' 8 16 ++ ((rgb r g b).extractLsb' 0 8 - 1#8)) =
      rgb r g (if p then 0#8 else b - 1#8) := by
  split_ifs
  · have hmask : 0xFFFF00#24 = rgb (BitVec.allOnes 8) (BitVec.allOnes 8) 0#8 := rfl
    rw [hmask, rgb_and, BitVec.and_zero, BitVec.and_allOnes, BitVec.and_allOnes]
  · rw [extract_append, rgb_red, rgb_green, rgb_blue]

end Arithmetic

/-- The comparisons look at `R`, `G` and `B`, the subtractions at the word. -/
theorem fade_eq (i : PixelIn) :
    i.fade = rgb (if i.R < 5#8 then 0#8 else Channel.R.of i.FBdata_Out - 1#8)
      (if i.G < 5#8 then 0#8 else Channel.G.of i.FBdata_Out - 1#8)
      (if i.B < 5#8 then 0#8 else Channel.B.of i.FBdata_Out - 1#8) := by
  unfold PixelIn.fade
  simp only
  conv_lhs => rw [← rgb_of i.FBdata_Out]
  rw [fade_red, fade_green, fade_blue]

/-- In the display window the arithmetic does what it should. -/
theorem fade_of_display {i : PixelIn} (h : i.InDisplay) : i.fade = darkened i.FBdata_Out := by
  rw [fade_eq]
  unfold PixelIn.R PixelIn.G PixelIn.B
  rw [if_pos h, if_pos h, if_pos h]
  rfl

/-- Outside it the word is lost. -/
theorem fade_of_blank {i : PixelIn} (h : ¬ i.InDisplay) : i.fade = 0#24 := by
  rw [fade_eq]
  unfold PixelIn.R PixelIn.G PixelIn.B
  have hlt : 0#8 < 5#8 := by decide
  rw [if_neg h, if_neg h, if_neg h, if_pos hlt, if_pos hlt, if_pos hlt]
  rfl

/-- The write window is outside it. -/
theorem not_inDisplay {i : PixelIn} (h : InWindow (i.DRAWX.toNat, i.DRAWY.toNat)) :
    ¬ i.InDisplay := by
  rintro ⟨-, hx, -, -⟩
  have hx' := h.1
  simp only at hx'
  bv_omega

/-! ## The frames of a fade -/

/-- Frame `f` is a frame of the fade: `state_num` is 2 while the scan is in the write
window. -/
def Fades (ins : ℕ → PixelIn) (f : ℕ) : Prop :=
  ∀ t, InFrame f t → InWindow (pixel t) → (ins t).stateNum = 2#4

section Frames

variable (ram : FramebufferRam.Regs) (powerUp : BitVec 24) (ins : ℕ → PixelIn)

/-- The frame buffer at the start of frame `f`. -/
def bufferAt (f : ℕ) : Fin depth → BitVec 24 := buffer ram powerUp ins (f * 840000)

/-- What `n` frames of the fade from `f` on should do: each word that is written is
the darkened word of its address, and from frame to frame a channel loses at most 4
and gains nothing. -/
structure FadesInPlace (f n : ℕ) : Prop where
  darkens : ∀ k < n, ∀ t, InFrame (f + k) t → ∀ a v, written ram powerUp ins t = some (a, v) →
    v = darkened (buffer ram powerUp ins t a)
  gentle : ∀ k < n, ∀ (a : Fin depth) (c : Channel),
    (c.of (bufferAt ram powerUp ins (f + k + 1) a)).toNat ≤
        (c.of (bufferAt ram powerUp ins (f + k) a)).toNat ∧
      (c.of (bufferAt ram powerUp ins (f + k) a)).toNat ≤
        (c.of (bufferAt ram powerUp ins (f + k + 1) a)).toNat + 4

variable {ram powerUp ins} {f n : ℕ}

/-- Every write of the fade is black. -/
theorem written_of_fades (hfade : Fades ins f) {t : ℕ} (ht : InFrame f t) {a : Fin depth}
    {v : BitVec 24} (h : written ram powerUp ins t = some (a, v)) : v = 0#24 := by
  obtain ⟨c, -, hc, hwin, -, rfl⟩ := exists_of_written ht h
  have hstate : (nets ram powerUp ins c).stateNum = 2#4 := hfade c hc hwin
  unfold PixelIn.next_pixel
  rw [if_pos hstate]
  exact fade_of_blank (not_inDisplay hwin)

/-- A frame of the fade writes black to every address. -/
theorem exists_written_of_fades (hfade : Fades ins f) (a : Fin depth) :
    ∃ t, InFrame f t ∧ written ram powerUp ins t = some (a, 0#24) := by
  have hon : ∀ t, InFrame f t → InWindow (pixel t) → (ins t).stateNum ≠ 0#4 := by
    intro t ht hwin
    rw [hfade t ht hwin]
    decide
  obtain ⟨t, v, ht, hw⟩ : ∃ t v, InFrame f t ∧ written ram powerUp ins t = some (a, v) :=
    exists_written hon a
  obtain rfl := written_of_fades hfade ht hw
  exact ⟨t, ht, hw⟩

/-- It leaves the whole buffer black. -/
theorem bufferAt_succ_of_fades (hfade : Fades ins f) (a : Fin depth) :
    bufferAt ram powerUp ins (f + 1) a = 0#24 := by
  obtain ⟨t, ht, hw⟩ : ∃ t, InFrame f t ∧ written ram powerUp ins t = some (a, 0#24) :=
    exists_written_of_fades hfade a
  unfold bufferAt
  rw [buffer_eq_contents]
  exact Memory.contents_of_written ht.1 ht.2 hw
    fun k hk hk' v hv => written_of_fades hfade ⟨hk, hk'⟩ hv

/-- A dark buffer stays dark through the fade. -/
theorem dark_of_fades (hfade : ∀ k < n, Fades ins (f + k))
    (hdark : ∀ a, Dark (bufferAt ram powerUp ins f a)) {t : ℕ} (ht : f * 840000 ≤ t)
    (ht' : t ≤ (f + n) * 840000) (a : Fin depth) : Dark (buffer ram powerUp ins t a) := by
  have hstart := hdark a
  unfold bufferAt at hstart
  rw [buffer_eq_contents] at hstart ⊢
  refine Memory.contents_invariant ht hstart fun i hi hit v hv => ?_
  -- Cycle `i` is in one of the frames.
  have hframe : InFrame (f + (i / 840000 - f)) i := by
    unfold InFrame
    omega
  rw [written_of_fades (hfade (i / 840000 - f) (by omega)) hframe hv]
  exact dark_zero

theorem fadesInPlace_of_dark (hfade : ∀ k < n, Fades ins (f + k))
    (hdark : ∀ a, Dark (bufferAt ram powerUp ins f a)) : FadesInPlace ram powerUp ins f n := by
  constructor
  · intro k hk t ht a v hv
    obtain ⟨hlo, hhi⟩ := id ht
    have hstart : f * 840000 ≤ t := Nat.le_trans (Nat.mul_le_mul_right _ (by omega)) hlo
    have hend : t ≤ (f + n) * 840000 := by omega
    have hword : Dark (buffer ram powerUp ins t a) := dark_of_fades hfade hdark hstart hend a
    rw [written_of_fades (hfade k hk) ht hv, darkened_eq_zero.mpr hword]
  · intro k hk a c
    have hword : Dark (bufferAt ram powerUp ins (f + k) a) :=
      dark_of_fades hfade hdark (by omega) (by omega) a
    have hc := hword c
    have hzero : c.of 0#24 = 0#8 := by cases c <;> rfl
    rw [bufferAt_succ_of_fades (hfade k hk) a, hzero]
    simp only [BitVec.lt_def, BitVec.toNat_ofNat] at hc ⊢
    omega

/-- The first write to a word finds it as the fade found it. -/
theorem dark_of_fadesInPlace (hn : 0 < n) (hfade : Fades ins f)
    (h : FadesInPlace ram powerUp ins f n) (a : Fin depth) :
    Dark (bufferAt ram powerUp ins f a) := by
  obtain ⟨t, ht, hw⟩ : ∃ t, InFrame f t ∧ written ram powerUp ins t = some (a, 0#24) :=
    exists_written_of_fades hfade a
  obtain ⟨j, u, hj, hjt, hfirst, hsame⟩ :=
    Memory.exists_first_write ram.mem (m := f * 840000) ht.1 hw
  have hin : InFrame f j := ⟨hj, Nat.lt_of_le_of_lt hjt ht.2⟩
  have hdark := h.darkens 0 hn j hin a u hfirst
  rw [written_of_fades hfade hin hfirst, buffer_eq_contents, hsame, ← buffer_eq_contents] at hdark
  exact darkened_eq_zero.mp hdark.symm

/-- A frame of the start screen leaves the buffer alone. -/
theorem bufferAt_succ_of_start
    (hstart : ∀ t, InFrame f t → InWindow (pixel t) → (ins t).stateNum = 0#4) (a : Fin depth) :
    bufferAt ram powerUp ins (f + 1) a = bufferAt ram powerUp ins f a := by
  unfold bufferAt
  rw [buffer_eq_contents, buffer_eq_contents]
  refine Memory.contents_of_not_written (Nat.mul_le_mul_right _ (Nat.le_succ f)) ?_
  intro t ht ht' v hv
  obtain ⟨c, -, hc, hwin, hstate, -⟩ := exists_of_written ⟨ht, ht'⟩ hv
  exact hstate (hstart c hc hwin)

end Frames

/-- Frames of the fade darken the picture in place, gently, exactly if they find every
channel of every pixel below 5. -/
theorem fadesInPlace_iff (ram : FramebufferRam.Regs) (powerUp : BitVec 24) (ins : ℕ → PixelIn)
    {f n : ℕ} (hn : 0 < n) (hfade : ∀ k < n, Fades ins (f + k)) :
    FadesInPlace ram powerUp ins f n ↔ ∀ a, Dark (bufferAt ram powerUp ins f a) :=
  ⟨fun h => dark_of_fadesInPlace hn (hfade 0 hn) h, fadesInPlace_of_dark hfade⟩

/-- The start screen for one frame, then the fade. -/
def startThenFade (t : ℕ) : PixelIn :=
  ⟨if t < 840000 then 0#4 else 2#4, 0#10, 0#10, 288#10, 315#10, false, false, 0#2, 0#2, false,
    0#2, 0#24, 0#24, 0#24⟩

/-- A frame buffer of one colour. -/
def plain (v : BitVec 24) : FramebufferRam.Regs := ⟨fun _ => v, 0#24⟩

theorem startThenFade_fades (k : ℕ) : Fades startThenFade (1 + k) := by
  intro t ht _
  have hlo : (1 + k) * 840000 ≤ t := ht.1
  have hlt : ¬ t < 840000 := by omega
  simp only [startThenFade, if_neg hlt]

theorem startThenFade_bufferAt (v : BitVec 24) (a : Fin depth) :
    bufferAt (plain v) 0#24 startThenFade 1 a = v := by
  refine bufferAt_succ_of_start (f := 0) (fun t ht _ => ?_) a
  have hlt : t < 840000 := by
    have := ht.2
    omega
  simp only [startThenFade, if_pos hlt]

/-- A picture with all channels at 4 is taken to black in one frame, as it should be. -/
theorem fadesInPlace_iff_four : FadesInPlace (plain 0x040404#24) 0#24 startThenFade 1 51 := by
  refine (fadesInPlace_iff _ _ _ (by decide) fun k _ => startThenFade_fades k).mpr fun a => ?_
  rw [startThenFade_bufferAt]
  intro c
  cases c <;> decide

/-- A picture in the colour of the first pixel of the start picture is not faded. -/
theorem not_fadesInPlace_start : ¬ FadesInPlace (plain 0x676e89#24) 0#24 startThenFade 1 51 := by
  intro h
  have hdark := dark_of_fadesInPlace (by decide) (startThenFade_fades 0) h 0 .R
  rw [startThenFade_bufferAt] at hdark
  exact absurd hdark (by decide)

end Video
