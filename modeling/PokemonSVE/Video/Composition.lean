-- SUMMARY: `frameDrawer` with all three memories: what every word of the frame buffer holds after a frame of the main game, for any contents and any inputs.
import PokemonSVE.Rtl.SpriteRam
import PokemonSVE.Video.Addressing
import PokemonSVE.Video.Framebuffer

/-!
# The composition of a frame

The sprite memories put out their words one cycle after their addresses. The write
that stays in a word of the frame buffer carries the pixel computed in the first of
the two cycles of its place in the window, when the memories still answer to the
pixel before. The words 240 apart that the writes after the ends of the rows hit are
the exception: they get the pixel of the second cycle of column 239, two rows down.
-/

namespace Video

open FrameDrawer (PixelIn InWindow)
open FramebufferRam (depth)

/-! ## The writes of a frame, word by word -/

/-- The word of the frame buffer in column `x` of row `y`. -/
def word {x y : ℕ} (hx : x < 240) (hy : y < 160) : Fin depth :=
  ⟨240 * y + x, by
    change 240 * y + x < 38400
    omega⟩

theorem word_val {x y : ℕ} (hx : x < 240) (hy : y < 160) : (word hx hy).val = 240 * y + x := rfl

/-- The write after the end of row `r` hits the word in column 160, two rows up. -/
theorem stray_eq {x y r : ℕ} (hx : x < 240) (hy : y < 160) (hr : r < 160)
    (h : 240 * y + x = (240 * r + 523968) % 524288) : x = 160 ∧ r = y + 2 := by
  rcases Nat.lt_or_ge r 2 with hlt | hge
  · have hexact : (240 * r + 523968) % 524288 = 240 * r + 523968 := Nat.mod_eq_of_lt (by omega)
    omega
  · have hexact : (240 * r + 523968) % 524288 = 240 * r - 320 := by omega
    omega

section Words

variable {ram : FramebufferRam.Regs} {powerUp : BitVec 24} {ins : ℕ → PixelIn} {f : ℕ}

/-- Every write of a frame comes from a half of a pixel of the window. -/
theorem exists_of_written_word {t : ℕ} {a : Fin depth} {v : BitVec 24} (ht : InFrame f t)
    (h : written ram powerUp ins t = some (a, v)) : ∃ x y b, x < 240 ∧ y < 160 ∧ b < 2 ∧
      t = cycleOf f x y b + 1 ∧ a.val = addressAfter x y b := by
  obtain ⟨x, y, b, hx, hy, hb, htime, ha⟩ := exists_of_writes ht (written_eq_some.mp h).1
  rw [toNat_address] at ha
  exact ⟨x, y, b, hx, hy, hb, htime, ha⟩

/-- Before the first pixel of the window a frame writes nothing. -/
theorem buffer_before {t : ℕ} (ht : f * 840000 ≤ t) (hbefore : t ≤ cycleOf f 0 0 0 + 1)
    (a : Fin depth) : buffer ram powerUp ins t a = buffer ram powerUp ins (f * 840000) a := by
  rw [buffer_eq_contents, buffer_eq_contents]
  refine Memory.contents_of_not_written ht fun k hk hkt v hwritten => ?_
  unfold cycleOf at hbefore
  obtain ⟨x, y, b, hx, hy, hb, htime, -⟩ :=
    exists_of_written_word (f := f) ⟨hk, by omega⟩ hwritten
  unfold cycleOf at htime
  omega

variable (hon : ∀ t, InFrame f t → InWindow (pixel t) → (ins t).stateNum ≠ 0#4)
include hon

/-- Each half of a pixel of the window is written to the address one cycle later. -/
theorem written_word {x y b : ℕ} (hx : x < 240) (hy : y < 160) (hb : b < 2) {a : Fin depth}
    (ha : a.val = addressAfter x y b) :
    written ram powerUp ins (cycleOf f x y b + 1) =
      some (a, (nets ram powerUp ins (cycleOf f x y b)).next_pixel) := by
  have hw : Writes powerUp (feed ram powerUp ins) (cycleOf f x y b + 1)
      (BitVec.ofNat 19 a.val) := writes_cycleOf hon hx hy hb ((toNat_address a).trans ha)
  exact written_eq_some.mpr ⟨hw, (writes_succ _ _).2 hw⟩

/-- From its own pixel on a word holds what that pixel brought, until the write after the
end of the row two below, if there is one. -/
theorem buffer_own {x y t : ℕ} (hx : x < 240) (hy : y < 160) (ht : cycleOf f x y 0 + 1 < t)
    (hframe : t ≤ (f + 1) * 840000)
    (hstray : x = 160 → y < 158 → t ≤ cycleOf f 239 (y + 2) 1 + 1) :
    buffer ram powerUp ins t (word hx hy) =
      (nets ram powerUp ins (cycleOf f x y 0)).next_pixel := by
  have ha : (word hx hy).val = addressAfter x y 0 := by
    rw [addressAfter, if_pos rfl, word_val]
  rw [buffer_eq_contents]
  refine Memory.contents_of_last_write ht (written_word hon hx hy (by decide) ha)
    fun j hj hjt v hwritten => ?_
  have hin : InFrame f j := by
    unfold cycleOf at hj
    exact ⟨by omega, by omega⟩
  obtain ⟨x', y', b, hx', hy', hb, rfl, ha'⟩ := exists_of_written_word hin hwritten
  rw [word_val] at ha'
  unfold addressAfter at ha'
  unfold cycleOf at hj hjt hstray
  split_ifs at ha' with hfirst hinner
  · omega
  · omega
  · obtain ⟨hx160, hrow⟩ := stray_eq hx hy hy' ha'
    have hlast := hstray hx160 (by omega)
    omega

/-- From the write after the end of a row on, the word it hits holds that pixel. -/
theorem buffer_stray {y t : ℕ} (hy : y < 158) (ht : cycleOf f 239 (y + 2) 1 + 1 < t)
    (hframe : t ≤ (f + 1) * 840000) :
    buffer ram powerUp ins t (word (x := 160) (by decide) (Nat.lt_trans hy (by decide))) =
      (nets ram powerUp ins (cycleOf f 239 (y + 2) 1)).next_pixel := by
  have ha : (word (x := 160) (by decide) (Nat.lt_trans hy (by decide))).val =
      addressAfter 239 (y + 2) 1 := by
    rw [word_val, addressAfter, if_neg (by decide), if_neg (by decide)]
    omega
  rw [buffer_eq_contents]
  refine Memory.contents_of_last_write ht
    (written_word hon (by decide) (by omega) (by decide) ha) fun j hj hjt v hwritten => ?_
  have hin : InFrame f j := by
    unfold cycleOf at hj
    exact ⟨by omega, by omega⟩
  obtain ⟨x', y', b, hx', hy', hb, rfl, ha'⟩ := exists_of_written_word hin hwritten
  rw [word_val] at ha'
  unfold addressAfter at ha'
  unfold cycleOf at hj hjt
  split_ifs at ha' with hfirst hinner
  · omega
  · omega
  · obtain ⟨-, hrow⟩ := stray_eq (x := 160) (by decide) (by omega) hy' ha'
    omega

end Words

/-! ## The machine -/

/-- The registers of `frameDrawer` and of its memories clocked by `posedge Clk`. -/
structure Composing where
  drawing : Drawing
  char : CharacterRam.Regs
  gym : GymMapRam.Regs

/-- The nets, with the outputs of the sprite memories. -/
def Composing.sprites (s : Composing) (i : PixelIn) : PixelIn :=
  { i with
    Chardata_Out := s.char.data_Out
    Gymdata_Out := s.gym.data_Out }

/-- The ports of a sprite memory, whose write is tied off. -/
def readPort (read_address : BitVec 19) : FramebufferRam.In := ⟨0#24, 0#19, read_address, false⟩

/-- The registers after a `posedge Clk`. -/
def Composing.posedge (s : Composing) (i : PixelIn) : Composing where
  drawing := s.drawing.posedge (s.sprites i)
  char := s.char.posedge (readPort (s.drawing.nets (s.sprites i)).Charread_address)
  gym := s.gym.posedge (readPort (s.drawing.nets (s.sprites i)).Gymread_address)

/-- The contents of the memories and of the registers at power-up, when the write port is
disabled. -/
structure PowerUp where
  FBdata_In : BitVec 24
  ram : FramebufferRam.Regs
  char : CharacterRam.Regs
  gym : GymMapRam.Regs

namespace PowerUp

variable (p : PowerUp) (ins : ℕ → PixelIn)

/-- The registers in cycle `t`. -/
def composing (t : ℕ) : Composing :=
  Driven.run Composing.posedge ⟨⟨⟨false, p.FBdata_In⟩, p.ram⟩, p.char, p.gym⟩ (scanned ins) t

/-- The nets of cycle `t` with the outputs of the sprite memories. -/
def sprites (t : ℕ) : PixelIn := (p.composing ins t).sprites (ins t)

/-- The nets of the pixel logic in cycle `t`. -/
def pixelNets (t : ℕ) : PixelIn := nets p.ram p.FBdata_In (p.sprites ins) t

/-- The frame buffer in cycle `t`. -/
def frameBuffer (t : ℕ) : Fin depth → BitVec 24 := (p.composing ins t).drawing.ram.mem

/-- The colour that the character memory decodes for the nets. -/
def charColour (i : PixelIn) : BitVec 24 :=
  SpriteRam.decoded CharacterRam.colours p.char.mem i.Charread_address

/-- The colour that the map memory decodes for the nets. -/
def gymColour (i : PixelIn) : BitVec 24 :=
  SpriteRam.decoded GymMapRam.colours p.gym.mem i.Gymread_address

/-- The pixel of the main game: the tests are those of the nets `i`, the colours those of
the nets one cycle before. -/
def composed (before i : PixelIn) : BitVec 24 :=
  if i.InBox ∧ p.charColour before ≠ PixelIn.transparent then p.charColour before
  else if InGym i then p.gymColour before
  else 0x000000#24

theorem composing_succ (t : ℕ) :
    p.composing ins (t + 1) = (p.composing ins t).posedge (scanned ins t) := rfl

/-- Behind the sprite memories the frame buffer is drawn as it is alone. -/
theorem composing_drawing (t : ℕ) :
    (p.composing ins t).drawing = drawing p.ram p.FBdata_In (p.sprites ins) t := by
  induction t with
  | zero => rfl
  | succ t ih =>
    rw [composing_succ, Composing.posedge, ih]
    rfl

theorem frameBuffer_eq (t : ℕ) :
    p.frameBuffer ins t = buffer p.ram p.FBdata_In (p.sprites ins) t := by
  rw [frameBuffer, composing_drawing]
  rfl

/-- The sprite memories are not written. -/
theorem composing_mem (t : ℕ) :
    (p.composing ins t).char.mem = p.char.mem ∧ (p.composing ins t).gym.mem = p.gym.mem := by
  induction t with
  | zero => exact ⟨rfl, rfl⟩
  | succ t ih =>
    rw [composing_succ]
    exact ⟨(SpriteRam.posedge_mem _ rfl).trans ih.1, (SpriteRam.posedge_mem _ rfl).trans ih.2⟩

/-- A cycle later they put out the colours of the nets. -/
theorem sprites_succ (t : ℕ) :
    (p.sprites ins (t + 1)).Chardata_Out = p.charColour (scanned ins t) ∧
      (p.sprites ins (t + 1)).Gymdata_Out = p.gymColour (scanned ins t) := by
  obtain ⟨hchar, hgym⟩ := p.composing_mem ins t
  unfold charColour gymColour
  rw [← hchar, ← hgym]
  exact ⟨rfl, rfl⟩

variable {p ins}

/-- What the pixel logic computes in a cycle of the main game in the window. -/
theorem next_pixel_succ {t : ℕ} (h3 : (ins (t + 1)).stateNum = 3#4)
    (hw : InWindow (pixel (t + 1))) :
    (p.pixelNets ins (t + 1)).next_pixel = p.composed (scanned ins t) (scanned ins (t + 1)) := by
  obtain ⟨hchar, hgym⟩ := p.sprites_succ ins t
  have hchar' : (p.pixelNets ins (t + 1)).Chardata_Out = p.charColour (scanned ins t) := hchar
  have hgym' : (p.pixelNets ins (t + 1)).Gymdata_Out = p.gymColour (scanned ins t) := hgym
  have hstate : (p.pixelNets ins (t + 1)).stateNum = 3#4 := h3
  have hbox : (p.pixelNets ins (t + 1)).InBox ↔ (scanned ins (t + 1)).InBox := Iff.rfl
  have hmap : InGym (p.pixelNets ins (t + 1)) ↔ InGym (scanned ins (t + 1)) := Iff.rfl
  rw [next_pixel_eq (i := p.pixelNets ins (t + 1)) h3 hw, composed]
  simp only [DrawsChar, hstate, hchar', hgym', hbox, hmap, true_and]

end PowerUp

/-! ## After a frame -/

section Frame

variable {p : PowerUp} {ins : ℕ → PixelIn} {f : ℕ}
  (h3 : ∀ t, InFrame f t → InWindow (pixel t) → (ins t).stateNum = 3#4)
include h3

/-- In the main game the write port is on in the window. -/
theorem sprites_on (t : ℕ) (ht : InFrame f t) (hw : InWindow (pixel t)) :
    (p.sprites ins t).stateNum ≠ 0#4 := by
  have hstate : (p.sprites ins t).stateNum = 3#4 := h3 t ht hw
  rw [hstate]
  decide

/-- The pixel computed in a half of a pixel of the window. -/
theorem next_pixel_cycleOf {x y b : ℕ} (hx : x < 240) (hy : y < 160) (hb : b < 2) :
    (p.pixelNets ins (cycleOf f x y b)).next_pixel =
      p.composed (scanned ins (cycleOf f x y b - 1)) (scanned ins (cycleOf f x y b)) := by
  have hin := (inFrame_cycleOf (f := f) hx hy hb).1
  have hwin : InWindow (pixel (cycleOf f x y b)) := by
    rw [pixel_cycleOf hx hy hb]
    unfold InWindow
    omega
  have hstate := h3 _ hin hwin
  obtain ⟨c, hc⟩ : ∃ c, cycleOf f x y b = c + 1 := ⟨cycleOf f x y b - 1, by
    unfold cycleOf
    omega⟩
  rw [hc] at hwin hstate ⊢
  exact PowerUp.next_pixel_succ hstate hwin

/-- From its own pixel on a word holds what was composed there. -/
theorem frameBuffer_own {x y t : ℕ} (hx : x < 240) (hy : y < 160)
    (ht : cycleOf f x y 0 + 1 < t) (hframe : t ≤ (f + 1) * 840000)
    (hstray : x = 160 → y < 158 → t ≤ cycleOf f 239 (y + 2) 1 + 1) :
    p.frameBuffer ins t (word hx hy) =
      p.composed (scanned ins (cycleOf f x y 0 - 1)) (scanned ins (cycleOf f x y 0)) := by
  rw [PowerUp.frameBuffer_eq, buffer_own (sprites_on h3) hx hy ht hframe hstray]
  exact next_pixel_cycleOf h3 hx hy (by decide)

theorem frameBuffer_stray {y t : ℕ} (hy : y < 158) (ht : cycleOf f 239 (y + 2) 1 + 1 < t)
    (hframe : t ≤ (f + 1) * 840000) :
    p.frameBuffer ins t (word (x := 160) (by decide) (Nat.lt_trans hy (by decide))) =
      p.composed (scanned ins (cycleOf f 239 (y + 2) 1 - 1))
        (scanned ins (cycleOf f 239 (y + 2) 1)) := by
  rw [PowerUp.frameBuffer_eq, buffer_stray (sprites_on h3) hy ht hframe]
  exact next_pixel_cycleOf h3 (by decide) (by omega) (by decide)

end Frame

/-- The cycle of frame `f` in which the pixel is computed that the word in column `x` of
row `y` holds at the end. -/
def finalCycle (f x y : ℕ) : ℕ :=
  if x = 160 ∧ y < 158 then cycleOf f 239 (y + 2) 1 else cycleOf f x y 0

/-- For any contents of the memories, any frame of the main game and any inputs in it: at
its end every word of the frame buffer holds a pixel that was composed in the frame, from
the words that the sprite memories had been asked for one cycle earlier. -/
theorem frameBuffer_composed (p : PowerUp) (ins : ℕ → PixelIn) (f : ℕ)
    (h3 : ∀ t, InFrame f t → InWindow (pixel t) → (ins t).stateNum = 3#4) {x y : ℕ}
    (hx : x < 240) (hy : y < 160) :
    p.frameBuffer ins ((f + 1) * 840000) (word hx hy) =
      p.composed (scanned ins (finalCycle f x y - 1)) (scanned ins (finalCycle f x y)) := by
  unfold finalCycle
  split_ifs with hstray
  · obtain ⟨rfl, hrow⟩ := hstray
    exact frameBuffer_stray h3 hrow (by unfold cycleOf; omega) le_rfl
  · exact frameBuffer_own h3 hx hy (by unfold cycleOf; omega) le_rfl
      fun hx160 hrow => absurd ⟨hx160, hrow⟩ hstray

/-- Memories with code 1 in every word of the map. -/
def plainMap : PowerUp := ⟨0#24, ⟨fun _ => 0#24, 0#24⟩, ⟨fun _ => 0#8, 0#24⟩, ⟨fun _ => 1#8, 0#24⟩⟩

/-- The nets of the main game at the start position. -/
def atStart : PixelIn :=
  ⟨3#4, 0#10, 0#10, 288#10, 315#10, false, false, 1#2, 0#2, false, 0#2, 0#24, 0#24, 0#24⟩

theorem frameBuffer_composed_atStart :
    plainMap.frameBuffer (fun _ => atStart) 840000
        (word (x := 160) (y := 0) (by decide) (by decide)) =
      plainMap.composed (scanned (fun _ => atStart) (cycleOf 0 239 2 1 - 1))
        (scanned (fun _ => atStart) (cycleOf 0 239 2 1)) :=
  frameBuffer_composed plainMap (fun _ => atStart) 0 (fun _ _ _ => rfl) (by decide) (by decide)

end Video
