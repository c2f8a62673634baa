-- SUMMARY: The module `gameFSM`: screens, fade counter, facing, and the 32-frame step counter, with the lemmas saying what one clock edge can do.
import Mathlib.Data.Nat.Basic
import Mathlib.Tactic.SplitIfs

/-!
# gameFSM

The registers of `gameFSM.sv` and its two combinational blocks. All registers
are clocked by `posedge VGA_VS`; `keycode` is not registered, so the outputs
below are functions of the registers and of the keycode at the instant they are
read.
-/

namespace GameFSM

inductive State where
  | startScreen
  | flashPressEnter
  | fade
  | drawMainGame
  | hold
  deriving DecidableEq, Repr

structure Regs where
  state : State
  fadeCounter : BitVec 6
  direction : BitVec 2
  charFrameCounter : BitVec 6
  tilecounter : BitVec 5
  deriving DecidableEq, Repr

/-! ## Keycodes -/

def keyW : BitVec 8 := 0x1A#8
def keyA : BitVec 8 := 0x04#8
def keyS : BitVec 8 := 0x16#8
def keyD : BitVec 8 := 0x07#8

/-- The key that starts the game from the start screen. -/
def keyEnter : BitVec 8 := 0x28#8

/-- The key that leaves the main game. -/
def keyEscape : BitVec 8 := 0x29#8

/-! ## Next state -/

def nextState (r : Regs) (keycode : BitVec 8) : State :=
  match r.state with
  | .startScreen => if keycode = keyEnter then .fade else .startScreen
  | .flashPressEnter => if keycode = keyEnter then .fade else .startScreen
  | .fade => if r.fadeCounter = 50#6 then .drawMainGame else r.state
  | .drawMainGame => if keycode = keyEscape then .startScreen else r.state
  | .hold => r.state

/-! ## Outputs and register inputs -/

/-- What the second `always_comb` block drives. -/
structure Comb where
  fadeCounterNext : BitVec 6
  nextCharFrameCounter : BitVec 6
  nextDirection : BitVec 2
  charIsMoving : Bool
  charMoveFrame : BitVec 2
  stateNum : BitVec 4
  nextTilecounter : BitVec 5
  play : Bool
  deriving DecidableEq, Repr

/-- The defaults at the head of the block. -/
def Comb.default (r : Regs) : Comb where
  fadeCounterNext := r.fadeCounter
  nextCharFrameCounter := r.charFrameCounter
  nextDirection := r.direction
  charIsMoving := false
  charMoveFrame := 0#2
  stateNum := 0#4
  nextTilecounter := r.tilecounter
  play := true

/-- One arm of `unique case (keycode)`, for the key of facing `d`: a step starts
if the character already faces that way, otherwise it turns. -/
def keyArm (r : Regs) (d : BitVec 2) (c : Comb) : Comb :=
  if r.direction = d then
    { c with
      nextTilecounter := 0#5
      nextDirection := r.direction
      charIsMoving := true
      nextCharFrameCounter := r.charFrameCounter + 1#6 }
  else
    { c with
      nextDirection := d
      charIsMoving := false
      nextCharFrameCounter := 0#6
      nextTilecounter := 31#5 }

/-- The `if (tilecounter != 5'd31)` statement of `draw_main_game`. -/
def walk (r : Regs) (keycode : BitVec 8) (c : Comb) : Comb :=
  if r.tilecounter ≠ 31#5 then
    -- The character walks in blocks of 16: no key is read until the step is over.
    { c with
      nextDirection := r.direction
      charIsMoving := true
      nextCharFrameCounter := r.charFrameCounter + 1#6
      nextTilecounter := r.tilecounter + 1#5 }
  else
    let c := { c with nextTilecounter := 31#5 }
    if keycode = keyS then keyArm r 0#2 c
    else if keycode = keyW then keyArm r 1#2 c
    else if keycode = keyA then keyArm r 2#2 c
    else if keycode = keyD then keyArm r 3#2 c
    else c

/-- The walking animation that ends the `draw_main_game` arm. -/
def animate (r : Regs) (c : Comb) : Comb :=
  { c with
    charMoveFrame :=
      if r.charFrameCounter < 10#6 then 0#2
      else if r.charFrameCounter < 20#6 then 1#2
      else if r.charFrameCounter < 30#6 then 2#2
      else if r.charFrameCounter < 40#6 then 1#2
      else c.charMoveFrame
    nextCharFrameCounter :=
      if r.charFrameCounter = 39#6 then 0#6 else c.nextCharFrameCounter }

def comb (r : Regs) (keycode : BitVec 8) : Comb :=
  let c := Comb.default r
  match r.state with
  | .startScreen => c
  | .flashPressEnter => { c with stateNum := 1#4 }
  | .fade =>
    let c :=
      if r.fadeCounter = 50#6 then { c with fadeCounterNext := 0#6 }
      else { c with fadeCounterNext := r.fadeCounter + 1#6 }
    { c with stateNum := 2#4 }
  | .drawMainGame => animate r (walk r keycode { c with stateNum := 3#4 })
  | .hold => c

/-! ## The clock edge -/

/-- The register values that `Reset` loads. -/
def Regs.onReset : Regs where
  state := .startScreen
  fadeCounter := 0#6
  direction := 1#2
  charFrameCounter := 0#6
  tilecounter := 31#5

/-- The registers after a `posedge VGA_VS`. -/
def Regs.posedge (r : Regs) (reset : Bool) (keycode : BitVec 8) : Regs :=
  if reset then .onReset
  else
    { state := nextState r keycode
      fadeCounter := (comb r keycode).fadeCounterNext
      direction := (comb r keycode).nextDirection
      charFrameCounter := (comb r keycode).nextCharFrameCounter
      tilecounter := (comb r keycode).nextTilecounter }

/-! ## What the outputs say -/

/-- `state_num`, which depends on the state only. -/
def State.num : State → BitVec 4
  | .startScreen => 0#4
  | .flashPressEnter => 1#4
  | .fade => 2#4
  | .drawMainGame => 3#4
  | .hold => 0#4

/-- The key that walks in direction `d`. -/
def facingKey (d : BitVec 2) : BitVec 8 :=
  if d = 0#2 then keyS else if d = 1#2 then keyW else if d = 2#2 then keyA else keyD

/-- No step is in progress. -/
def Regs.Idle (r : Regs) : Prop := r.tilecounter = 31#5

instance (r : Regs) : Decidable r.Idle := inferInstanceAs (Decidable (_ = _))

theorem direction_cases (d : BitVec 2) : d = 0#2 ∨ d = 1#2 ∨ d = 2#2 ∨ d = 3#2 := by
  revert d
  decide

/-- Turning is all that a movement key other than the facing one does. -/
private theorem keyArm_of_ne {r : Regs} {d : BitVec 2} {c : Comb} (h : r.direction ≠ d) :
    (keyArm r d c).charIsMoving = false ∧ (keyArm r d c).nextTilecounter = 31#5 := by
  simp [keyArm, h]

theorem walk_stateNum (r : Regs) (keycode : BitVec 8) (c : Comb) :
    (walk r keycode c).stateNum = c.stateNum ∧
      (walk r keycode c).fadeCounterNext = c.fadeCounterNext := by
  unfold walk keyArm
  split_ifs <;> exact ⟨rfl, rfl⟩

/-- While a step is in progress the keycode is not read. -/
theorem walk_of_not_idle {r : Regs} (h : ¬ r.Idle) (keycode : BitVec 8) (c : Comb) :
    (walk r keycode c).charIsMoving = true ∧ (walk r keycode c).nextDirection = r.direction ∧
      (walk r keycode c).nextTilecounter = r.tilecounter + 1#5 := by
  have ht : r.tilecounter ≠ 31#5 := h
  simp [walk, ht]

/-- From rest, the key of the facing starts a step. -/
theorem walk_of_facingKey {r : Regs} (h : r.Idle) (c : Comb) :
    (walk r (facingKey r.direction) c).charIsMoving = true ∧
      (walk r (facingKey r.direction) c).nextDirection = r.direction ∧
      (walk r (facingKey r.direction) c).nextTilecounter = 0#5 := by
  have ht : r.tilecounter = 31#5 := h
  rcases direction_cases r.direction with hd | hd | hd | hd <;>
    simp [walk, keyArm, ht, hd, facingKey, keyS, keyW, keyA, keyD]

/-- From rest, no other key starts a step. -/
theorem walk_of_other {r : Regs} (h : r.Idle) {keycode : BitVec 8}
    (hk : keycode ≠ facingKey r.direction) {c : Comb} (hc : c.charIsMoving = false) :
    (walk r keycode c).charIsMoving = false ∧ (walk r keycode c).nextTilecounter = 31#5 := by
  have ht : r.tilecounter = 31#5 := h
  have hS : keycode = keyS → r.direction ≠ 0#2 := fun e hd => hk (by simp [facingKey, hd, e])
  have hW : keycode = keyW → r.direction ≠ 1#2 := fun e hd => hk (by simp [facingKey, hd, e])
  have hA : keycode = keyA → r.direction ≠ 2#2 := fun e hd => hk (by simp [facingKey, hd, e])
  have hD : keycode = keyD → r.direction ≠ 3#2 := fun e hd => hk (by simp [facingKey, hd, e])
  unfold walk
  simp only [ht, ne_eq, not_true_eq_false, if_false]
  split_ifs with h1 h2 h3 h4
  · exact keyArm_of_ne (hS h1)
  · exact keyArm_of_ne (hW h2)
  · exact keyArm_of_ne (hA h3)
  · exact keyArm_of_ne (hD h4)
  · exact ⟨hc, rfl⟩

@[simp] theorem comb_stateNum (r : Regs) (keycode : BitVec 8) :
    (comb r keycode).stateNum = r.state.num := by
  cases h : r.state with
  | drawMainGame => simp [comb, h, animate, walk_stateNum, State.num]
  | fade => simp [comb, h, State.num]
  | _ => simp [comb, h, State.num, Comb.default]

/-- The character moves exactly in the main game, while a step is in progress or
the key of its facing is down. -/
theorem comb_charIsMoving (r : Regs) (keycode : BitVec 8) :
    (comb r keycode).charIsMoving = true ↔
      r.state = .drawMainGame ∧ (¬ r.Idle ∨ keycode = facingKey r.direction) := by
  cases h : r.state with
  | drawMainGame =>
    simp only [comb, h, animate, true_and]
    by_cases hi : r.Idle
    · by_cases hk : keycode = facingKey r.direction
      · rw [hk]
        simp [walk_of_facingKey hi]
      · simp [walk_of_other hi hk (c := { Comb.default r with stateNum := 3#4 }) rfl, hi, hk]
    · simp [walk_of_not_idle hi, hi]
  | fade => simp only [comb, h]; split_ifs <;> simp [Comb.default]
  | _ => simp [comb, h, Comb.default]

/-- Below its end value the step counter does not wrap. -/
theorem tilecounter_succ {c : BitVec 5} (h : c ≠ 31#5) : (c + 1#5).toNat = c.toNat + 1 := by
  bv_omega

/-! ## What a clock edge can do -/

@[simp] theorem posedge_reset (r : Regs) (keycode : BitVec 8) :
    r.posedge true keycode = .onReset := rfl

@[simp] theorem posedge_state (r : Regs) (keycode : BitVec 8) :
    (r.posedge false keycode).state = nextState r keycode := rfl

theorem posedge_false (r : Regs) (keycode : BitVec 8) :
    r.posedge false keycode =
      ⟨nextState r keycode, (comb r keycode).fadeCounterNext, (comb r keycode).nextDirection,
        (comb r keycode).nextCharFrameCounter, (comb r keycode).nextTilecounter⟩ := rfl

/-- Outside the main game the step counter and the facing are kept. -/
theorem posedge_frozen {r : Regs} (h : r.state ≠ .drawMainGame) (keycode : BitVec 8) :
    (r.posedge false keycode).tilecounter = r.tilecounter ∧
      (r.posedge false keycode).direction = r.direction := by
  cases hs : r.state with
  | drawMainGame => exact absurd hs h
  | fade => simp only [posedge_false, comb, hs]; split_ifs <;> exact ⟨rfl, rfl⟩
  | _ => simp [posedge_false, comb, hs, Comb.default]

/-- A step in progress goes on, whatever the key. -/
theorem posedge_of_not_idle {r : Regs} (h : r.state = .drawMainGame) (hi : ¬ r.Idle)
    (keycode : BitVec 8) :
    (r.posedge false keycode).tilecounter = r.tilecounter + 1#5 ∧
      (r.posedge false keycode).direction = r.direction := by
  simp [posedge_false, comb, h, animate, walk_of_not_idle hi]

/-- A step starts. -/
theorem posedge_of_facingKey {r : Regs} (h : r.state = .drawMainGame) (hi : r.Idle) :
    (r.posedge false (facingKey r.direction)).tilecounter = 0#5 ∧
      (r.posedge false (facingKey r.direction)).direction = r.direction := by
  simp [posedge_false, comb, h, animate, walk_of_facingKey hi]

/-- Rest continues; the facing may turn. -/
theorem posedge_of_other {r : Regs} (h : r.state = .drawMainGame) (hi : r.Idle)
    {keycode : BitVec 8} (hk : keycode ≠ facingKey r.direction) :
    (r.posedge false keycode).Idle := by
  simp [Regs.Idle, posedge_false, comb, h, animate,
    walk_of_other hi hk (c := { Comb.default r with stateNum := 3#4 }) rfl]

/-- The fade counter counts the frames of the fade and is kept outside it. -/
theorem posedge_fadeCounter (r : Regs) (keycode : BitVec 8) :
    (r.posedge false keycode).fadeCounter =
      if r.state = .fade then (if r.fadeCounter = 50#6 then 0#6 else r.fadeCounter + 1#6)
      else r.fadeCounter := by
  cases hs : r.state with
  | drawMainGame => simp [posedge_false, comb, hs, animate, walk_stateNum, Comb.default]
  | fade => simp only [posedge_false, comb, hs, if_true]; split_ifs <;> rfl
  | _ => simp [posedge_false, comb, hs, Comb.default]

/-! ## The way to the main game -/

/-- The frames that the fade has left after this one. -/
def Regs.fadeLeft (r : Regs) : ℕ := (50#6 - r.fadeCounter).toNat

theorem fadeLeft_eq_zero {r : Regs} : r.fadeLeft = 0 ↔ r.fadeCounter = 50#6 := by
  unfold Regs.fadeLeft
  bv_omega

/-- The fade goes on while it has frames left, and then the main game begins. -/
theorem posedge_fade {r : Regs} (h : r.state = .fade) (keycode : BitVec 8) :
    (r.fadeLeft = 0 → (r.posedge false keycode).state = .drawMainGame) ∧
      (r.fadeLeft ≠ 0 → (r.posedge false keycode).state = .fade ∧
        (r.posedge false keycode).fadeLeft + 1 = r.fadeLeft) := by
  have hcount := posedge_fadeCounter r keycode
  rw [fadeLeft_eq_zero, ne_eq, fadeLeft_eq_zero, posedge_state, nextState, h]
  constructor
  · intro h50
    simp only [h50, if_true]
  · intro h50
    rw [if_pos h, if_neg h50] at hcount
    unfold Regs.fadeLeft
    rw [hcount]
    exact ⟨by simp only [h50, if_false], by bv_omega⟩

/-- The frames until the main game, while Enter is held. -/
def Regs.untilMain (r : Regs) : ℕ :=
  match r.state with
  | .startScreen | .flashPressEnter => (50#6 - r.fadeCounter).toNat + 2
  | .fade => (50#6 - r.fadeCounter).toNat + 1
  | .drawMainGame | .hold => 0

theorem Regs.untilMain_le (r : Regs) : r.untilMain ≤ 65 := by
  have hlt := (50#6 - r.fadeCounter).isLt
  unfold untilMain
  split <;> omega

theorem Regs.untilMain_pos {r : Regs} (h : r.state ≠ .hold) (hmain : r.state ≠ .drawMainGame) :
    0 < r.untilMain := by
  unfold untilMain
  split
  · omega
  · omega
  · omega
  · simp_all
  · simp_all

theorem untilMain_of_main {r : Regs} (h : r.state = .drawMainGame) : r.untilMain = 0 := by
  simp only [Regs.untilMain, h]

theorem posedge_ne_hold {r : Regs} (h : r.state ≠ .hold) (reset : Bool) (keycode : BitVec 8) :
    (r.posedge reset keycode).state ≠ .hold := by
  cases reset with
  | true => simp [Regs.onReset]
  | false =>
    rw [posedge_state]
    unfold nextState
    split
    · split_ifs <;> simp
    · split_ifs <;> simp
    · split_ifs <;> simp_all
    · split_ifs <;> simp_all
    · simp_all

/-- A frame of the main game with Enter is followed by one. -/
theorem posedge_enter_main {r : Regs} (h : r.state = .drawMainGame) :
    (r.posedge false keyEnter).state = .drawMainGame := by
  rw [posedge_state]
  simp [nextState, h, keyEnter, keyEscape]

/-- With Enter the main game comes closer. -/
theorem untilMain_posedge {r : Regs} (h : r.state ≠ .hold) (hmain : r.state ≠ .drawMainGame) :
    (r.posedge false keyEnter).untilMain + 1 = r.untilMain := by
  have hcount := posedge_fadeCounter r keyEnter
  have hstate := posedge_state r keyEnter
  generalize r.posedge false keyEnter = r' at hcount hstate
  cases hs : r.state with
  | hold => exact absurd hs h
  | drawMainGame => exact absurd hs hmain
  | fade =>
    simp only [nextState, hs, if_true] at hcount hstate
    by_cases h50 : r.fadeCounter = 50#6
    · rw [if_pos h50] at hstate
      simp [Regs.untilMain, hs, hstate, h50]
    · rw [if_neg h50] at hcount hstate
      simp only [Regs.untilMain, hs, hstate, hcount]
      bv_omega
  | _ =>
    simp only [nextState, hs, if_true] at hcount hstate
    simp [Regs.untilMain, hs, hstate, hcount]

end GameFSM
