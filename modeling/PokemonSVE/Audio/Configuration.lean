-- SUMMARY: The codec is configured: after a `Reset` a receiver on the two wires hears the nine register writes in their order and nothing else, and `INIT_FINISH` rises when it has heard the last.
import PokemonSVE.Basis.Run
import PokemonSVE.Basis.TwoWire
import PokemonSVE.Rtl.AudioInterface
import Mathlib.Tactic.IntervalCases

/-!
# Configuration

A word takes 28 periods of the clock: one for the start, and one for each of its 24 bits and
three acknowledgements. The state changes two ticks after the clock has fallen.
-/

namespace AudioInterface

open TwoWire (Lines Receiver Transfer msbFirst)

/-! ## Words -/

/-- The write to one register: the device, the register, and the data. -/
def word (k : ℕ) : BitVec 24 := SCI_ADDR ++ entry SCI_REG_ROM k ++ entry SCI_DAT_ROM k

/-- The bits of the first `k` of them. -/
def words (k : ℕ) : List (List Bool) := (List.range k).map fun k => msbFirst (word k)

theorem words_succ (k : ℕ) : words (k + 1) = words k ++ [msbFirst (word k)] := by
  simp [words, List.range_succ]

theorem words_le {k n : ℕ} (h : k ≤ n) : words k <+: words n := by
  induction n, h using Nat.le_induction with
  | base => exact List.prefix_rfl
  | succ n _ ih => exact ih.trans (words_succ n ▸ List.prefix_append _ _)

theorem getMsbD_word (k i : ℕ) :
    (word k).getMsbD i =
      if i < 8 then SCI_ADDR.getMsbD i
      else if i < 16 then (entry SCI_REG_ROM k).getMsbD (i - 8)
      else (entry SCI_DAT_ROM k).getMsbD (i - 16) := by
  change BitVec.getMsbD (SCI_ADDR ++ entry SCI_REG_ROM k ++ entry SCI_DAT_ROM k) i = _
  rw [BitVec.getMsbD_append, BitVec.getMsbD_append]
  split_ifs <;> first | rfl | omega

variable {s : I2C} {r : Receiver} {past : List (List Bool)} {level : Bool} {w j : ℕ}

namespace I2C

/-- The lines, where `level` is what the codec puts on a data line that is let go. -/
def lines (s : I2C) (level : Bool) : Lines := ⟨s.SCLK_int, s.I2C_SDAT.getD level⟩

/-- `i2cCounter` as a number. -/
def count (s : I2C) : ℕ := s.i2cCounter.toNat

/-! ## One tick -/

theorem count_posedge (s : I2C) : (s.posedge false).count = (s.count + 1) % 1024 :=
  BitVec.toNat_add _ _

theorem sck0_posedge (s : I2C) : (s.posedge false).sck0 = s.SCLK_int := rfl

theorem sck1_posedge (s : I2C) : (s.posedge false).sck1 = s.sck0 := rfl

theorem SCLK_int_eq (h : s.sclkInhibit = false) : s.SCLK_int = decide (512 ≤ s.count) := by
  rw [SCLK_int, h, Bool.or_false]
  exact s.i2cCounter.msb_eq_decide

/-- In the first half of a period the clock is low. -/
theorem SCLK_int_low (hclk : s.SCLK_int = decide (512 ≤ s.count)) (hc : s.count < 512) :
    s.SCLK_int = false :=
  hclk.trans (decide_eq_false (by omega))

theorem SCLK_int_high (hclk : s.SCLK_int = decide (512 ≤ s.count)) (hc : 512 ≤ s.count) :
    s.SCLK_int = true :=
  hclk.trans (decide_eq_true hc)

theorem wordReset_clocked (hend : s.nextState ≠ .bEnd) : s.clocked.wordReset = false := by
  unfold wordReset
  split
  · exact absurd ‹_› hend
  · rfl

/-- `wordCount` counts only in `dAck`. -/
theorem wordCount_posedge (hack : s.nextState ≠ .dAck) (hend : s.nextState ≠ .bEnd) :
    (s.posedge false).wordCount = s.wordCount := by
  have hcount : s.clocked.countEn = false := by
    unfold countEn
    split
    · exact absurd ‹_› hack
    · rfl
  change s.wordCountNext = s.wordCount
  simp [wordCountNext, hcount, wordReset_clocked hend]

/-- With the clock low it does not count. -/
theorem wordCount_posedge_low (hclk : s.SCLK_int = false) (hend : s.nextState ≠ .bEnd) :
    (s.posedge false).wordCount = s.wordCount := by
  change s.wordCountNext = s.wordCount
  simp [wordCountNext, hclk, wordReset_clocked hend]

/-- In `dAck` it counts when the clock falls. -/
theorem wordCount_posedge_ack (h : s.state = .dAck) (hnext : s.nextState = .dAck) :
    (s.posedge false).wordCount =
      if s.count = 1023 then s.wordCount + 1 else s.wordCount := by
  have hclk : s.SCLK_int = decide (512 ≤ s.count) := SCLK_int_eq (by simp [sclkInhibit, h])
  have hclk' : s.clocked.SCLK_int = decide (512 ≤ (s.count + 1) % 1024) := by
    have hcount : s.clocked.count = (s.count + 1) % 1024 := count_posedge s
    rw [← hcount]
    exact SCLK_int_eq (by simp [sclkInhibit, clocked, hnext])
  have hlt : s.count < 1024 := s.i2cCounter.isLt
  have hreset : s.clocked.wordReset = false := wordReset_clocked (by simp [hnext])
  have hen : s.clocked.countEn = true := by simp [countEn, clocked, hnext]
  change s.wordCountNext = _
  rw [wordCountNext, hreset, hen, hclk, hclk']
  by_cases hlast : s.count = 1023
  · simp [hlast]
  · have hno : ¬ (512 ≤ s.count ∧ (s.count + 1) % 1024 < 512) := by omega
    simp_all

end I2C

/-! ## The pulses of a word -/

/-- The place of a bit in its byte. -/
def place (j : ℕ) : Fin 8 := ⟨j % 8, Nat.mod_lt j (Nat.succ_pos 7)⟩

/-- The state in which pulse `j` of a word is sent. -/
def I2CState.ofPulse (j : ℕ) : I2CState :=
  if j < 8 then .b (place j)
  else if j = 8 then .bAck
  else if j < 17 then .a (place (j - 9))
  else if j = 17 then .aAck
  else if j < 26 then .d (place (j - 18))
  else .dAck

namespace I2C

theorem ofPulse_ne_dAck (hj : j < 26) : I2CState.ofPulse j ≠ .dAck := by
  rw [I2CState.ofPulse]
  split_ifs <;> simp

theorem ofPulse_ne_bEnd : I2CState.ofPulse j ≠ .bEnd := by
  rw [I2CState.ofPulse]
  split_ifs <;> simp

theorem sclkInhibit_ofPulse (h : s.state = .ofPulse j) : s.sclkInhibit = false := by
  rw [sclkInhibit, h, I2CState.ofPulse]
  split_ifs <;> rfl

/-- The next pulse follows when the clock has fallen. -/
theorem nextState_ofPulse (h : s.state = .ofPulse j) (hj : j < 26) :
    s.nextState = if s.fell then .ofPulse (j + 1) else .ofPulse j := by
  rw [nextState, h]
  interval_cases j <;> rfl

theorem nextState_ofPulse_wait (h : s.state = .ofPulse j) (hj : j < 27) (hfell : s.fell = false) :
    s.nextState = .ofPulse j := by
  rw [nextState, h, hfell]
  interval_cases j <;> rfl

/-- The next bit of the word is sent, or the line is let go. -/
theorem I2C_SDAT_ofPulse (h : s.state = .ofPulse j) (hj : j < 27) :
    s.I2C_SDAT =
      if j % 9 = 8 then none else some ((word s.wordCount).getMsbD (j - j / 9)) := by
  rw [I2C_SDAT, h, getMsbD_word]
  interval_cases j <;> rfl

/-! ## Stages -/

/-- Before a word: the clock is low, and all words before this one have been heard. -/
structure Opening (past : List (List Bool)) (w : ℕ) (s : I2C) (r : Receiver) : Prop where
  state : s.state = .initialise
  wordCount : s.wordCount = w
  count : s.count ≤ 512
  sck0 : s.sck0 = false
  scl : r.lines.scl = false
  bit : r.bit = none
  heard : r.heard = past ++ words w

/-- The start of a word. -/
structure Starting (past : List (List Bool)) (w : ℕ) (s : I2C) (r : Receiver) : Prop where
  state : s.state = .start
  wordCount : s.wordCount = w
  count : 513 ≤ s.count ∨ s.count ≤ 1
  sck0 : s.sck0 = decide (s.count ≠ 1)
  sck1 : s.sck1 = decide (s.count ≠ 513)
  first : s.count = 513 → r.lines = ⟨true, true⟩ ∧ r.heard = past ++ words w
  later : s.count ≠ 513 → r = ⟨⟨s.sck0, false⟩, none, some (.upTo (word w) 0), past ++ words w⟩

/-- Pulse `j` of a word, where the receiver has seen `level` on the data line if it was
let go. -/
structure Sending (past : List (List Bool)) (w j : ℕ) (level : Bool) (s : I2C) (r : Receiver) :
    Prop where
  state : s.state = .ofPulse j
  wordCount : s.wordCount = if j = 26 ∧ s.count ≤ 1 then w + 1 else w
  sck0 : s.sck0 = decide (513 ≤ s.count ∨ s.count = 0)
  sck1 : s.sck1 = decide (514 ≤ s.count ∨ s.count ≤ 1)
  scl : r.lines.scl = s.sck0
  low : s.sck0 = false → r.bit = none
  high : s.sck0 = true → r.bit = some (s.I2C_SDAT.getD level) ∧ r.lines.sda = s.I2C_SDAT.getD level
  transfer : r.transfer = some (.upTo (word w) (if s.count = 1 then j + 1 else j))
  transfers : r.transfers = past ++ words w

/-- After the last word: the clock is low, and all words have been heard. -/
structure Closing (past : List (List Bool)) (s : I2C) (r : Receiver) : Prop where
  state : s.state = .bStop0
  count : s.count ≤ 512
  scl : r.lines.scl = false
  bit : r.bit = none
  heard : r.heard = past ++ words (wordLimit + 1)

/-- The stop. -/
structure Stopping (past : List (List Bool)) (s : I2C) (r : Receiver) : Prop where
  state : s.state = .bStop1
  lines : r.lines = ⟨true, false⟩
  heard : r.heard = past ++ words (wordLimit + 1)

/-- After the stop. -/
structure Closed (past : List (List Bool)) (s : I2C) (r : Receiver) : Prop where
  state : s.state = .bEnd
  receiver : r = ⟨⟨true, true⟩, none, none, past ++ words (wordLimit + 1)⟩

/-! ## Steps -/

theorem Opening.SCLK_int (h : Opening past w s r) : s.SCLK_int = decide (512 ≤ s.count) :=
  SCLK_int_eq (by simp [sclkInhibit, h.state])

theorem Opening.wait (h : Opening past w s r) (hc : s.count < 512) :
    Opening past w (s.posedge false) (r.step (s.lines level)) := by
  have hclk : s.SCLK_int = false := SCLK_int_low h.SCLK_int (by omega)
  have hnext : s.nextState = .initialise := by simp [nextState, h.state, hclk]
  have hcount := count_posedge s
  rw [Receiver.step_low hclk h.bit]
  exact
    { state := hnext
      wordCount := by
        rw [wordCount_posedge (by simp [hnext]) (by simp [hnext]), h.wordCount]
      count := by omega
      sck0 := hclk
      scl := hclk
      bit := h.bit
      heard := h.heard }

theorem Opening.rise (h : Opening past w s r) (hc : s.count = 512) :
    Starting past w (s.posedge false) (r.step (s.lines level)) := by
  have hclk : s.SCLK_int = true := SCLK_int_high h.SCLK_int (by omega)
  have hnext : s.nextState = .start := by simp [nextState, h.state, hclk]
  have hcount := count_posedge s
  have hlines : s.lines level = ⟨true, true⟩ := by simp [lines, hclk, I2C_SDAT, h.state]
  rw [Receiver.step_rise h.scl hclk]
  exact
    { state := hnext
      wordCount := by
        rw [wordCount_posedge (by simp [hnext]) (by simp [hnext]), h.wordCount]
      count := by omega
      sck0 := by
        rw [sck0_posedge, hclk]
        exact (decide_eq_true (by omega)).symm
      sck1 := by
        rw [sck1_posedge, h.sck0]
        exact (decide_eq_false (by omega)).symm
      first := fun _ => ⟨hlines, h.heard⟩
      later := fun hne => by omega }

theorem Starting.SCLK_int (h : Starting past w s r) : s.SCLK_int = decide (512 ≤ s.count) :=
  SCLK_int_eq (by simp [sclkInhibit, h.state])

theorem Starting.fell_iff (h : Starting past w s r) : s.fell = true ↔ s.count = 1 := by
  have hc := h.count
  simp only [fell, h.sck0, h.sck1, Bool.and_eq_true, Bool.not_eq_true', decide_eq_false_iff_not,
    decide_eq_true_eq]
  omega

/-- What the receiver has made of the start. -/
theorem Starting.step (h : Starting past w s r) :
    r.step (s.lines level) =
      ⟨⟨s.SCLK_int, false⟩, none, some (.upTo (word w) 0), past ++ words w⟩ := by
  have hsda : s.I2C_SDAT = some false := by simp [I2C_SDAT, h.state]
  have hlines : s.lines level = ⟨s.SCLK_int, false⟩ := by simp [lines, hsda]
  have hclk := h.SCLK_int
  by_cases hfirst : s.count = 513
  · obtain ⟨hr, hheard⟩ := h.first hfirst
    have hhigh : s.SCLK_int = true := by
      rw [hclk, hfirst]
      rfl
    rw [hlines, hhigh, Receiver.step_start hr, hheard, Transfer.upTo_zero]
  · have hr := h.later hfirst
    have hstep : r.step ⟨s.SCLK_int, false⟩ = { r with lines := ⟨s.SCLK_int, false⟩ } := by
      by_cases hhigh : s.SCLK_int = true
      · have hscl : s.sck0 = true := by
          rw [h.sck0]
          rw [hclk, decide_eq_true_eq] at hhigh
          exact decide_eq_true (by omega)
        exact Receiver.step_high (by rw [hr, hscl]) hhigh (by rw [hr])
      · exact Receiver.step_low (Bool.eq_false_iff.mpr hhigh) (by rw [hr])
    rw [hlines, hstep, hr]

theorem Starting.wait (h : Starting past w s r) (hc : s.count ≠ 1) :
    Starting past w (s.posedge false) (r.step (s.lines level)) := by
  have hfell : s.fell = false := Bool.eq_false_iff.mpr (mt h.fell_iff.mp hc)
  have hnext : s.nextState = .start := by simp [nextState, h.state, hfell]
  have hcount := count_posedge s
  have hlt : s.count < 1024 := s.i2cCounter.isLt
  have hrange := h.count
  have hclk := h.SCLK_int
  exact
    { state := hnext
      wordCount := by
        rw [wordCount_posedge (by simp [hnext]) (by simp [hnext]), h.wordCount]
      count := by omega
      sck0 := by
        rw [sck0_posedge, hclk]
        exact decide_eq_decide.mpr (by omega)
      sck1 := by
        rw [sck1_posedge, h.sck0]
        exact decide_eq_decide.mpr (by omega)
      first := fun hfirst => by omega
      later := fun _ => h.step }

theorem Starting.fall (h : Starting past w s r) (hc : s.count = 1) :
    Sending past w 0 level (s.posedge false) (r.step (s.lines level)) := by
  have hfell : s.fell = true := h.fell_iff.mpr hc
  have hnext : s.nextState = .ofPulse 0 := by
    rw [nextState, h.state, hfell]
    rfl
  have hcount := count_posedge s
  have hclk : s.SCLK_int = false := SCLK_int_low h.SCLK_int (by omega)
  rw [h.step, hclk]
  exact
    { state := hnext
      wordCount := by
        rw [wordCount_posedge (by simp [hnext, I2CState.ofPulse])
          (by simp [hnext, I2CState.ofPulse]), h.wordCount]
        simp
      sck0 := by
        rw [sck0_posedge, hclk]
        exact (decide_eq_false (by omega)).symm
      sck1 := by
        rw [sck1_posedge, h.sck0]
        exact decide_eq_decide.mpr (by omega)
      scl := hclk.symm
      low := fun _ => rfl
      high := fun hhigh => by
        rw [sck0_posedge, hclk] at hhigh
        exact absurd hhigh Bool.false_ne_true
      transfer := by
        rw [if_neg (by omega)]
      transfers := rfl }

theorem Sending.SCLK_int (h : Sending past w j level s r) : s.SCLK_int = decide (512 ≤ s.count) :=
  SCLK_int_eq (sclkInhibit_ofPulse h.state)

theorem Sending.fell_iff (h : Sending past w j level s r) : s.fell = true ↔ s.count = 1 := by
  simp only [fell, h.sck0, h.sck1, Bool.and_eq_true, Bool.not_eq_true', decide_eq_false_iff_not,
    decide_eq_true_eq]
  omega

/-- The bit on the data line counts, and an acknowledgement does not. -/
theorem Sending.clock (h : Sending past w j level s r) (hj : j < 27) (hc : s.count = 0) :
    (Transfer.upTo (word w) j).clock (s.I2C_SDAT.getD level) = .upTo (word w) (j + 1) := by
  by_cases hack : j % 9 = 8
  · exact Transfer.clock_upTo_ack hack
  · have hword : s.wordCount = w := by
      rw [h.wordCount, hc, if_neg (by omega)]
    rw [I2C_SDAT_ofPulse h.state hj, if_neg hack, hword]
    exact Transfer.clock_upTo hack (by omega)

/-- What the receiver makes of a tick, if the codec leaves the line alone while the clock
is high. -/
theorem Sending.step (h : Sending past w j level s r) (hj : j < 27) (level' : Bool)
    (hlevel : s.sck0 = true → s.SCLK_int = true → level' = level) :
    r.step (s.lines level') =
      ⟨s.lines level', if s.SCLK_int then some (s.I2C_SDAT.getD level') else none,
        some (.upTo (word w) (if s.count ≤ 1 then j + 1 else j)), past ++ words w⟩ := by
  have hclk := h.SCLK_int
  by_cases hzero : s.count = 0
  · have hscl : s.sck0 = true := by simp [h.sck0, hzero]
    have hlow : s.SCLK_int = false := by simp [hclk, hzero]
    obtain ⟨hbit, -⟩ := h.high hscl
    rw [Receiver.step_fall (h.scl.trans hscl) hlow hbit, h.transfer, h.transfers, hlow, hzero]
    simp [h.clock hj hzero]
  · have htransfer : r.transfer = some (.upTo (word w) (if s.count ≤ 1 then j + 1 else j)) := by
      rw [h.transfer]
      split_ifs <;> first | rfl | omega
    rw [← htransfer, ← h.transfers]
    cases hhigh : s.SCLK_int
    · have hscl : s.sck0 = false := by
        rw [hclk, decide_eq_false_iff_not] at hhigh
        rw [h.sck0]
        exact decide_eq_false (by omega)
      rw [Receiver.step_low hhigh (h.low hscl), h.low hscl]
      rfl
    · cases hscl : s.sck0
      · exact Receiver.step_rise (h.scl.trans hscl) hhigh
      · obtain ⟨hbit, hsda⟩ := h.high hscl
        rw [Receiver.step_high (h.scl.trans hscl) hhigh
          (by rw [hsda, ← hlevel hscl hhigh]; rfl), hbit, ← hlevel hscl hhigh]
        rfl

/-- The data line of a pulse does not change. -/
theorem Sending.sdat_wait (h : Sending past w j level s r) (hj : j < 27) (hc : s.count ≠ 1) :
    (s.posedge false).I2C_SDAT = s.I2C_SDAT := by
  have hfell : s.fell = false := Bool.eq_false_iff.mpr (mt h.fell_iff.mp hc)
  have hnext := nextState_ofPulse_wait h.state hj hfell
  rw [I2C_SDAT_ofPulse hnext hj, I2C_SDAT_ofPulse h.state hj]
  by_cases hack : j % 9 = 8
  · rw [if_pos hack, if_pos hack]
  · have hword : (s.posedge false).wordCount = s.wordCount :=
      wordCount_posedge (hnext ▸ ofPulse_ne_dAck (by omega)) (hnext ▸ ofPulse_ne_bEnd)
    rw [hword]

theorem Sending.wordCount_wait (h : Sending past w j level s r) (hj : j < 27) (hc : s.count ≠ 1) :
    (s.posedge false).wordCount =
      if j = 26 ∧ (s.posedge false).count ≤ 1 then w + 1 else w := by
  have hfell : s.fell = false := Bool.eq_false_iff.mpr (mt h.fell_iff.mp hc)
  have hnext := nextState_ofPulse_wait h.state hj hfell
  have hlt : s.count < 1024 := s.i2cCounter.isLt
  rw [count_posedge]
  rcases Nat.lt_or_eq_of_le (Nat.le_of_lt_succ hj) with hlt26 | rfl
  · rw [wordCount_posedge (hnext ▸ ofPulse_ne_dAck hlt26) (hnext ▸ ofPulse_ne_bEnd),
      h.wordCount, if_neg (by omega), if_neg (by omega)]
  · rw [wordCount_posedge_ack h.state hnext, h.wordCount]
    split_ifs <;> omega

theorem Sending.wait {level' : Bool} (h : Sending past w j level s r) (hj : j < 27)
    (hc : s.count ≠ 1) (hlevel : s.sck0 = true → s.SCLK_int = true → level' = level) :
    Sending past w j level' (s.posedge false) (r.step (s.lines level')) := by
  have hfell : s.fell = false := Bool.eq_false_iff.mpr (mt h.fell_iff.mp hc)
  have hlt : s.count < 1024 := s.i2cCounter.isLt
  have hcount := count_posedge s
  have hclk := h.SCLK_int
  have hsdat := h.sdat_wait hj hc
  have hstep := h.step hj level' hlevel
  rw [hstep]
  exact
    { state := nextState_ofPulse_wait h.state hj hfell
      wordCount := h.wordCount_wait hj hc
      sck0 := by
        rw [sck0_posedge, hclk]
        exact decide_eq_decide.mpr (by omega)
      sck1 := by
        rw [sck1_posedge, h.sck0]
        exact decide_eq_decide.mpr (by omega)
      scl := rfl
      low := fun hlow => by
        rw [sck0_posedge] at hlow
        simp [hlow]
      high := fun hhigh => by
        rw [sck0_posedge] at hhigh
        rw [hsdat]
        exact ⟨by simp [hhigh], rfl⟩
      transfer := by
        have hsame : s.count ≤ 1 ↔ (s.posedge false).count = 1 := by omega
        simp only [hsame]
      transfers := rfl }

theorem Sending.fall {level' : Bool} (h : Sending past w j level s r) (hj : j < 26)
    (hc : s.count = 1) :
    Sending past w (j + 1) level' (s.posedge false) (r.step (s.lines level')) := by
  have hfell : s.fell = true := h.fell_iff.mpr hc
  have hnext : s.nextState = .ofPulse (j + 1) := by
    rw [nextState_ofPulse h.state hj, if_pos hfell]
  have hcount := count_posedge s
  have hclk : s.SCLK_int = false := SCLK_int_low h.SCLK_int (by omega)
  rw [h.step (by omega) level' fun _ hhigh => absurd (hclk.symm.trans hhigh) Bool.false_ne_true]
  exact
    { state := hnext
      wordCount := by
        rw [wordCount_posedge_low hclk (hnext ▸ ofPulse_ne_bEnd), h.wordCount,
          if_neg (by omega), if_neg (by omega)]
      sck0 := by
        rw [sck0_posedge, hclk]
        exact (decide_eq_false (by omega)).symm
      sck1 := by
        rw [sck1_posedge, h.sck0]
        exact decide_eq_decide.mpr (by omega)
      scl := rfl
      low := fun _ => by simp [hclk]
      high := fun hhigh => by
        rw [sck0_posedge, hclk] at hhigh
        exact absurd hhigh Bool.false_ne_true
      transfer := by
        change some (Transfer.upTo (word w) (if s.count ≤ 1 then j + 1 else j)) = _
        rw [if_pos hc.le, if_neg (by omega)]
      transfers := rfl }

/-- The last pulse ends the word. -/
theorem Sending.last {level' : Bool} (h : Sending past w 26 level s r) (hc : s.count = 1) :
    (w ≠ wordLimit → Opening past (w + 1) (s.posedge false) (r.step (s.lines level'))) ∧
      (w = wordLimit → Closing past (s.posedge false) (r.step (s.lines level'))) := by
  have hfell : s.fell = true := h.fell_iff.mpr hc
  have hword : s.wordCount = w + 1 := by rw [h.wordCount, hc]; rfl
  have hnext : s.nextState = if w = wordLimit then .bStop0 else .initialise := by
    have hstate : s.state = .dAck := h.state
    simp [nextState, hstate, hfell, hword]
  have hcount := count_posedge s
  have hclk : s.SCLK_int = false := SCLK_int_low h.SCLK_int (by omega)
  have hheard : (Receiver.mk (s.lines level') none (some (.upTo (word w) 27))
      (past ++ words w)).heard = past ++ words (w + 1) := by
    simp [Receiver.heard, Transfer.upTo_bits, words_succ]
  have hstep := h.step (by omega) level'
    fun _ hhigh => absurd (hclk.symm.trans hhigh) Bool.false_ne_true
  rw [hclk, if_pos hc.le] at hstep
  rw [hstep]
  constructor <;> intro hw
  · rw [if_neg hw] at hnext
    exact
      { state := hnext
        wordCount := by
          rw [wordCount_posedge_low hclk (by simp [hnext]), hword]
        count := by omega
        sck0 := hclk
        scl := hclk
        bit := rfl
        heard := hheard }
  · rw [if_pos hw] at hnext
    exact
      { state := hnext
        count := by omega
        scl := hclk
        bit := rfl
        heard := hw ▸ hheard }

theorem Closing.SCLK_int (h : Closing past s r) : s.SCLK_int = decide (512 ≤ s.count) :=
  SCLK_int_eq (by simp [sclkInhibit, h.state])

theorem Closing.wait (h : Closing past s r) (hc : s.count < 512) :
    Closing past (s.posedge false) (r.step (s.lines level)) := by
  have hclk : s.SCLK_int = false := SCLK_int_low h.SCLK_int (by omega)
  have hnext : s.nextState = .bStop0 := by simp [nextState, h.state, hclk]
  have hcount := count_posedge s
  rw [Receiver.step_low hclk h.bit]
  exact ⟨hnext, by omega, hclk, h.bit, h.heard⟩

theorem Closing.rise (h : Closing past s r) (hc : s.count = 512) :
    Stopping past (s.posedge false) (r.step (s.lines level)) := by
  have hclk : s.SCLK_int = true := SCLK_int_high h.SCLK_int (by omega)
  have hnext : s.nextState = .bStop1 := by simp [nextState, h.state, hclk]
  have hlines : s.lines level = ⟨true, false⟩ := by simp [lines, hclk, I2C_SDAT, h.state]
  rw [Receiver.step_rise h.scl hclk]
  exact ⟨hnext, hlines, h.heard⟩

theorem Stopping.step (h : Stopping past s r) :
    Closed past (s.posedge false) (r.step (s.lines level)) := by
  have hnext : s.nextState = .bEnd := by simp [nextState, h.state]
  have hlines : s.lines level = ⟨true, true⟩ := by
    simp [I2C.lines, SCLK_int, sclkInhibit, I2C_SDAT, h.state]
  refine ⟨hnext, ?_⟩
  rw [hlines, Receiver.step_stop h.lines, h.heard]

theorem Closed.step (h : Closed past s r) :
    Closed past (s.posedge false) (r.step (s.lines level)) := by
  have hnext : s.nextState = .bEnd := by simp [nextState, h.state]
  have hlines : s.lines level = ⟨true, true⟩ := by
    simp [I2C.lines, SCLK_int, sclkInhibit, I2C_SDAT, h.state]
  refine ⟨hnext, ?_⟩
  rw [hlines, h.receiver]
  rfl

/-! ## The whole configuration -/

/-- The ticks from the beginning of word `w` to the end, where the clock has fallen two
ticks ago. -/
def wordsLeft (w : ℕ) : ℕ := 28 * 1024 * (wordLimit + 1 - w) + 512

/-- The ticks to the next change of state by the clock. -/
def toEdge (c : ℕ) : ℕ := if c ≤ 1 then 2 - c else 1026 - c

/-- Where the configuration is that is over in `left` ticks. -/
inductive Stage (past : List (List Bool)) (left : ℕ) (level : Bool) (s : I2C) (r : Receiver) : Prop
  | opening (w : ℕ) (h : Opening past w s r) (hw : w ≤ wordLimit)
      (hleft : left + s.count = wordsLeft w + 2)
  | starting (w : ℕ) (h : Starting past w s r) (hw : w ≤ wordLimit)
      (hleft : left = toEdge s.count + 27 * 1024 + wordsLeft (w + 1))
  | sending (w j : ℕ) (h : Sending past w j level s r) (hw : w ≤ wordLimit) (hj : j < 27)
      (hleft : left = toEdge s.count + (26 - j) * 1024 + wordsLeft (w + 1))
  | closing (h : Closing past s r) (hleft : left + s.count = 514)
  | stopping (h : Stopping past s r) (hleft : left = 1)
  | closed (h : Closed past s r) (hleft : left = 0)

theorem wordsLeft_succ (hw : w ≤ wordLimit) : wordsLeft w = 28 * 1024 + wordsLeft (w + 1) := by
  simp only [wordsLeft, wordLimit] at *
  omega

/-- A tick takes the configuration one tick on. -/
theorem Stage.step {left : ℕ} (h : Stage past left level s r) (level' : Bool)
    (hlevel : s.sck0 = true → s.SCLK_int = true → level' = level) :
    Stage past (left - 1) level' (s.posedge false) (r.step (s.lines level')) := by
  have hcount := count_posedge s
  have hlt : s.count < 1024 := s.i2cCounter.isLt
  cases h with
  | opening w h hw hleft =>
    have hnext := wordsLeft_succ hw
    have hrange := h.count
    rcases Nat.lt_or_eq_of_le hrange with hc | hc
    · exact .opening w (h.wait hc) hw (by omega)
    · refine .starting w (h.rise hc) hw ?_
      rw [toEdge]
      split_ifs <;> omega
  | starting w h hw hleft =>
    have hrange := h.count
    by_cases hc : s.count = 1
    · refine .sending w 0 (h.fall hc) hw (by omega) ?_
      rw [toEdge] at hleft ⊢
      split_ifs at hleft ⊢ <;> omega
    · refine .starting w (h.wait hc) hw ?_
      rw [toEdge] at hleft ⊢
      split_ifs at hleft ⊢ <;> omega
  | sending w j h hw hj hleft =>
    by_cases hc : s.count = 1
    · rw [toEdge, if_pos hc.le] at hleft
      rcases Nat.lt_or_eq_of_le (Nat.le_of_lt_succ hj) with hj' | rfl
      · refine .sending w (j + 1) (h.fall hj' hc) hw (by omega) ?_
        rw [toEdge, if_neg (by omega)]
        omega
      · by_cases hlast : w = wordLimit
        · refine .closing ((h.last hc).2 hlast) ?_
          simp only [wordsLeft, hlast] at hleft
          omega
        · exact .opening (w + 1) ((h.last hc).1 hlast) (by omega) (by omega)
    · refine .sending w j (h.wait hj hc hlevel) hw hj ?_
      rw [toEdge] at hleft ⊢
      split_ifs at hleft ⊢ <;> omega
  | closing h hleft =>
    rcases Nat.lt_or_eq_of_le h.count with hc | hc
    · exact .closing (h.wait hc) (by omega)
    · exact .stopping (h.rise hc) (by omega)
  | stopping h hleft => exact .closed h.step (by omega)
  | closed h hleft => exact .closed h.step (by omega)

/-- The configuration is over when nothing is left. -/
theorem Stage.initOver_iff {left : ℕ} (h : Stage past left level s r) :
    s.initOver = true ↔ left = 0 := by
  cases h with
  | opening w h hw hleft =>
    have hrange := h.count
    simp only [initOver, h.state, wordsLeft] at *
    simp
    omega
  | starting w h hw hleft =>
    simp only [initOver, h.state]
    simp
    omega
  | sending w j h hw hj hleft =>
    have hend : s.initOver = false := by
      rw [initOver, h.state, I2CState.ofPulse]
      split_ifs <;> rfl
    rw [hend, hleft, toEdge]
    simp [wordsLeft]
  | closing h hleft =>
    have hrange := h.count
    simp only [initOver, h.state]
    simp
    omega
  | stopping h hleft => simp [initOver, h.state, hleft]
  | closed h hleft => simp [initOver, h.state, hleft]

/-- What has been heard are the words, in order. -/
theorem Stage.transfers_le {left : ℕ} (h : Stage past left level s r) :
    r.transfers <+: past ++ words (wordLimit + 1) := by
  have hwords {w : ℕ} (hw : w ≤ wordLimit) : past ++ words w <+: past ++ words (wordLimit + 1) :=
    (List.prefix_append_right_inj past).mpr (words_le (by omega))
  have hheard : r.transfers <+: r.heard := List.prefix_append _ _
  cases h with
  | opening w h hw => exact (h.heard ▸ hheard).trans (hwords hw)
  | starting w h hw =>
    by_cases hc : s.count = 513
    · exact ((h.first hc).2 ▸ hheard).trans (hwords hw)
    · rw [h.later hc]
      exact hwords hw
  | sending w j h hw =>
    rw [h.transfers]
    exact hwords hw
  | closing h => exact h.heard ▸ hheard
  | stopping h => exact h.heard ▸ hheard
  | closed h =>
    have hall : r.transfers = past ++ words (wordLimit + 1) := congrArg _ h.receiver
    exact hall ▸ List.prefix_rfl

/-- At the end all of them have been heard, and nothing else. -/
theorem Stage.receiver_of_over (h : Stage past 0 level s r) :
    r = ⟨⟨true, true⟩, none, none, past ++ words (wordLimit + 1)⟩ := by
  have hover := h.initOver_iff.mpr rfl
  cases h with
  | opening w h => simp [initOver, h.state] at hover
  | starting w h => simp [initOver, h.state] at hover
  | sending w j h hw hj hleft => simp [wordsLeft] at hleft
  | closing h => simp [initOver, h.state] at hover
  | stopping h => simp [initOver, h.state] at hover
  | closed h => exact h.receiver

end I2C

/-! ## Runs -/

/-- The interface after `n` ticks. -/
def i2cRun (s : I2C) (reset : ℕ → Bool) (n : ℕ) : I2C := Driven.run I2C.posedge s reset n

/-- A receiver on its lines. -/
def receiverRun (s : I2C) (reset level : ℕ → Bool) (r : Receiver) (n : ℕ) : Receiver :=
  Driven.run Receiver.step r (fun k => (i2cRun s reset k).lines (level k)) n

/-- The codec changes what it puts on the data line only while the clock is low. -/
def Steady (s : I2C) (reset level : ℕ → Bool) : Prop :=
  ∀ n, (i2cRun s reset n).SCLK_int = true → (i2cRun s reset (n + 1)).SCLK_int = true →
    level (n + 1) = level n

section Run

variable {s : I2C} {reset level : ℕ → Bool} {r : Receiver} {m : ℕ}

theorem i2cRun_succ (n : ℕ) :
    i2cRun s reset (n + 1) = (i2cRun s reset n).posedge (reset n) := rfl

theorem receiverRun_succ (n : ℕ) :
    receiverRun s reset level r (n + 1) =
      (receiverRun s reset level r n).step ((i2cRun s reset n).lines (level n)) := rfl

theorem tidy_run (h : r.Tidy) (n : ℕ) : (receiverRun s reset level r n).Tidy :=
  Driven.run_invariant h (fun _ l h => h.step l) n

/-- The configuration goes its way from the tick after the first. -/
theorem stage_run (h : r.Tidy) (hstart : i2cRun s reset m = .onReset)
    (hquiet : ∀ n, m ≤ n → reset n = false) (hsteady : Steady s reset level) (n : ℕ) :
    I2C.Stage (receiverRun s reset level r (m + 1)).heard (I2C.wordsLeft 0 + 1 - n) (level (m + n))
      (i2cRun s reset (m + 1 + n)) (receiverRun s reset level r (m + 1 + n)) := by
  induction n with
  | zero =>
    have hfirst : i2cRun s reset (m + 1) = I2C.onReset.posedge false := by
      rw [i2cRun_succ, hstart, hquiet m le_rfl]
    have hreceiver : receiverRun s reset level r (m + 1) =
        (receiverRun s reset level r m).step ((i2cRun s reset m).lines (level m)) := rfl
    rw [hstart] at hreceiver
    have hlines := congrArg Receiver.lines hreceiver
    rw [Receiver.step_lines] at hlines
    have hscl : (receiverRun s reset level r (m + 1)).lines.scl = false := by rw [hlines]; rfl
    rw [hfirst]
    refine .opening 0 ⟨rfl, rfl, ?_, rfl, hscl, tidy_run h _ hscl, ?_⟩ ?_ ?_
    · decide
    · simp [words]
    · decide
    · decide
  | succ n ih =>
    have hlevel : m + (n + 1) = m + 1 + n := by omega
    have hstep := ih.step (level (m + 1 + n)) fun hscl hhigh => by
      have hprev := hsteady (m + n)
      have hsucc : i2cRun s reset (m + n + 1) = (i2cRun s reset (m + n)).posedge (reset (m + n)) :=
        rfl
      rw [Nat.add_assoc m n 1, hlevel] at hprev hsucc
      rw [hquiet (m + n) (by omega)] at hsucc
      refine hprev ?_ hhigh
      rwa [hsucc] at hscl
    have hsucc : i2cRun s reset (m + 1 + n + 1) = (i2cRun s reset (m + 1 + n)).posedge false := by
      rw [i2cRun_succ, hquiet (m + 1 + n) (by omega)]
    rw [hlevel, Nat.sub_add_eq, ← Nat.add_assoc (m + 1), hsucc, receiverRun_succ]
    exact hstep

/-- When `INIT_FINISH` is high. -/
theorem initOver_iff (hstart : i2cRun s reset m = .onReset)
    (hquiet : ∀ n, m ≤ n → reset n = false) (n : ℕ) :
    (i2cRun s reset (m + n)).initOver = true ↔ 258562 ≤ n := by
  cases n with
  | zero =>
    rw [Nat.add_zero, hstart]
    decide
  | succ n =>
    have hsteady : Steady s reset fun _ => false := fun _ _ _ => rfl
    have htidy : (Receiver.listening ⟨false, false⟩).Tidy := Receiver.tidy_listening
    have hstage := stage_run htidy hstart hquiet hsteady n
    rw [Nat.add_comm n 1, ← Nat.add_assoc, hstage.initOver_iff]
    simp only [I2C.wordsLeft, wordLimit]
    omega

end Run

/-- From `Reset` or the power-up on the transfers that are over at the codec are, after those
heard before, the nine register writes in their order as far as they have come, and nothing
else. `INIT_FINISH` rises after 258562 ticks, when all nine are over and no transfer is under
way, and stays. -/
theorem configures (s : I2C) (reset level : ℕ → Bool) (l : Lines) (m : ℕ)
    (hstart : i2cRun s reset m = .onReset) (hquiet : ∀ n, m ≤ n → reset n = false)
    (hsteady : Steady s reset level) (n : ℕ) :
    (receiverRun s reset level (.listening l) (m + 1 + n)).transfers <+:
        (receiverRun s reset level (.listening l) (m + 1)).heard ++ words (wordLimit + 1) ∧
      ((i2cRun s reset (m + n)).initOver = true ↔ 258562 ≤ n) ∧
      ((i2cRun s reset (m + 1 + n)).initOver = true →
        (receiverRun s reset level (.listening l) (m + 1 + n)).transfers =
            (receiverRun s reset level (.listening l) (m + 1)).heard ++ words (wordLimit + 1) ∧
          (receiverRun s reset level (.listening l) (m + 1 + n)).transfer = none) := by
  have hstage := stage_run (r := .listening l) Receiver.tidy_listening hstart hquiet hsteady n
  refine ⟨hstage.transfers_le, initOver_iff hstart hquiet n, fun hend => ?_⟩
  have hleft : I2C.wordsLeft 0 + 1 - n = 0 := hstage.initOver_iff.mp hend
  rw [hleft] at hstage
  rw [hstage.receiver_of_over]
  exact ⟨rfl, rfl⟩

/-- From the power-up on, with every byte acknowledged. -/
theorem configures_powerUp :
    (receiverRun .onReset (fun _ => false) (fun _ => false) (.listening ⟨true, true⟩)
      258562).transfers = words 9 := by
  have h := configures .onReset (fun _ => false) (fun _ => false) ⟨true, true⟩ 0 rfl
    (fun _ _ => rfl) (fun _ _ _ => rfl)
  have hover := (h 258562).2.1.mpr le_rfl
  rw [Nat.zero_add] at hover
  exact ((h 258561).2.2 hover).1

end AudioInterface
