-- SUMMARY: The samples: once the codec is configured, what it reads after each of its sample clocks is the sample, if the one before has been answered, and silence if not.
import PokemonSVE.Audio.Configuration
import PokemonSVE.Rtl.StateAudio

/-!
# Samples

`state_audio` and `audio_interface` as `lab8.sv` connects them, with `dataOver` between them.
The codec drives the two clocks, `AUD_BCLK` for each bit and `AUD_DACLRCK` for each sample.
-/

namespace Audio

open AudioInterface (I2C Dac)
open TwoWire (msbFirst)

structure System where
  state : StateAudio.State
  i2c : I2C
  dac : Dac
  deriving DecidableEq, Repr

/-- The inputs of one tick of `Clk`. -/
structure In where
  LC : BitVec 16
  RC : BitVec 16
  AUD_BCLK : Bool
  AUD_DACLRCK : Bool
  Reset_h : Bool
  Reset : Bool
  deriving DecidableEq, Repr

/-- The sample, left and right. -/
def In.sample (i : In) : BitVec 32 := i.LC ++ i.RC

namespace System

/-- What `audio_interface` reads. -/
def dacIn (s : System) (i : In) : AudioInterface.DacIn where
  LDATA := StateAudio.data s.state i.LC
  RDATA := StateAudio.data s.state i.RC
  AUD_BCLK := i.AUD_BCLK
  AUD_DACLRCK := i.AUD_DACLRCK

/-- A tick of `Clk`. `RUN` is constant. -/
def posedge (s : System) (i : In) : System where
  state := StateAudio.posedge s.state i.Reset_h true s.i2c.initOver s.dac.dataOver
  i2c := s.i2c.posedge i.Reset
  dac := s.dac.posedge i.Reset (s.dacIn i)

/-- What a load finds. -/
def loaded (s : System) (i : In) : BitVec 32 := (s.dacIn i).LDATA ++ (s.dacIn i).RDATA

theorem loaded_write {s : System} {i : In} (h : s.state = .WRITE) : s.loaded i = i.sample := by
  simp [loaded, dacIn, StateAudio.data, h, In.sample]

theorem loaded_done {s : System} {i : In} (h : s.state = .DONE) : s.loaded i = 0#32 := by
  simp [loaded, dacIn, StateAudio.data, h]

end System

/-- The registers as the device powers them up. -/
def powerUp : System where
  state := .HOLD
  i2c := .onReset
  dac := ⟨false, false, false, false, false, 0#32, 0#5⟩

/-- The state after `n` ticks. -/
def run (s : System) (ins : ℕ → In) (n : ℕ) : System := Driven.run System.posedge s ins n

def NoReset (ins : ℕ → In) : Prop := ∀ n, (ins n).Reset_h = false ∧ (ins n).Reset = false

/-- A pin has risen since the tick before. -/
def rises (pin : In → Bool) (ins : ℕ → In) (n : ℕ) : Bool := pin (ins n) && !pin (ins (n - 1))

/-- The bits that the codec has read since `AUD_DACLRCK` rose last: it reads `AUD_DACDAT` when
`AUD_BCLK` rises at the pin, which is before the edge of `Clk` that samples the pin. -/
def bitsRead (s : System) (ins : ℕ → In) : ℕ → List Bool
  | 0 => []
  | n + 1 =>
    if rises In.AUD_DACLRCK ins (n + 1) then []
    else if rises In.AUD_BCLK ins (n + 1) then
      bitsRead s ins n ++ [(run s ins (n + 1)).dac.AUD_DACDAT]
    else bitsRead s ins n

/-- When `AUD_BCLK` has fallen, it stays low for two ticks. -/
def LowPhases (ins : ℕ → In) : Prop :=
  ∀ n, (ins n).AUD_BCLK = true → (ins (n + 1)).AUD_BCLK = false → (ins (n + 2)).AUD_BCLK = false

/-- Between any load before and the one in tick `b`, with a tick to spare, `AUD_BCLK` rises. Both
as the FPGA sees them, a tick after the pins. -/
def Answered (s : System) (ins : ℕ → In) (b : ℕ) : Prop :=
  ∀ a < b, (run s ins a).dac.load = true →
    ∃ k, a < k ∧ k + 1 < b ∧ (run s ins k).dac.bclkRose = true

section Run

variable {s : System} {ins : ℕ → In} {n b t : ℕ}

theorem run_succ (n : ℕ) : run s ins (n + 1) = (run s ins n).posedge (ins n) := rfl

section Steps

variable (hreset : NoReset ins)
include hreset

theorem state_succ (n : ℕ) :
    (run s ins (n + 1)).state = StateAudio.nextState (run s ins n).state true
      (run s ins n).i2c.initOver (run s ins n).dac.dataOver := by
  rw [run_succ, System.posedge, StateAudio.posedge, (hreset n).1, if_neg Bool.false_ne_true]

theorem dac_succ (n : ℕ) :
    (run s ins (n + 1)).dac =
      (run s ins n).dac.posedge false ((run s ins n).dacIn (ins n)) := by
  rw [run_succ, System.posedge, (hreset n).2]

/-- A load is a rise of `AUD_DACLRCK` at the pin, one tick later. -/
theorem load_succ (hn : 0 < n) :
    (run s ins (n + 1)).dac.load = rises In.AUD_DACLRCK ins n := by
  obtain ⟨m, rfl⟩ : ∃ m, n = m + 1 := ⟨n - 1, by omega⟩
  rw [dac_succ hreset (m + 1), dac_succ hreset m]
  rfl

theorem bck0_succ (n : ℕ) : (run s ins (n + 1)).dac.bck0 = (ins n).AUD_BCLK := by
  rw [dac_succ hreset]
  rfl

theorem bck1_succ (n : ℕ) : (run s ins (n + 1)).dac.bck1 = (run s ins n).dac.bck0 := by
  rw [dac_succ hreset]
  rfl

theorem i2c_run (n : ℕ) :
    (run s ins n).i2c = AudioInterface.i2cRun s.i2c (fun _ => false) n := by
  induction n with
  | zero => rfl
  | succ n ih => rw [run_succ, System.posedge, (hreset n).2, ih]; rfl

/-! ## The handshake -/

theorem flag_succ (n : ℕ) :
    (run s ins (n + 1)).dac.flag1 = true ↔ (run s ins n).dac.load = true ∨
      (run s ins n).dac.flag1 = true ∧ (run s ins n).dac.bclkRose = false := by
  rw [dac_succ hreset]
  simp only [Dac.posedge, Bool.false_eq_true, if_false]
  cases (run s ins n).dac.load <;> cases (run s ins n).dac.flag1 <;>
    cases (run s ins n).dac.bclkRose <;> simp

/-- `dataOver` is high while no rise of `AUD_BCLK` has answered a load. -/
theorem flag_iff (hflag : s.dac.flag1 = false) (n : ℕ) :
    (run s ins n).dac.flag1 = true ↔ ∃ a < n, (run s ins a).dac.load = true ∧
      ∀ k, a < k → k < n → (run s ins k).dac.bclkRose = false := by
  induction n with
  | zero => simp [run, hflag]
  | succ n ih =>
    rw [flag_succ hreset, ih]
    constructor
    · rintro (hload | ⟨⟨a, han, hload, hquiet⟩, hrose⟩)
      · exact ⟨n, n.lt_succ_self, hload, fun k hk hkn => by omega⟩
      · refine ⟨a, by omega, hload, fun k hk hkn => ?_⟩
        rcases Nat.lt_or_eq_of_le (Nat.le_of_lt_succ hkn) with hlt | rfl
        · exact hquiet k hk hlt
        · exact hrose
    · rintro ⟨a, han, hload, hquiet⟩
      rcases Nat.lt_or_eq_of_le (Nat.le_of_lt_succ han) with hlt | rfl
      · exact .inr ⟨⟨a, hlt, hload, fun k hk hkn => hquiet k hk (by omega)⟩,
          hquiet n hlt n.lt_succ_self⟩
      · exact .inl hload

/-- After the configuration samples are handed over. -/
theorem writing (hi2c : s.i2c = .onReset) (hn : 258562 ≤ n) :
    (run s ins (n + 1)).state = .WRITE ∨ (run s ins (n + 1)).state = .DONE := by
  have hover : (run s ins n).i2c.initOver = true := by
    have hstart : AudioInterface.i2cRun s.i2c (fun _ => false) 0 = .onReset := hi2c
    have hiff := AudioInterface.initOver_iff hstart (fun _ _ => rfl) n
    rw [Nat.zero_add] at hiff
    rw [i2c_run hreset]
    exact hiff.mpr hn
  obtain ⟨m, rfl⟩ : ∃ m, n = m + 1 := ⟨n - 1, by omega⟩
  have hhold : (run s ins (m + 1)).state ≠ .HOLD := by
    rw [state_succ hreset]
    cases (run s ins m).state <;> simp only [StateAudio.nextState] <;> split_ifs <;> simp
  rw [state_succ hreset, hover]
  cases hstate : (run s ins (m + 1)).state
  · exact absurd hstate hhold
  · exact .inl rfl
  · simp only [StateAudio.nextState]
    split_ifs <;> simp
  · simp only [StateAudio.nextState]
    split_ifs <;> simp

/-- A load finds the sample exactly if the loads before have been answered. -/
theorem write_iff (hi2c : s.i2c = .onReset) (hflag : s.dac.flag1 = false) (hb : 258563 < b)
    (hload : (run s ins b).dac.load = true) :
    (run s ins b).state = .WRITE ↔ Answered s ins b := by
  obtain ⟨c, rfl⟩ : ∃ c, b = c + 1 + 1 := ⟨b - 2, by omega⟩
  have hwrite :
      (run s ins (c + 1 + 1)).state = .WRITE ↔ ¬ (run s ins (c + 1)).dac.flag1 = true := by
    rw [state_succ hreset (c + 1)]
    rcases writing hreset hi2c (n := c) (by omega) with hs | hs <;>
      cases hf : (run s ins (c + 1)).dac.flag1 <;>
      simp [StateAudio.nextState, Dac.dataOver, hs, hf]
  -- Two loads do not follow each other at once.
  have hbefore : (run s ins (c + 1)).dac.load = false := by
    rw [dac_succ hreset (c + 1)] at hload
    rw [Bool.eq_false_iff]
    intro hload'
    simp only [Dac.load, Dac.posedge, Bool.false_eq_true, if_false, Bool.and_eq_true]
      at hload hload'
    simp [hload'.1] at hload
  rw [hwrite, flag_iff hreset hflag]
  constructor
  · intro hnone a ha hloada
    by_contra hno
    rcases Nat.lt_or_eq_of_le (Nat.le_of_lt_succ ha) with hlt | rfl
    · refine hnone ⟨a, hlt, hloada, fun k hk hkc => ?_⟩
      rw [Bool.eq_false_iff]
      exact fun hrose => hno ⟨k, hk, by omega, hrose⟩
    · exact absurd (hbefore.symm.trans hloada) Bool.false_ne_true
  · rintro hall ⟨a, ha, hloada, hquiet⟩
    obtain ⟨k, hk, hkc, hrose⟩ := hall a (by omega) hloada
    exact absurd ((hquiet k hk (by omega)).symm.trans hrose) Bool.false_ne_true

end Steps

end Run

/-! ## The bits -/

/-- The codec had read `bits` since `v` was loaded, a tick before the registers are `d`. A rise
of `AUD_BCLK` is ahead of `Bcount` until its fall has been counted. -/
structure Shifting (v : BitVec 32) (d : Dac) (bits : List Bool) : Prop where
  LRDATA : d.LRDATA = v
  Bcount : d.Bcount = 31#5 - BitVec.ofNat 5 bits.length + if d.bck0 || d.bck1 then 1#5 else 0#5
  bits : bits.take 32 = (msbFirst v).take bits.length

section Shift

variable {v : BitVec 32} {d : Dac} {bits : List Bool} {i : AudioInterface.DacIn}

theorem shifting_load (hload : d.load = true) (hlow : d.bck0 = false)
    (hlow' : i.AUD_BCLK = false) :
    Shifting (i.LDATA ++ i.RDATA) (d.posedge false i) [] where
  LRDATA := by simp [Dac.posedge, hload]
  Bcount := by simp [Dac.posedge, hload, hlow, hlow']
  bits := rfl

/-- The bit at a rise of the pin is the next one, if the fall before has been counted. -/
theorem Shifting.read (h : Shifting v d bits) (hlow : d.bck0 = false) (hlow' : d.bck1 = false) :
    (bits ++ [d.AUD_DACDAT]).take 32 = (msbFirst v).take (bits.length + 1) := by
  have hlen : (msbFirst v).length = 32 := TwoWire.length_msbFirst
  have hbits := h.bits
  rcases Nat.lt_or_ge bits.length 32 with hlt | hge
  · have hcount : d.Bcount.toNat = 31 - bits.length := by
      rw [h.Bcount, hlow, hlow']
      simp
      omega
    have hnext : bits.length < (msbFirst v).length := by rwa [hlen]
    have hbit : d.AUD_DACDAT = (msbFirst v)[bits.length] := by
      rw [Dac.AUD_DACDAT, h.LRDATA, hcount, TwoWire.getElem_msbFirst hnext, BitVec.getMsbD,
        decide_eq_true hlt, Bool.true_and]
    rw [List.take_of_length_le hlt.le] at hbits
    have hlast : (bits ++ [d.AUD_DACDAT]).length ≤ 32 := by
      rw [List.length_append, List.length_singleton]
      omega
    rw [List.take_of_length_le hlast, hbit, ← List.take_append_getElem hnext, ← hbits]
  · rw [List.take_append_of_le_length hge, hbits, List.take_of_length_le (by omega),
      List.take_of_length_le (by omega)]

theorem Bcount_posedge (hload : d.load = false) :
    (d.posedge false i).Bcount = if !d.bck0 && d.bck1 then d.Bcount - 1#5 else d.Bcount := by
  cases h0 : d.bck0 <;> cases h1 : d.bck1 <;>
    simp [Dac.posedge, hload, Dac.bclkRose, Dac.bclkFell, h0, h1]

/-- `hslow`: at a rise of the pin the fall before has been counted. -/
theorem Shifting.step (h : Shifting v d bits) (hload : d.load = false)
    (hslow : d.bck1 = true → d.bck0 = false → i.AUD_BCLK = false) :
    Shifting v (d.posedge false i)
      (if i.AUD_BCLK && !d.bck0 then bits ++ [d.AUD_DACDAT] else bits) where
  LRDATA := by simp [Dac.posedge, hload, h.LRDATA]
  Bcount := by
    have hbck0 : (d.posedge false i).bck0 = i.AUD_BCLK := rfl
    have hbck1 : (d.posedge false i).bck1 = d.bck0 := rfl
    rw [Bcount_posedge hload, h.Bcount, hbck0, hbck1]
    cases h0 : d.bck0 with
    | true => simp
    | false =>
      cases h1 : d.bck1 with
      | true =>
        -- The fall is counted.
        rw [hslow h1 h0]
        simp only [Bool.not_false, Bool.and_true, Bool.or_true, Bool.or_false, Bool.false_eq_true,
          if_true, if_false, BitVec.add_sub_cancel, BitVec.add_zero]
      | false =>
        cases i.AUD_BCLK with
        | true =>
          simp only [Bool.not_false, Bool.and_false, Bool.and_true, Bool.or_false,
            Bool.false_eq_true, if_true, if_false, List.length_append, List.length_singleton]
          bv_omega
        | false => simp
  bits := by
    split_ifs with hrose
    · rw [Bool.and_eq_true, Bool.not_eq_true'] at hrose
      have hcounted : d.bck1 = false := by
        rw [Bool.eq_false_iff]
        exact fun h1 => absurd ((hslow h1 hrose.2).symm.trans hrose.1) Bool.false_ne_true
      rw [h.read hrose.2 hcounted]
      simp
    · exact h.bits

end Shift

section Heard

variable {s : System} {ins : ℕ → In} {c t : ℕ}

theorem bitsRead_succ (n : ℕ) :
    bitsRead s ins (n + 1) =
      if rises In.AUD_DACLRCK ins (n + 1) then []
      else if rises In.AUD_BCLK ins (n + 1) then
        bitsRead s ins n ++ [(run s ins (n + 1)).dac.AUD_DACDAT]
      else bitsRead s ins n := rfl

theorem bitsRead_of_rises (h : rises In.AUD_DACLRCK ins c = true) : bitsRead s ins c = [] := by
  cases c with
  | zero => rfl
  | succ c => rw [bitsRead_succ, if_pos h]

/-- From a rise of `AUD_DACLRCK` to the next the codec reads what was loaded. -/
theorem shifting_run (hreset : NoReset ins) (hslow : LowPhases ins) (hc : 0 < c)
    (hload : rises In.AUD_DACLRCK ins c = true) (hlow : (ins c).AUD_BCLK = false)
    (hlow' : (ins (c + 1)).AUD_BCLK = false) (hct : c + 1 ≤ t)
    (hnext : ∀ k, c < k → k ≤ t → rises In.AUD_DACLRCK ins k = false) :
    Shifting ((run s ins (c + 1)).loaded (ins (c + 1))) (run s ins (t + 1)).dac
      (bitsRead s ins t) := by
  refine Driven.hold_while
    (P := fun k => Shifting ((run s ins (c + 1)).loaded (ins (c + 1)))
      (run s ins (k + 1)).dac (bitsRead s ins k))
    (G := fun k => k < t) ?_ (fun k hk hkt h => ?_) t hct fun k _ hkt => hkt
  · have hquiet : rises In.AUD_BCLK ins (c + 1) = false := by simp [rises, hlow']
    rw [bitsRead_succ, hnext (c + 1) c.lt_succ_self hct, hquiet, if_neg Bool.false_ne_true,
      if_neg Bool.false_ne_true, bitsRead_of_rises hload, dac_succ hreset]
    refine shifting_load (i := (run s ins (c + 1)).dacIn (ins (c + 1))) ?_ ?_ hlow'
    · rw [load_succ hreset hc, hload]
    · rw [bck0_succ hreset, hlow]
  · have hnone : (run s ins (k + 1)).dac.load = false := by
      rw [load_succ hreset (by omega)]
      exact hnext k hk hkt.le
    have hrose : rises In.AUD_BCLK ins (k + 1) =
        ((ins (k + 1)).AUD_BCLK && !(run s ins (k + 1)).dac.bck0) := by
      rw [bck0_succ hreset]
      rfl
    have hcounted : (run s ins (k + 1)).dac.bck1 = true → (run s ins (k + 1)).dac.bck0 = false →
        (ins (k + 1)).AUD_BCLK = false := by
      obtain ⟨m, rfl⟩ : ∃ m, k = m + 1 := ⟨k - 1, by omega⟩
      rw [bck1_succ hreset, bck0_succ hreset, bck0_succ hreset]
      exact hslow m
    rw [bitsRead_succ, hnext (k + 1) (by omega) hkt, if_neg Bool.false_ne_true, hrose,
      dac_succ hreset (k + 1)]
    exact h.step (i := (run s ins (k + 1)).dacIn (ins (k + 1))) hnone hcounted

end Heard

/-- After the configuration, if `AUD_DACLRCK` rises two ticks ahead of `AUD_BCLK`, the codec
reads, up to the next rise, the bits of the sample, the most significant one first, if the
loads before have been answered. If not, it reads zeros. -/
theorem samples_heard (s : System) (ins : ℕ → In) (hreset : NoReset ins)
    (hi2c : s.i2c = .onReset) (hflag : s.dac.flag1 = false) (hslow : LowPhases ins)
    (c t : ℕ) (hc : 258562 < c) (hload : rises In.AUD_DACLRCK ins c = true)
    (hlow : (ins c).AUD_BCLK = false) (hlow' : (ins (c + 1)).AUD_BCLK = false) (hct : c ≤ t)
    (hnext : ∀ k, c < k → k ≤ t → rises In.AUD_DACLRCK ins k = false) :
    (Answered s ins (c + 1) →
        (bitsRead s ins t).take 32 <+: msbFirst (ins (c + 1)).sample) ∧
      (¬ Answered s ins (c + 1) → (bitsRead s ins t).take 32 <+: msbFirst 0#32) := by
  rcases Nat.eq_or_lt_of_le hct with rfl | hct
  · simp [bitsRead_of_rises hload]
  have hfound : (run s ins (c + 1)).dac.load = true := by
    rw [load_succ hreset (by omega), hload]
  have hwrite := write_iff hreset hi2c hflag (by omega) hfound
  have hbits := (shifting_run (s := s) hreset hslow (by omega) hload hlow hlow' hct hnext).bits
  have hdone : (run s ins (c + 1)).state ≠ .WRITE → (run s ins (c + 1)).state = .DONE :=
    (writing hreset hi2c (by omega)).resolve_left
  constructor
  · intro hanswered
    rw [hbits, System.loaded_write (hwrite.mpr hanswered)]
    exact List.take_prefix _ _
  · intro hnot
    rw [hbits, System.loaded_done (hdone (mt hwrite.mp hnot))]
    exact List.take_prefix _ _

/-- One sample, after the configuration, with a bit every four ticks. -/
def oneSample (n : ℕ) : In where
  LC := 0x1234#16
  RC := 0x5678#16
  AUD_BCLK := decide (2 ≤ n % 4)
  AUD_DACLRCK := n == 258600
  Reset_h := false
  Reset := false

theorem noReset_oneSample : NoReset oneSample := fun _ => ⟨rfl, rfl⟩

theorem lowPhases_oneSample : LowPhases oneSample := fun n h h' => by
  simp only [oneSample, decide_eq_true_eq, decide_eq_false_iff_not] at h h' ⊢
  omega

theorem rises_oneSample {n : ℕ} :
    rises In.AUD_DACLRCK oneSample n = true ↔ n = 258600 := by
  simp [rises, oneSample]
  omega

/-- No load comes before the one of the sample. -/
theorem answered_oneSample : Answered powerUp oneSample 258601 := fun a ha hload => by
  match a with
  | 0 => exact absurd hload (by decide)
  | 1 => exact absurd hload (by decide)
  | a + 2 =>
    rw [load_succ noReset_oneSample (Nat.succ_pos a), rises_oneSample] at hload
    omega

/-- The codec reads the sample. -/
theorem samples_heard_first :
    (bitsRead powerUp oneSample 258800).take 32 <+: msbFirst 0x12345678#32 := by
  have hnext (k : ℕ) (hk : 258600 < k) : rises In.AUD_DACLRCK oneSample k = false := by
    rw [Bool.eq_false_iff, Ne, rises_oneSample]
    omega
  exact (samples_heard powerUp oneSample noReset_oneSample rfl rfl lowPhases_oneSample 258600
    258800 (by omega) (rises_oneSample.mpr rfl) rfl rfl (by omega) fun k hk _ => hnext k hk).1
    answered_oneSample

end Audio
