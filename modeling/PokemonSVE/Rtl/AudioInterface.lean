-- SUMMARY: The entity `audio_interface`: the state machine that writes the registers of the codec over I2C, and the shift register that sends it the samples.
import Mathlib.Data.Nat.Basic

/-!
# audio_interface

The processes of `audio_interface.vhd`, clocked by `rising_edge(Clk)`: those of the I2C
interface, which read no other input than `Reset`, and those that send the samples.
-/

namespace AudioInterface

/-! ## Registers of the codec -/

def wordLimit : ℕ := 8

/-- The address of the device. -/
def SCI_ADDR : BitVec 8 := 0b00110100#8

def SCI_REG_ROM : List (BitVec 8) :=
  [0x12#8, 0x01#8, 0x05#8, 0x08#8, 0x0A#8, 0x0C#8, 0x0E#8, 0x10#8, 0x12#8]

def SCI_DAT_ROM : List (BitVec 8) :=
  [0b00000000#8, 0b00011111#8, 0b11110101#8, 0b11010000#8, 0b00000101#8, 0b01100000#8,
    0b01000011#8, 0b00000000#8, 0b00000001#8]

/-- An entry of a ROM. -/
def entry (rom : List (BitVec 8)) (wordCount : ℕ) : BitVec 8 := rom.getD wordCount 0#8

/-! ## The I2C interface -/

/-- `initialise` is the state of almost this name. `b k`, `a k` and `d k` stand for `b0` to
`b7`, `a0` to `a7` and `d0` to `d7`. -/
inductive I2CState where
  | initialise
  | start
  | b (k : Fin 8)
  | bAck
  | a (k : Fin 8)
  | aAck
  | d (k : Fin 8)
  | dAck
  | bStop0
  | bStop1
  | bEnd
  deriving DecidableEq, Repr

structure I2C where
  i2cCounter : BitVec 10
  sck0 : Bool
  sck1 : Bool
  wordCount : ℕ
  state : I2CState
  deriving DecidableEq, Repr

namespace I2C

variable (s : I2C)

/-- The process `outputs_i2c`, one output each. -/
def sclkInhibit : Bool :=
  match s.state with
  | .bStop1 | .bEnd => true
  | _ => false

def countEn : Bool :=
  match s.state with
  | .dAck => true
  | _ => false

def initOver : Bool :=
  match s.state with
  | .bEnd => true
  | _ => false

/-- `none` is `'Z'`. -/
def I2C_SDAT : Option Bool :=
  match s.state with
  | .initialise => some true
  | .start => some false
  | .b k => some (SCI_ADDR.getLsbD (7 - k.val))
  | .bAck => none
  | .a k => some ((entry SCI_REG_ROM s.wordCount).getLsbD (7 - k.val))
  | .aAck => none
  | .d k => some ((entry SCI_DAT_ROM s.wordCount).getLsbD (7 - k.val))
  | .dAck => none
  | .bStop0 => some false
  | .bStop1 => some true
  | .bEnd => some true

/-- `SCLK_int`, which is also `I2C_SCLK`. -/
def SCLK_int : Bool := s.i2cCounter.getLsbD 9 || s.sclkInhibit

/-- `sck0 = '0' and sck1 = '1'`: the clock has fallen. -/
def fell : Bool := !s.sck0 && s.sck1

def wordReset : Bool :=
  match s.state with
  | .bEnd => true
  | _ => false

/-- The process `next_state_i2c`. -/
def nextState : I2CState :=
  match s.state with
  | .initialise => if s.SCLK_int then .start else .initialise
  | .start => if s.fell then .b 0 else .start
  | .b k => if s.fell then (if k = 7 then .bAck else .b (k + 1)) else .b k
  | .bAck => if s.fell then .a 0 else .bAck
  | .a k => if s.fell then (if k = 7 then .aAck else .a (k + 1)) else .a k
  | .aAck => if s.fell then .d 0 else .aAck
  | .d k => if s.fell then (if k = 7 then .dAck else .d (k + 1)) else .d k
  | .dAck =>
    if s.fell then (if s.wordCount = wordLimit + 1 then .bStop0 else .initialise) else .dAck
  | .bStop0 => if s.SCLK_int then .bStop1 else .bStop0
  | .bStop1 => .bEnd
  | .bEnd => .bEnd

/-- The values that `Reset` loads. -/
def onReset : I2C where
  i2cCounter := 0#10
  sck0 := false
  sck1 := false
  wordCount := 0
  state := .initialise

/-- The registers clocked by `Clk` after a rising edge. -/
def clocked : I2C where
  i2cCounter := s.i2cCounter + 1#10
  sck0 := s.SCLK_int
  sck1 := s.sck0
  wordCount := s.wordCount
  state := s.nextState

/-- The process `word_counter` after that edge: `wordCount` is clocked by the falling edge
of `SCLK_int` that it may give, and reset by `wordReset`. -/
def wordCountNext : ℕ :=
  if s.clocked.wordReset then 0
  else if s.SCLK_int && !s.clocked.SCLK_int && s.clocked.countEn then s.wordCount + 1
  else s.wordCount

/-- The registers after a rising edge of `Clk`. `Reset` is asynchronous: `reset` says that it
is high at the edge, or from there on. -/
def posedge (reset : Bool) : I2C :=
  if reset then .onReset else { s.clocked with wordCount := s.wordCountNext }

end I2C

/-! ## The samples -/

/-- `Bcount` has five bits, and so starts again after 32 of them. -/
structure Dac where
  dack0 : Bool
  dack1 : Bool
  bck0 : Bool
  bck1 : Bool
  flag1 : Bool
  LRDATA : BitVec 32
  Bcount : BitVec 5
  deriving DecidableEq, Repr

/-- The inputs of one tick of `Clk`. -/
structure DacIn where
  LDATA : BitVec 16
  RDATA : BitVec 16
  AUD_BCLK : Bool
  AUD_DACLRCK : Bool
  deriving DecidableEq, Repr

namespace Dac

variable (s : Dac)

/-- The rising edge of `AUD_DACLRCK`, on which a sample is loaded. -/
def load : Bool := s.dack0 && !s.dack1

def bclkRose : Bool := s.bck0 && !s.bck1

def bclkFell : Bool := !s.bck0 && s.bck1

/-- The registers after a rising edge of `Clk`. `Reset` leaves `flag1` alone. -/
def posedge (reset : Bool) (i : DacIn) : Dac :=
  if reset then
    { s with dack0 := false, dack1 := false, bck0 := false, bck1 := false
             LRDATA := 0#32, Bcount := 31#5 }
  else
    { dack0 := i.AUD_DACLRCK
      dack1 := s.dack0
      bck0 := i.AUD_BCLK
      bck1 := s.bck0
      flag1 := if s.load then true else if s.bclkRose && s.flag1 then false else s.flag1
      LRDATA := if s.load then i.LDATA ++ i.RDATA else s.LRDATA
      Bcount :=
        if s.load then 31#5
        else if s.bclkRose && s.flag1 then s.Bcount
        else if s.bclkFell then s.Bcount - 1#5
        else s.Bcount }

def AUD_DACDAT : Bool := s.LRDATA.getLsbD s.Bcount.toNat

def dataOver : Bool := s.flag1

end Dac

end AudioInterface
