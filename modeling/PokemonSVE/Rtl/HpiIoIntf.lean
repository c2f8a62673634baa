-- SUMMARY: The module `hpi_io_intf`: the register stage between the PIO outputs and the pins of the USB controller.
import Mathlib.Data.Nat.Basic

/-!
# hpi_io_intf

Every register of `hpi_io_intf.sv` is loaded on every `posedge Clk`, so that the pins
follow the PIO outputs one cycle late. The enable of the tristate buffer is not
registered.
-/

namespace HpiIoIntf

/-- The nets `from_sw_*`, which the PIO registers drive. The single bits are active low. -/
structure FromSw where
  address : BitVec 2
  dataOut : BitVec 16
  r : Bool
  w : Bool
  cs : Bool
  reset : Bool
  deriving DecidableEq, Repr

structure Regs where
  dataOutBuffer : BitVec 16
  OTG_ADDR : BitVec 2
  OTG_RD_N : Bool
  OTG_WR_N : Bool
  OTG_CS_N : Bool
  OTG_RST_N : Bool
  /-- `from_sw_data_in`. -/
  dataIn : BitVec 16
  deriving DecidableEq, Repr

/-- The registers after a `posedge Clk`. -/
def posedge (Reset : Bool) (sw : FromSw) (OTG_DATA : BitVec 16) : Regs :=
  if Reset then
    { dataOutBuffer := 0x0000#16
      OTG_ADDR := 0#2
      OTG_RD_N := true
      OTG_WR_N := true
      OTG_CS_N := false
      OTG_RST_N := false
      dataIn := 0x0000#16 }
  else
    { dataOutBuffer := sw.dataOut
      OTG_ADDR := sw.address
      OTG_RD_N := sw.r
      OTG_WR_N := sw.w
      OTG_CS_N := sw.cs
      -- Not from_sw_reset, which nothing reads.
      OTG_RST_N := true
      dataIn := OTG_DATA }

/-- What the module drives on `OTG_DATA`, or `none` for high impedance. -/
def drive (h : Regs) (sw : FromSw) : Option (BitVec 16) :=
  if !sw.w then some h.dataOutBuffer else none

end HpiIoIntf
