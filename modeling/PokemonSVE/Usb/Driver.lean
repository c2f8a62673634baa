-- SUMMARY: The keyboard driver: the functions of `usb.c` and the control flow of `main.c`, as an interactive program.
import PokemonSVE.Basis.Program

/-!
# The driver

A command is a call of `IO_init` or `IO_write`, or the store to the keycode PIO, and
a query is a call of `IO_read`. The labels are the `goto` label of `main`, the heads
of its loops, and the places between its steps. `printf` and `usleep` are left out, but
not the reads among the arguments of `printf`.
-/

namespace Driver

inductive Cmd where
  | IO_init
  | IO_write (Address : BitVec 8) (Data : BitVec 16)
  /-- `*keycode_base = v` -/
  | keycode (v : BitVec 8)
  deriving DecidableEq, Repr

/-- Code of the driver. A query is the `Address` of an `IO_read`. -/
abbrev Code (α : Type) := Prog Cmd (BitVec 8) (BitVec 16) α

def IO_init : Code Unit := .emit .IO_init (.ret ())
def IO_write (Address : BitVec 8) (Data : BitVec 16) : Code Unit :=
  .emit (.IO_write Address Data) (.ret ())
def IO_read (Address : BitVec 8) : Code (BitVec 16) := .ask Address .ret
def keycode_base (v : BitVec 8) : Code Unit := .emit (.keycode v) (.ret ())

/-! ## Constants -/

def HPI_DATA : BitVec 8 := 0#8
def HPI_MAILBOX : BitVec 8 := 1#8
def HPI_ADDR : BitVec 8 := 2#8
def HPI_STATUS : BitVec 8 := 3#8

def HPI_IRQ_ROUTING_REG : BitVec 16 := 0x0142#16
def HPI_SIE1_MSG_ADR : BitVec 16 := 0x0144#16
def HPI_SIE2_MSG_ADR : BitVec 16 := 0x0148#16
def HUSB_SIE1_pCurrentTDPtr : BitVec 16 := 0x01B0#16
def HUSB_pEOT : BitVec 16 := 0x01B4#16
def COMM_INT_NUM : BitVec 16 := 0x01C2#16
/-- `COMM_R0` to `COMM_R13`. -/
def COMM_R (n : ℕ) : BitVec 16 := BitVec.ofNat 16 (0x01C4 + 2 * n)
def USB1_CTL_REG : BitVec 16 := 0xC08A#16
def HOST1_IRQ_EN_REG : BitVec 16 := 0xC08C#16
def HOST1_STAT_REG : BitVec 16 := 0xC090#16
def HOST2_STAT_REG : BitVec 16 := 0xC0B0#16

def HPI_STATUS_SIE1msg_FLAG : BitVec 16 := 0x0010#16
def HUSB_TDListDone : BitVec 16 := 0x1000#16
def COMM_RESET : BitVec 16 := 0xFA50#16
def COMM_EXEC_INT : BitVec 16 := 0xCE01#16
def COMM_ACK : BitVec 16 := 0x0FED#16
def HUSB_SIE1_INIT_INT : BitVec 16 := 0x0072#16
def HUSB_RESET_INT : BitVec 16 := 0x0074#16
def SOFEOP1_TO_CPU_EN : BitVec 16 := 0x0400#16
def RESUME1_TO_HPI_EN : BitVec 16 := 0x0040#16
def A_CHG_IRQ_EN : BitVec 16 := 0x0010#16
def SOF_EOP_IRQ_EN : BitVec 16 := 0x0200#16

/-- `A_DP_STAT | A_DM_STAT`, which `main` assigns to `no_device` before it uses it. -/
def no_device : BitVec 16 := 0x2000#16 ||| 0x1000#16

/-- `USB1_CTL_REG`, which `main` assigns to `ctl_reg` before it uses it. -/
def ctl_reg : BitVec 16 := USB1_CTL_REG

/-! ## usb.c -/

def UsbWrite (Address Data : BitVec 16) : Code Unit := do
  IO_write HPI_ADDR Address
  IO_write HPI_DATA Data

def UsbRead (Address : BitVec 16) : Code (BitVec 16) := do
  IO_write HPI_ADDR Address
  IO_read HPI_DATA

/-- One `UsbWrite` after the other. -/
def UsbWrites : List (BitVec 16 × BitVec 16) → Code Unit
  | [] => pure ()
  | (a, d) :: l => do
    UsbWrite a d
    UsbWrites l

def UsbSoftReset : Code Unit := do
  IO_write HPI_MAILBOX COMM_RESET
  let _ ← IO_read HPI_MAILBOX
  let _ ← IO_read HPI_STATUS
  let _ ← UsbRead HPI_SIE1_MSG_ADR
  UsbWrite HPI_SIE1_MSG_ADR 0x0000#16
  let _ ← UsbRead HPI_SIE2_MSG_ADR
  UsbWrite HPI_SIE2_MSG_ADR 0x0000#16
  UsbWrite HOST1_STAT_REG 0xFFFF#16
  UsbWrite HOST2_STAT_REG 0xFFFF#16

/-- One `IO_write(HPI_DATA, ..)` after the other. -/
def dataWords : List (BitVec 16) → Code Unit
  | [] => pure ()
  | w :: ws => do
    IO_write HPI_DATA w
    dataWords ws

/-- The shape of the functions that submit a list of TDs. -/
def submit (p : BitVec 16) (words : List (BitVec 16)) : Code Unit := do
  IO_write HPI_ADDR p
  dataWords words
  UsbWrite HUSB_SIE1_pCurrentTDPtr p

def UsbSetAddress : Code Unit := submit 0x0500#16
  [0x050C#16, 0x0008#16, 0x00D0#16, 0x0001#16, 0x0013#16, 0x0514#16,
    0x0500#16, 0x0002#16, 0x0000#16, 0x0000#16,
    0x0000#16, 0x0000#16, 0x0090#16, 0x0041#16, 0x0013#16, 0x0000#16]

def UsbGetDeviceDesc1 : Code Unit := submit 0x0500#16
  [0x050C#16, 0x0008#16, 0x02D0#16, 0x0001#16, 0x0013#16, 0x0514#16,
    0x0680#16, 0x0100#16, 0x0000#16, 0x0008#16,
    0x052C#16, 0x0008#16, 0x0290#16, 0x0041#16, 0x0013#16, 0x0520#16,
    0x0000#16, 0x0000#16, 0x0210#16, 0x0041#16, 0x0013#16, 0x0000#16]

def UsbGetDeviceDesc2 : Code Unit := submit 0x0500#16
  [0x050C#16, 0x0008#16, 0x02D0#16, 0x0001#16, 0x0013#16, 0x0514#16,
    0x0680#16, 0x0100#16, 0x0000#16, 0x0012#16,
    0x0544#16, 0x0008#16, 0x0290#16, 0x0041#16, 0x0013#16, 0x0520#16,
    0x054C#16, 0x0008#16, 0x0290#16, 0x0001#16, 0x0013#16, 0x052C#16,
    0x0554#16, 0x0002#16, 0x0290#16, 0x0041#16, 0x0013#16, 0x0538#16,
    0x0000#16, 0x0000#16, 0x0210#16, 0x0041#16, 0x0013#16, 0x0000#16]

def UsbGetConfigDesc1 : Code Unit := submit 0x0500#16
  [0x050C#16, 0x0008#16, 0x02D0#16, 0x0001#16, 0x0013#16, 0x0514#16,
    0x0680#16, 0x0200#16, 0x0000#16, 0x0009#16,
    0x0544#16, 0x0008#16, 0x0290#16, 0x0041#16, 0x0013#16, 0x0520#16,
    0x054C#16, 0x0001#16, 0x0290#16, 0x0001#16, 0x0013#16, 0x052C#16,
    0x0000#16, 0x0000#16, 0x0210#16, 0x0041#16, 0x0013#16, 0x0000#16]

def UsbGetConfigDesc2 : Code Unit := submit 0x0500#16
  [0x050C#16, 0x0008#16, 0x02D0#16, 0x0001#16, 0x0013#16, 0x0514#16,
    0x0680#16, 0x0200#16, 0x0000#16, 0x00FF#16,
    0x055C#16, 0x0008#16, 0x0290#16, 0x0041#16, 0x0013#16, 0x0520#16,
    0x0564#16, 0x0008#16, 0x0290#16, 0x0001#16, 0x0013#16, 0x052C#16,
    0x056C#16, 0x0008#16, 0x0290#16, 0x0041#16, 0x0013#16, 0x0538#16,
    0x0574#16, 0x0008#16, 0x0290#16, 0x0001#16, 0x0013#16, 0x0544#16,
    0x057C#16, 0x0002#16, 0x0290#16, 0x0041#16, 0x0013#16, 0x0550#16,
    0x0000#16, 0x0000#16, 0x0210#16, 0x0041#16, 0x0013#16, 0x0000#16]

def UsbSetConfig : Code Unit := submit 0x0500#16
  [0x050C#16, 0x0008#16, 0x02D0#16, 0x0001#16, 0x0013#16, 0x0514#16,
    0x0900#16, 0x0001#16, 0x0000#16, 0x0000#16,
    0x0000#16, 0x0000#16, 0x0290#16, 0x0041#16, 0x0013#16, 0x0000#16]

def UsbClassRequest : Code Unit := submit 0x0500#16
  [0x050C#16, 0x0008#16, 0x02D0#16, 0x0001#16, 0x0013#16, 0x0514#16,
    0x0A21#16, 0x0000#16, 0x0000#16, 0x0000#16,
    0x0000#16, 0x0000#16, 0x0290#16, 0x0041#16, 0x0013#16, 0x0000#16]

def UsbGetHidDesc : Code Unit := submit 0x0500#16
  [0x050C#16, 0x0008#16, 0x02D0#16, 0x0001#16, 0x0013#16, 0x0514#16,
    0x0681#16, 0x2100#16, 0x0000#16, 0x007B#16,
    0x0544#16, 0x0008#16, 0x0290#16, 0x0041#16, 0x0013#16, 0x0520#16,
    0x0000#16, 0x0000#16, 0x0210#16, 0x0041#16, 0x0013#16, 0x0000#16]

def UsbGetReportDesc : Code Unit := submit 0x0500#16
  [0x050C#16, 0x0008#16, 0x02D0#16, 0x0001#16, 0x0013#16, 0x0514#16,
    0x0681#16, 0x2200#16, 0x0000#16, 0x007B#16,
    0x0580#16, 0x0008#16, 0x0290#16, 0x0041#16, 0x0013#16, 0x0520#16,
    0x0588#16, 0x0008#16, 0x0290#16, 0x0001#16, 0x0013#16, 0x052C#16,
    0x0590#16, 0x0008#16, 0x0290#16, 0x0041#16, 0x0013#16, 0x0538#16,
    0x0598#16, 0x0008#16, 0x0290#16, 0x0001#16, 0x0013#16, 0x0544#16,
    0x05A0#16, 0x0008#16, 0x0290#16, 0x0041#16, 0x0013#16, 0x0550#16,
    0x05A8#16, 0x0008#16, 0x0290#16, 0x0001#16, 0x0013#16, 0x055C#16,
    0x05B0#16, 0x0008#16, 0x0290#16, 0x0041#16, 0x0013#16, 0x0568#16,
    0x05B8#16, 0x0003#16, 0x0290#16, 0x0001#16, 0x0013#16, 0x0574#16,
    0x0000#16, 0x0000#16, 0x0210#16, 0x0041#16, 0x0013#16, 0x0000#16]

/-- The places of `UsbWaitTDListDone`: its start, its loop, and its return. -/
inductive Wait where
  | call
  | loop (usb_ctl_val : BitVec 16)
  | returned (usb_ctl_val : BitVec 16)
  deriving DecidableEq, Repr

/-- Reads the message register and clears it, in two separate transactions. -/
def takeMessage : Code (BitVec 16) := do
  let usb_ctl_val ← UsbRead HPI_SIE1_MSG_ADR
  UsbWrite HPI_SIE1_MSG_ADR 0x0000#16
  pure usb_ctl_val

def UsbWaitTDListDone : Wait → Code Wait
  | .call => do
    let usb_ctl_val ← takeMessage
    pure (.loop usb_ctl_val)
  | .loop usb_ctl_val =>
    if usb_ctl_val ≠ HUSB_TDListDone then do
      let usb_ctl_val ← takeMessage
      pure (.loop usb_ctl_val)
    else pure (.returned usb_ctl_val)
  | .returned usb_ctl_val => pure (.returned usb_ctl_val)

/-! ## main.c -/

/-- The enumeration steps of `main`, each with the function that submits its list. -/
inductive Request where
  | setAddress
  | deviceDesc1
  | deviceDesc2
  | configDesc1
  | configDesc2
  | setConfig
  | classRequest
  | hidDesc
  | reportDesc
  deriving DecidableEq, Repr

def Request.code : Request → Code Unit
  | .setAddress => UsbSetAddress
  | .deviceDesc1 => UsbGetDeviceDesc1
  | .deviceDesc2 => UsbGetDeviceDesc2
  | .configDesc1 => UsbGetConfigDesc1
  | .configDesc2 => UsbGetConfigDesc2
  | .setConfig => UsbSetConfig
  | .classRequest => UsbClassRequest
  | .hidDesc => UsbGetHidDesc
  | .reportDesc => UsbGetReportDesc

inductive Label where
  | main
  | usbHotPlug
  /-- `while (!(IO_read(HPI_STATUS) & 0xFFFF))` -/
  | step1
  /-- `while (!(usb_ctl_val & no_device))` of the first check. -/
  | noDevice (usb_ctl_val : BitVec 16)
  | request (r : Request)
  /-- `while (!(IO_read(HPI_STATUS) & HPI_STATUS_SIE1msg_FLAG))` after a request. -/
  | requestStatus (r : Request)
  | requestWait (r : Request) (w : Wait)
  /-- The loop of `UsbGetRetryCnt`. -/
  | retryCnt
  /-- The device information and the endpoint block, before the configuration is set. -/
  | deviceInfo
  /-- `while (1)` -/
  | poll
  /-- `while (!(IO_read(HPI_STATUS) & HPI_STATUS_SIE1msg_FLAG))` after a poll. -/
  | pollStatus
  | pollWait (w : Wait)
  /-- `while (!(usb_ctl_val & no_device))` of the polling loop. -/
  | removed (usb_ctl_val : BitVec 16)
  deriving DecidableEq, Repr

/-- The local variables of `main` that outlive a step. -/
structure Locals where
  toggle : BitVec 8
  data_size : BitVec 8
  deriving DecidableEq, Repr

abbrev Point := Label × Locals

/-- Where `main` goes after a request that succeeded. -/
def Request.next : Request → Label
  | .setAddress => .request .deviceDesc1
  | .deviceDesc1 => .request .deviceDesc2
  | .deviceDesc2 => .request .configDesc1
  | .configDesc1 => .request .configDesc2
  | .configDesc2 => .deviceInfo
  | .setConfig => .request .classRequest
  | .classRequest => .request .hidDesc
  | .hidDesc => .request .reportDesc
  | .reportDesc => .poll

/-- The `for` loops over `hot_plug_count`: reads until a device shows, at most `n`
times. -/
def recheck : ℕ → BitVec 16 → Code (BitVec 16)
  | 0, usb_ctl_val => pure usb_ctl_val
  | n + 1, _ => do
    let usb_ctl_val ← UsbRead ctl_reg
    if usb_ctl_val &&& no_device ≠ 0#16 then pure usb_ctl_val else recheck n usb_ctl_val

/-- From `USB_HOT_PLUG` to the loop of step 1. -/
def hotPlug : Code Unit := do
  UsbSoftReset
  UsbWrites
    [(HPI_SIE1_MSG_ADR, 0x0000#16), (HOST1_STAT_REG, 0xFFFF#16), (HUSB_pEOT, 600#16),
      (HPI_IRQ_ROUTING_REG, SOFEOP1_TO_CPU_EN ||| RESUME1_TO_HPI_EN),
      (HOST1_IRQ_EN_REG, A_CHG_IRQ_EN ||| SOF_EOP_IRQ_EN),
      (COMM_R 0, 0x0000#16), (COMM_R 1, 0x0000#16), (COMM_R 2, 0x0000#16),
      (COMM_R 3, 0x0000#16), (COMM_R 4, 0x0000#16), (COMM_R 5, 0x0000#16),
      (COMM_R 6, 0x0000#16), (COMM_R 7, 0x0000#16), (COMM_R 8, 0x0000#16),
      (COMM_R 9, 0x0000#16), (COMM_R 10, 0x0000#16), (COMM_R 11, 0x0000#16),
      (COMM_R 12, 0x0000#16), (COMM_R 13, 0x0000#16), (COMM_INT_NUM, HUSB_SIE1_INIT_INT)]
  IO_write HPI_MAILBOX COMM_EXEC_INT

/-- Step 2, up to its acknowledgement. -/
def busReset : Code Unit := do
  UsbWrites
    [(COMM_INT_NUM, HUSB_RESET_INT), (COMM_R 0, 0x003C#16), (COMM_R 1, 0x0000#16),
      (COMM_R 2, 0x0000#16), (COMM_R 3, 0x0000#16), (COMM_R 4, 0x0000#16),
      (COMM_R 5, 0x0000#16), (COMM_R 6, 0x0000#16), (COMM_R 7, 0x0000#16),
      (COMM_R 8, 0x0000#16), (COMM_R 9, 0x0000#16), (COMM_R 10, 0x0000#16),
      (COMM_R 11, 0x0000#16), (COMM_R 12, 0x0000#16), (COMM_R 13, 0x0000#16)]
  IO_write HPI_MAILBOX COMM_EXEC_INT

/-- `if (IO_read(HPI_MAILBOX) != COMM_ACK)`, written as a loop in `main`. -/
def acknowledged : Code Bool := do
  let m ← IO_read HPI_MAILBOX
  if m ≠ COMM_ACK then do
    let _ ← IO_read HPI_MAILBOX
    pure false
  else pure true

/-- The end of the step-1 loop up to the first request. -/
def detect : Code Label := do
  let ack1 ← acknowledged
  if ack1 then do
    busReset
    let ack2 ← acknowledged
    if ack2 then do
      let usb_ctl_val ← UsbRead ctl_reg
      if usb_ctl_val &&& no_device = 0#16 then do
        let usb_ctl_val ← recheck 5 usb_ctl_val
        if usb_ctl_val &&& no_device = 0#16 then pure (.noDevice usb_ctl_val)
        else pure (.request .setAddress)
      else pure (.request .setAddress)
    else pure .usbHotPlug
  else pure .usbHotPlug

/-- The TD status and control words, and `UsbGetRetryCnt` up to its loop. -/
def checkRequest (r : Request) : Code Label := do
  IO_write HPI_ADDR 0x0506#16
  let _ ← IO_read HPI_DATA
  IO_write HPI_ADDR 0x0508#16
  let usb_ctl_val ← IO_read HPI_DATA
  if usb_ctl_val ≠ 0x03#16 then do
    let _ ← IO_read HPI_STATUS
    let m ← UsbRead HPI_SIE1_MSG_ADR
    if m = HUSB_TDListDone then do
      UsbWrite HPI_SIE1_MSG_ADR 0x0000#16
      pure .retryCnt
    else do
      let _ ← UsbRead 0x0508#16
      pure .usbHotPlug
  else pure r.next

/-- The words of the polling TD. -/
def pollWords (v : Locals) : List (BitVec 16) :=
  [0x051C#16, 0x000F#16 &&& v.data_size.setWidth 16, 0x0291#16,
    if v.toggle % 2#8 ≠ 0#8 then 0x0001#16 else 0x0041#16, 0x0013#16, 0x0000#16]

/-- What follows the wait of a poll: the keycode is passed on, and the device checked. -/
def endPoll : Code Label := do
  let keycode ← UsbRead 0x051E#16
  keycode_base (keycode.setWidth 8)
  let usb_ctl_val ← UsbRead ctl_reg
  if usb_ctl_val &&& no_device = 0#16 then do
    let usb_ctl_val ← recheck 7 usb_ctl_val
    pure (.removed usb_ctl_val)
  else pure (.removed usb_ctl_val)

/-- `main` from a label to the next one. -/
def body : Point → Code Point
  | (.main, v) => do
    IO_init
    pure (.usbHotPlug, v)
  | (.usbHotPlug, v) => do
    hotPlug
    pure (.step1, v)
  | (.step1, v) => do
    let s ← IO_read HPI_STATUS
    if s &&& 0xFFFF#16 = 0#16 then pure (.step1, v)
    else do
      let l ← detect
      pure (l, v)
  | (.noDevice usb_ctl_val, v) =>
    if usb_ctl_val &&& no_device = 0#16 then do
      let usb_ctl_val ← UsbRead ctl_reg
      if usb_ctl_val &&& no_device ≠ 0#16 then pure (.usbHotPlug, v)
      else pure (.noDevice usb_ctl_val, v)
    else pure (.request .setAddress, v)
  | (.request r, v) => do
    r.code
    pure (.requestStatus r, v)
  | (.requestStatus r, v) => do
    let s ← IO_read HPI_STATUS
    if s &&& HPI_STATUS_SIE1msg_FLAG = 0#16 then do
      r.code
      pure (.requestStatus r, v)
    else pure (.requestWait r .call, v)
  | (.requestWait r (.returned _), v) => do
    let l ← checkRequest r
    pure (l, v)
  | (.requestWait r w, v) => do
    let w ← UsbWaitTDListDone w
    pure (.requestWait r w, v)
  | (.retryCnt, v) => do
    let s ← IO_read HPI_STATUS
    if s &&& HPI_STATUS_SIE1msg_FLAG = 0#16 then pure (.retryCnt, v)
    else do
      let _ ← UsbRead 0x0508#16
      pure (.usbHotPlug, v)
  | (.deviceInfo, v) => do
    let _ ← UsbRead 0x056C#16
    submit 0x0576#16 [0x073F#16, 0x8105#16, 0x0003#16, 0x0008#16, 0xAC0A#16]
    let data_size ← UsbRead 0x057C#16
    pure (.request .setConfig, { v with data_size := data_size.setWidth 8 })
  | (.poll, v) => do
    let v := { v with toggle := v.toggle + 1#8 }
    submit 0x0500#16 (pollWords v)
    pure (.pollStatus, v)
  | (.pollStatus, v) => do
    let s ← IO_read HPI_STATUS
    if s &&& HPI_STATUS_SIE1msg_FLAG = 0#16 then do
      submit 0x0500#16 (pollWords v)
      pure (.pollStatus, v)
    else pure (.pollWait .call, v)
  | (.pollWait (.returned _), v) => do
    let l ← endPoll
    pure (l, v)
  | (.pollWait w, v) => do
    let w ← UsbWaitTDListDone w
    pure (.pollWait w, v)
  | (.removed usb_ctl_val, v) =>
    if usb_ctl_val &&& no_device = 0#16 then do
      let _ ← UsbRead ctl_reg
      let _ ← UsbRead ctl_reg
      let usb_ctl_val ← UsbRead ctl_reg
      if usb_ctl_val &&& no_device ≠ 0#16 then pure (.usbHotPlug, v)
      else pure (.removed usb_ctl_val, v)
    else pure (.poll, v)

/-- The locals at the start of `main`, where `data_size` is not initialised. -/
def Locals.start (data_size : BitVec 8) : Locals := ⟨0#8, data_size⟩

/-! ## The HPI port

The controller behind the port has an address register, which every access to
`HPI_DATA` moves on to the next word. -/

/-- What a controller does, with states `σ` and one input in `ι` per step. -/
structure Chip (σ ι : Type) where
  acts : σ → ι → σ
  load : σ → ι → (address : BitVec 16) → BitVec 16
  loaded : σ → (address : BitVec 16) → σ
  store : σ → (address data : BitVec 16) → σ
  status : σ → ι → BitVec 16
  mailbox : σ → ι → BitVec 16
  command : σ → BitVec 16 → σ
  keycode : σ → BitVec 8 → σ

/-- A controller with the address register of its port. -/
structure Hpi (σ : Type) where
  addr : BitVec 16
  chip : σ

/-- The environment that a controller is for the driver. -/
def Chip.env {σ ι : Type} (chip : Chip σ ι) : Prog.Env Cmd (BitVec 8) (BitVec 16) (Hpi σ) ι where
  acts h i := ⟨h.addr, chip.acts h.chip i⟩
  emitted h
    | .IO_init => h
    | .IO_write Address Data =>
      if Address = HPI_DATA then ⟨h.addr + 2#16, chip.store h.chip h.addr Data⟩
      else if Address = HPI_ADDR then ⟨Data, h.chip⟩
      else if Address = HPI_MAILBOX then ⟨h.addr, chip.command h.chip Data⟩
      else h
    | .keycode v => ⟨h.addr, chip.keycode h.chip v⟩
  answer h i Address :=
    if Address = HPI_DATA then chip.load h.chip i h.addr
    else if Address = HPI_STATUS then chip.status h.chip i
    else chip.mailbox h.chip i
  asked h Address :=
    if Address = HPI_DATA then ⟨h.addr + 2#16, chip.loaded h.chip h.addr⟩ else h

/-- A run of the driver from the start of `main`. -/
def run {σ ι : Type} (chip : Chip σ ι) (data_size : BitVec 8) (h : Hpi σ) (ins : ℕ → ι) (n : ℕ) :
    Prog.Config Cmd (BitVec 8) (BitVec 16) (Hpi σ) Point :=
  Prog.run body chip.env (.main, .start data_size) h ins n

end Driver
