-- SUMMARY: The order of the requests on the HPI port: nothing is polled and no keycode passed on before all nine have been confirmed since the last reset.
import PokemonSVE.Usb.Recovery
import PokemonSVE.Usb.TdList
import Mathlib.Data.List.Forall2

/-!
# Enumeration

What the controller is asked to do can be read off the traffic at its port alone: the
blocks of words that are stored, the lists that are submitted, and the control words
that are read back. The traffic says which requests have been confirmed since the last
`COMM_RESET`, and so what the driver may do next.
-/

namespace Driver

open Prog

variable {σ ι : Type}

/-! ## The traffic -/

/-- Words at successive addresses, with the address of the first. -/
abbrev Block := BitVec 16 × List (BitVec 16)

/-- What has been seen at the port. -/
structure Traffic where
  /-- The words stored since the address register was last written. -/
  block : Block
  /-- The block before that. -/
  before : Block
  /-- The list submitted last. -/
  list : Block
  /-- The lists that were found to have ended without an error since the last reset. -/
  confirmed : List Block
  deriving DecidableEq, Repr

def Traffic.observe (m : Traffic) : HpiEvent σ → Traffic
  | .issues h (.IO_write Address Data) =>
    if Address = HPI_ADDR then { m with before := m.block, block := (Data, []) }
    else if Address = HPI_DATA then
      if h.addr = HUSB_SIE1_pCurrentTDPtr then { m with list := m.before }
      else { m with block := (m.block.1, m.block.2 ++ [Data]) }
    else if Address = HPI_MAILBOX ∧ Data = COMM_RESET then { m with confirmed := [] }
    else m
  | .hears h q v =>
    if q = HPI_DATA ∧ h.addr = 0x0508#16 ∧ v = 0x03#16 then
      { m with confirmed := m.confirmed ++ [m.list] }
    else m
  | _ => m

section Observe

variable {m : Traffic} {h : Hpi σ}

theorem observe_command {d : BitVec 16} (hd : d ≠ COMM_RESET) :
    m.observe (.issues h (.IO_write HPI_MAILBOX d)) = m :=
  if_neg fun hc => hd hc.2

theorem observe_word {d : BitVec 16} (ha : h.addr ≠ HUSB_SIE1_pCurrentTDPtr) :
    m.observe (.issues h (.IO_write HPI_DATA d)) =
      { m with block := (m.block.1, m.block.2 ++ [d]) } :=
  if_neg ha

theorem observe_pointer {d : BitVec 16} (ha : h.addr = HUSB_SIE1_pCurrentTDPtr) :
    m.observe (.issues h (.IO_write HPI_DATA d)) = { m with list := m.before } :=
  if_pos ha

theorem observe_state {q : BitVec 8} {v : BitVec 16} (hq : q ≠ HPI_DATA) :
    m.observe (.hears h q v) = m :=
  if_neg fun hc => hq hc.1

theorem observe_control {v : BitVec 16} (ha : h.addr = 0x0508#16) :
    m.observe (.hears h HPI_DATA v) =
      if v = 0x03#16 then { m with confirmed := m.confirmed ++ [m.list] } else m :=
  if_congr (by simp [ha]) rfl rfl

theorem observe_read {v : BitVec 16} (ha : h.addr ≠ 0x0508#16) :
    m.observe (.hears h HPI_DATA v) = m :=
  if_neg fun hc => ha hc.2.1

end Observe

/-! ## What is due -/

/-- The requests in the order of the enumeration. -/
def Request.order : List Request :=
  [.setAddress, .deviceDesc1, .deviceDesc2, .configDesc1, .configDesc2, .setConfig,
    .classRequest, .hidDesc, .reportDesc]

/-- The requests before this one. -/
def Request.done (r : Request) : ℕ := 9 - r.left

/-- The block is the list of the request. -/
def Request.Lists (r : Request) (b : Block) : Prop := r.code = submit b.1 b.2

/-- The first `n` requests have been confirmed, in order, and nothing else. -/
def Traffic.Confirmed (m : Traffic) (n : ℕ) : Prop :=
  List.Forall₂ Request.Lists (Request.order.take n) m.confirmed

/-- The block that is about to be submitted is due. -/
inductive Traffic.Due (m : Traffic) : Prop where
  | request (r : Request) (hconfirmed : m.Confirmed r.done) (hlist : r.Lists m.before)
  /-- The block that `main` submits before the configuration is set. -/
  | endpoint (hconfirmed : m.Confirmed 5)
    (hblock : m.before = (0x0576#16, [0x073F#16, 0x8105#16, 0x0003#16, 0x0008#16, 0xAC0A#16]))
  | poll (v : Locals) (hconfirmed : m.Confirmed 9) (hblock : m.before = (0x0500#16, pollWords v))

/-- The order of things: what is submitted is due, and a keycode is passed on only from a
keyboard that has been enumerated. -/
def Permitted (m : Traffic) : HpiEvent σ → Prop
  | .issues h (.IO_write Address Data) =>
    Address = HPI_DATA → h.addr = HUSB_SIE1_pCurrentTDPtr → Data = m.before.1 ∧ m.Due
  | .issues _ (.keycode _) => m.Confirmed 9
  | _ => True

theorem Request.order_take_succ (r : Request) :
    order.take (r.done + 1) = order.take r.done ++ [r] := by
  cases r <;> rfl

/-- A list that is confirmed after those before it. -/
theorem Traffic.Confirmed.succ {m m' : Traffic} {r : Request} (h : m.Confirmed r.done)
    (hlist : r.Lists m.list) (hm' : m'.confirmed = m.confirmed ++ [m.list]) :
    m'.Confirmed (r.done + 1) := by
  rw [Confirmed, hm', Request.order_take_succ]
  exact List.rel_append h (.cons hlist .nil)

theorem Traffic.Confirmed.congr {m m' : Traffic} {n : ℕ} (h : m.Confirmed n)
    (hm' : m'.confirmed = m.confirmed) : m'.Confirmed n := by
  rw [Confirmed, hm']
  exact h

/-! ## Code that submits nothing -/

section Calm

variable {chip : Chip σ ι}

/-- The code keeps to the order, and ends with `Q`. -/
abbrev Orders (chip : Chip σ ι) {α : Type} (Q : α → Traffic → Prop) (p : Code α) (h : Hpi σ)
    (m : Traffic) : Prop :=
  Assures chip.env Traffic.observe (fun _ => True) Permitted (fun a _ m => Q a m) p h m

/-- The code submits nothing and confirms nothing. -/
def Calm (chip : Chip σ ι) {α : Type} (p : Code α) : Prop :=
  ∀ h m, Orders chip (fun _ m' => m'.list = m.list ∧ m'.confirmed = m.confirmed) p h m

theorem calm_ret {α : Type} (a : α) : Calm chip (.ret a : Code α) := fun _ _ => ⟨rfl, rfl⟩

theorem Calm.bind {α β : Type} {p : Code α} {f : α → Code β} (hp : Calm chip p)
    (hf : ∀ a, Calm chip (f a)) : Calm chip (p >>= f) := by
  intro h m
  refine (hp h m).bind fun a h' m' hm' => (hf a h' m').mono fun _ _ m'' hm'' => ?_
  exact ⟨hm''.1.trans hm'.1, hm''.2.trans hm'.2⟩

theorem calm_ask {α : Type} {q : BitVec 8} (hq : q ≠ HPI_DATA) {rest : BitVec 16 → Code α}
    (hrest : ∀ v, Calm chip (rest v)) : Calm chip (.ask q rest) := by
  intro h m i _
  rw [observe_state hq]
  exact ⟨trivial, hrest _ _ _⟩

theorem calm_io_init : Calm chip IO_init := fun _ _ _ _ => ⟨trivial, rfl, rfl⟩

theorem calm_command {d : BitVec 16} (hd : d ≠ COMM_RESET) :
    Calm chip (IO_write HPI_MAILBOX d) := by
  intro h m i _
  rw [observe_command hd]
  exact ⟨fun h => absurd h (by decide), rfl, rfl⟩

theorem calm_usbRead {a : BitVec 16} (ha : a ≠ 0x0508#16) : Calm chip (UsbRead a) := by
  intro h m i _
  refine ⟨fun h => absurd h (by decide), fun j _ => ⟨trivial, ?_⟩⟩
  rw [observe_read ha]
  exact ⟨rfl, rfl⟩

theorem calm_usbWrite {a : BitVec 16} (ha : a ≠ HUSB_SIE1_pCurrentTDPtr) (d : BitVec 16) :
    Calm chip (UsbWrite a d) := by
  intro h m i _
  refine ⟨fun h => absurd h (by decide), fun j _ => ⟨fun _ h => absurd h ha, ?_⟩⟩
  rw [observe_word ha]
  exact ⟨rfl, rfl⟩

theorem calm_usbWrites {l : List (BitVec 16 × BitVec 16)}
    (hl : (l.all fun x => decide (x.1 ≠ HUSB_SIE1_pCurrentTDPtr)) = true) :
    Calm chip (UsbWrites l) := by
  induction l with
  | nil => exact calm_ret ()
  | cons x l ih =>
    rw [List.all_cons, Bool.and_eq_true, decide_eq_true_eq] at hl
    exact (calm_usbWrite hl.1 x.2).bind fun _ => ih hl.2

theorem calm_takeMessage : Calm chip takeMessage :=
  (calm_usbRead (by decide)).bind fun _ => (calm_usbWrite (by decide) _).bind fun _ => calm_ret _

theorem calm_wait (w : Wait) : Calm chip (UsbWaitTDListDone w) := by
  cases w with
  | call => exact calm_takeMessage.bind fun _ => calm_ret _
  | loop u =>
    simp only [UsbWaitTDListDone]
    split_ifs
    · exact calm_takeMessage.bind fun _ => calm_ret _
    · exact calm_ret _
  | returned u => exact calm_ret _

theorem calm_recheck (n : ℕ) (u : BitVec 16) : Calm chip (recheck n u) := by
  induction n generalizing u with
  | zero => exact calm_ret u
  | succ n ih =>
    refine (calm_usbRead (by decide)).bind fun v => ?_
    split_ifs
    · exact calm_ret v
    · exact ih v

theorem calm_busReset : Calm chip busReset :=
  (calm_usbWrites (by decide)).bind fun _ => calm_command (by decide)

theorem calm_acknowledged : Calm chip acknowledged := by
  refine calm_ask (by decide) fun m => ?_
  change Calm chip (if m ≠ COMM_ACK then _ else _)
  split_ifs
  · exact calm_ask (by decide) fun _ => calm_ret _
  · exact calm_ret _

theorem calm_detect : Calm chip detect := by
  refine calm_acknowledged.bind fun ack1 => ?_
  split_ifs
  · refine calm_busReset.bind fun _ => calm_acknowledged.bind fun ack2 => ?_
    split_ifs
    · refine (calm_usbRead (by decide)).bind fun u => ?_
      split_ifs
      · refine (calm_recheck 5 u).bind fun u => ?_
        split_ifs <;> exact calm_ret _
      · exact calm_ret _
    · exact calm_ret _
  · exact calm_ret _

end Calm

/-! ## Submitting -/

section Submit

variable {chip : Chip σ ι} {h : Hpi σ} {m : Traffic}

/-- The words of a block, one after the other. -/
theorem orders_dataWords {words : List (BitVec 16)} (havoids : Avoids h.addr words) :
    Orders chip (fun _ m' => m'.block = (m.block.1, m.block.2 ++ words) ∧
      m'.confirmed = m.confirmed) (dataWords words) h m := by
  induction words generalizing h m with
  | nil => exact ⟨by rw [List.append_nil], rfl⟩
  | cons w ws ih =>
    intro i _
    refine ⟨fun _ ha => absurd ha havoids.1, ?_⟩
    have hobserve : m.observe (.issues (chip.env.acts h i) (.IO_write HPI_DATA w)) =
        { m with block := (m.block.1, m.block.2 ++ [w]) } := observe_word havoids.1
    rw [hobserve]
    refine (ih havoids.2).mono fun _ _ m' hm' => ?_
    refine ⟨?_, hm'.2⟩
    rw [hm'.1, List.append_assoc]
    rfl

/-- A submission that is due. -/
theorem orders_submit {p : BitVec 16} {words : List (BitVec 16)} (havoids : Avoids p words)
    (hdue : ∀ m' : Traffic, m'.before = (p, words) → m'.confirmed = m.confirmed → m'.Due) :
    Orders chip (fun _ m' => m'.list = (p, words) ∧ m'.confirmed = m.confirmed)
      (submit p words) h m := by
  intro i _
  refine ⟨fun h => absurd h (by decide), ?_⟩
  refine (orders_dataWords (m := { m with before := m.block, block := (p, []) }) havoids).bind
    fun _ h' m' hm' => ?_
  intro j _
  refine ⟨fun h => absurd h (by decide), fun k _ => ?_⟩
  rw [observe_pointer rfl]
  refine ⟨fun _ _ => ⟨?_, hdue _ hm'.1 hm'.2⟩, hm'.1, hm'.2⟩
  change p = m'.block.1
  rw [hm'.1]

end Submit

/-! ## The labels -/

section Labels

/-- The number of requests that have been confirmed at a label. -/
def Label.done : Label → Option ℕ
  | .main | .usbHotPlug | .retryCnt => none
  | .step1 | .noDevice _ => some 0
  | .request r | .requestStatus r | .requestWait r _ => some r.done
  | .deviceInfo => some 5
  | .poll | .pollStatus | .pollWait _ | .removed _ => some 9

/-- The request whose list has been submitted last. -/
def Label.submitted : Label → Option Request
  | .requestStatus r | .requestWait r _ => some r
  | _ => none

/-- What the traffic has shown at a label. -/
structure Shown (l : Label) (m : Traffic) : Prop where
  done : ∀ n ∈ l.done, m.Confirmed n
  submitted : ∀ r ∈ l.submitted, r.Lists m.list

variable {chip : Chip σ ι} {h : Hpi σ} {m : Traffic}

/-- A label that needs no more than another. -/
def Label.Needs (l' l : Label) : Prop :=
  (∀ n ∈ l'.done, n ∈ l.done) ∧ ∀ r ∈ l'.submitted, r ∈ l.submitted

/-- Calm code, from which every way leads to a label that needs no more. -/
theorem Calm.orders {l : Label} {v : Locals} (hcalm : Calm chip (body (l, v)))
    (hneeds : ∀ l', l.Next l' → l'.Needs l) (hm : Shown l m) :
    Orders chip (fun q m => Shown q.1 m) (body (l, v)) h m := by
  refine ((hcalm h m).and_ends (ends_body l v)).mono fun q _ m' hm' => ?_
  obtain ⟨⟨hlist, hconfirmed⟩, hnext, -⟩ := hm'
  obtain ⟨hdone, hsubmitted⟩ := hneeds q.1 hnext
  refine ⟨fun n hn => (hm.done n (hdone n hn)).congr hconfirmed, fun r hr => ?_⟩
  rw [hlist]
  exact hm.submitted r (hsubmitted r hr)

/-- From the label the code keeps to the order, and comes to the next one in order. -/
abbrev InOrder (chip : Chip σ ι) (p : Code Point) (h : Hpi σ) (m : Traffic) : Prop :=
  Orders chip (fun q m => Shown q.1 m) p h m

/-- At some labels nothing has been shown. -/
theorem shown_of_none {l : Label} (hdone : l.done = none) (hsubmitted : l.submitted = none) :
    Shown l m := by
  refine ⟨fun n hn => ?_, fun r hr => ?_⟩
  · rw [hdone] at hn
    cases hn
  · rw [hsubmitted] at hr
    cases hr

theorem shown_requestStatus {r : Request} (hdone : m.Confirmed r.done) (hlist : r.Lists m.list) :
    Shown (.requestStatus r) m := by
  refine ⟨fun n hn => ?_, fun r' hr => ?_⟩
  · obtain rfl := Option.some.inj hn
    exact hdone
  · obtain rfl := Option.some.inj hr
    exact hlist

theorem shown_of_done {l : Label} {n : ℕ} (hl : l.done = some n) (hsubmitted : l.submitted = none)
    (hn : m.Confirmed n) : Shown l m := by
  refine ⟨fun n' hn' => ?_, fun r hr => ?_⟩
  · obtain rfl := Option.some.inj (hl.symm.trans hn')
    exact hn
  · rw [hsubmitted] at hr
    cases hr

/-- After a request that succeeded one more is confirmed. -/
theorem shown_next {r : Request} (hdone : m.Confirmed (r.done + 1)) : Shown r.next m := by
  cases r <;> exact shown_of_done rfl rfl hdone

/-- The reset begins a new enumeration. -/
theorem orders_hotPlug : Orders chip (fun _ m => m.confirmed = []) hotPlug h m := by
  have hrest : Calm chip (do
      let _ ← IO_read HPI_MAILBOX
      let _ ← IO_read HPI_STATUS
      let _ ← UsbRead HPI_SIE1_MSG_ADR
      UsbWrite HPI_SIE1_MSG_ADR 0x0000#16
      let _ ← UsbRead HPI_SIE2_MSG_ADR
      UsbWrite HPI_SIE2_MSG_ADR 0x0000#16
      UsbWrite HOST1_STAT_REG 0xFFFF#16
      UsbWrite HOST2_STAT_REG 0xFFFF#16) := by
    refine calm_ask (by decide) fun _ => calm_ask (by decide) fun _ => ?_
    refine (calm_usbRead (by decide)).bind fun _ => (calm_usbWrite (by decide) _).bind fun _ => ?_
    refine (calm_usbRead (by decide)).bind fun _ => (calm_usbWrite (by decide) _).bind fun _ => ?_
    exact (calm_usbWrite (by decide) _).bind fun _ => calm_usbWrite (by decide) _
  intro i _
  refine ⟨fun h => absurd h (by decide), ?_⟩
  refine (hrest _ _).bind fun _ h' m' hm' => ?_
  refine (((calm_usbWrites (by decide)).bind fun _ => calm_command (by decide)) h' m').mono
    fun _ _ m'' hm'' => ?_
  exact hm''.2.trans hm'.2

theorem orders_requestCode {r : Request} (hdone : m.Confirmed r.done) :
    Orders chip (fun _ m' => r.Lists m'.list ∧ m'.Confirmed r.done) r.code h m := by
  obtain ⟨words, tds, hcode, hlist⟩ := isList_code r
  rw [hcode]
  refine (orders_submit hlist.1 fun m' hbefore hconfirmed => ?_).mono fun _ _ m' hm' => ?_
  · refine .request r (hdone.congr hconfirmed) ?_
    rw [hbefore]
    exact hcode
  · refine ⟨?_, hdone.congr hm'.2⟩
    rw [hm'.1]
    exact hcode

theorem orders_poll {v : Locals} (hdone : m.Confirmed 9) :
    Orders chip (fun _ m' => m'.Confirmed 9) (submit 0x0500#16 (pollWords v)) h m := by
  have havoids : Avoids 0x0500#16 (pollWords v) :=
    ⟨by decide, by decide, by decide, by decide, by decide, by decide, trivial⟩
  refine (orders_submit havoids fun m' hbefore hconfirmed => ?_).mono fun _ _ m' hm' => ?_
  · exact .poll v (hdone.congr hconfirmed) hbefore
  · exact hdone.congr hm'.2

/-- A read of another register than `HPI_DATA`. -/
theorem orders_ask {α : Type} {Q : α → Traffic → Prop} {q : BitVec 8} (hq : q ≠ HPI_DATA)
    {rest : BitVec 16 → Code α} (hrest : ∀ h v, Orders chip Q (rest v) h m) :
    Orders chip Q (.ask q rest) h m := by
  intro i _
  rw [observe_state hq]
  exact ⟨trivial, hrest _ _⟩

/-- The control word is read back. -/
theorem orders_control :
    Orders chip (fun v m' => m'.list = m.list ∧ m'.confirmed =
      if v = 0x03#16 then m.confirmed ++ [m.list] else m.confirmed) (UsbRead 0x0508#16) h m := by
  intro i _
  refine ⟨fun h => absurd h (by decide), fun j _ => ⟨trivial, ?_⟩⟩
  rw [observe_control rfl]
  split_ifs with hv
  · refine ⟨rfl, ?_⟩
    rw [if_pos hv]
    rfl
  · refine ⟨rfl, ?_⟩
    rw [if_neg hv]
    rfl

/-- The end of a request. -/
theorem orders_checkRequest {r : Request} (hdone : m.Confirmed r.done) (hlist : r.Lists m.list) :
    Orders chip (fun l m => Shown l m) (checkRequest r) h m := by
  have hstatus : Calm chip (UsbRead 0x0506#16) := calm_usbRead (by decide)
  refine (hstatus h m).bind fun _ h' m' hm' => ?_
  refine (orders_control (h := h') (m := m')).bind fun v _ m'' hm'' => ?_
  rw [hm'.1, hm'.2] at hm''
  split_ifs with hv
  · refine (calm_ask (by decide) calm_ret _ _).bind fun _ _ _ _ => ?_
    refine (calm_usbRead (by decide) _ _).bind fun _ _ _ _ => ?_
    split_ifs
    · exact (calm_usbWrite (by decide) _ _ _).bind fun _ _ _ _ => shown_of_none rfl rfl
    · exact orders_control.bind fun _ _ _ _ => shown_of_none rfl rfl
  · rw [if_pos (not_not.mp hv)] at hm''
    exact shown_next (hdone.succ hlist hm''.2)

/-- The end of a poll passes the keycode on. -/
theorem orders_endPoll (hdone : m.Confirmed 9) :
    Orders chip (fun _ m => m.Confirmed 9) endPoll h m := by
  have hcheck : Calm chip (do
      let usb_ctl_val ← UsbRead ctl_reg
      if usb_ctl_val &&& no_device = 0#16 then do
        let usb_ctl_val ← recheck 7 usb_ctl_val
        pure (Label.removed usb_ctl_val)
      else pure (.removed usb_ctl_val)) := by
    refine (calm_usbRead (by decide)).bind fun u => ?_
    split_ifs
    · exact (calm_recheck 7 u).bind fun _ => calm_ret _
    · exact calm_ret _
  refine (calm_usbRead (by decide) h m).bind fun v h' m' hm' => ?_
  intro i _
  refine ⟨hdone.congr hm'.2, ?_⟩
  exact (hcheck _ m').mono fun _ _ m'' hm'' => hdone.congr (hm''.2.trans hm'.2)

theorem inOrder_body {l : Label} (v : Locals) (hm : Shown l m) :
    InOrder chip (body (l, v)) h m := by
  cases l with
  | main =>
    refine Calm.orders (calm_io_init.bind fun _ => calm_ret _) (fun l' hl' => ?_) hm
    obtain rfl := hl'
    exact ⟨fun _ h => h, fun _ h => h⟩
  | usbHotPlug =>
    refine orders_hotPlug.bind fun _ _ m' hm' => ?_
    refine shown_of_done (n := 0) rfl rfl ?_
    rw [Traffic.Confirmed, hm']
    exact .nil
  | step1 =>
    refine Calm.orders (calm_ask (by decide) fun s => ?_) (fun l' hl' => ?_) hm
    · change Calm chip (if s &&& 0xFFFF#16 = 0#16 then _ else _)
      split_ifs
      · exact calm_ret _
      · exact calm_detect.bind fun _ => calm_ret _
    · obtain rfl | rfl | rfl | ⟨u, rfl⟩ := hl' <;> simp [Label.Needs, Label.done, Label.submitted,
        Request.done, Request.left]
  | noDevice u =>
    refine Calm.orders ?_ (fun l' hl' => ?_) hm
    · simp only [body]
      split_ifs
      · refine (calm_usbRead (by decide)).bind fun u => ?_
        split_ifs <;> exact calm_ret _
      · exact calm_ret _
    · obtain rfl | rfl | ⟨u, rfl⟩ := hl' <;> simp [Label.Needs, Label.done, Label.submitted,
        Request.done, Request.left]
  | request r =>
    refine (orders_requestCode (hm.done _ rfl)).bind fun _ _ m' hm' => ?_
    exact shown_requestStatus hm'.2 hm'.1
  | requestStatus r =>
    refine orders_ask (by decide) fun h s => ?_
    change InOrder chip (if s &&& HPI_STATUS_SIE1msg_FLAG = 0#16 then _ else _) h m
    split_ifs
    · refine (orders_requestCode (hm.done _ rfl)).bind fun _ _ m' hm' => ?_
      exact shown_requestStatus hm'.2 hm'.1
    · exact ⟨hm.done, hm.submitted⟩
  | requestWait r w =>
    have hwait (hw : ∀ u, w ≠ .returned u) : InOrder chip
        (UsbWaitTDListDone w >>= fun w' => .ret (.requestWait r w', v)) h m :=
      (calm_wait w h m).bind fun w' _ m' hm' =>
        ⟨fun n hn => (hm.done n hn).congr hm'.2, fun r hr => hm'.1 ▸ hm.submitted r hr⟩
    cases w with
    | returned u =>
      exact (orders_checkRequest (hm.done _ rfl) (hm.submitted _ rfl)).bind fun _ _ _ hm' => hm'
    | call => exact hwait fun u hu => by cases hu
    | loop u => exact hwait fun u hu => by cases hu
  | retryCnt =>
    refine orders_ask (by decide) fun h s => ?_
    change InOrder chip (if s &&& HPI_STATUS_SIE1msg_FLAG = 0#16 then _ else _) h m
    split_ifs
    · exact hm
    · exact orders_control.bind fun _ _ _ _ => shown_of_none rfl rfl
  | deviceInfo =>
    have hdone := hm.done 5 rfl
    refine (calm_usbRead (by decide) h m).bind fun _ _ m' hm' => ?_
    refine (orders_submit (by decide) fun m'' hbefore hconfirmed => ?_).bind
      fun _ _ m'' hm'' => ?_
    · exact .endpoint (hdone.congr (hconfirmed.trans hm'.2)) hbefore
    · refine (calm_usbRead (by decide) _ _).bind fun _ _ m₃ hm₃ => ?_
      exact shown_of_done (n := 5) rfl rfl (hdone.congr (hm₃.2.trans (hm''.2.trans hm'.2)))
  | poll =>
    refine (orders_poll (hm.done 9 rfl)).bind fun _ _ m' hm' => ?_
    exact shown_of_done rfl rfl hm'
  | pollStatus =>
    refine orders_ask (by decide) fun h s => ?_
    change InOrder chip (if s &&& HPI_STATUS_SIE1msg_FLAG = 0#16 then _ else _) h m
    split_ifs
    · refine (orders_poll (hm.done 9 rfl)).bind fun _ _ m' hm' => ?_
      exact shown_of_done rfl rfl hm'
    · exact ⟨hm.done, hm.submitted⟩
  | pollWait w =>
    have hdone := hm.done 9 rfl
    have hwait (hw : ∀ u, w ≠ .returned u) : InOrder chip
        (UsbWaitTDListDone w >>= fun w' => .ret (.pollWait w', v)) h m :=
      (calm_wait w h m).bind fun w' _ m' hm' => shown_of_done rfl rfl (hdone.congr hm'.2)
    cases w with
    | returned u =>
      refine ((orders_endPoll hdone).and_ends (ends_endPoll u)).bind fun l' _ m' hm' => ?_
      obtain ⟨hdone', u', rfl⟩ := hm'
      exact shown_of_done rfl rfl hdone'
    | call => exact hwait fun u hu => by cases hu
    | loop u => exact hwait fun u hu => by cases hu
  | removed u =>
    refine Calm.orders ?_ (fun l' hl' => ?_) hm
    · simp only [body]
      split_ifs
      · refine (calm_usbRead (by decide)).bind fun _ => (calm_usbRead (by decide)).bind fun _ => ?_
        refine (calm_usbRead (by decide)).bind fun u => ?_
        split_ifs <;> exact calm_ret _
      · exact calm_ret _
    · obtain rfl | rfl | ⟨u, rfl⟩ := hl' <;> simp [Label.Needs, Label.done, Label.submitted]

end Labels

/-! ## Runs -/

section Runs

variable (chip : Chip σ ι) (data_size : BitVec 8) (h : Hpi σ) (ins : ℕ → ι) (m : Traffic)

/-- The traffic up to step `n`, after the traffic `m`. -/
def traffic (n : ℕ) : Traffic := Driven.run Traffic.observe m (event chip data_size h ins) n

/-- Whatever the controller does, and whatever has been seen at the port before: every
list that `main` submits is due, the nine requests in order after each reset, and a
keycode is passed on only from a keyboard for which all nine have been confirmed. -/
theorem enumerates (n : ℕ) :
    Permitted (traffic chip data_size h ins m n) (event chip data_size h ins n) := by
  have hmain : InOrder chip (run chip data_size h ins 0).prog h m := shown_of_none rfl rfl
  exact run_assures (fun _ => trivial) (fun q _ _ _ hm => inOrder_body q.2 hm) hmain
    (fun _ => trivial) n

end Runs

end Driver
