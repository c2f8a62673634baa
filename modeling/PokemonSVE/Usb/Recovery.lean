-- SUMMARY: The driver comes back: if from some step on requests succeed and no wait is left unanswered for ever, keycodes are passed on again and again.
import PokemonSVE.Basis.Progress
import PokemonSVE.Usb.Rules

/-!
# Recovery

Whatever the controller has done before, wherever in `main` that has left the driver,
and whatever the controller does apart from what is assumed here, a controller that
works from some step on brings the driver back to polling.
-/

namespace Driver

open Prog Progress

variable {σ ι : Type}

abbrev HpiEvent (σ : Type) := Event Cmd (BitVec 8) (BitVec 16) (Hpi σ)

/-! ## A controller that works -/

/-- What the loops of the driver wait for. -/
inductive Channel where
  /-- `IO_read(HPI_STATUS)` -/
  | status
  /-- `UsbRead(HPI_SIE1_MSG_ADR)` -/
  | message
  deriving DecidableEq, Repr

def Channel.Asked : Channel → HpiEvent σ → Prop
  | .status, .hears _ q _ => q = HPI_STATUS
  | .message, .hears h q _ => q = HPI_DATA ∧ h.addr = HPI_SIE1_MSG_ADR
  | _, _ => False

def Channel.Answered : Channel → HpiEvent σ → Prop
  | .status, .hears _ q v => q = HPI_STATUS ∧ v &&& HPI_STATUS_SIE1msg_FLAG ≠ 0#16
  | .message, .hears h q v =>
    q = HPI_DATA ∧ h.addr = HPI_SIE1_MSG_ADR ∧ v = HUSB_TDListDone
  | _, _ => False

/-- Commands are acknowledged, TDs end without an error, and a device is there. -/
def Succeeds : HpiEvent σ → Prop
  | .hears h q v =>
    (q = HPI_MAILBOX → v = COMM_ACK) ∧
    (q = HPI_DATA → h.addr = 0x0508#16 → v = 0x03#16) ∧
    (q = HPI_DATA → h.addr = ctl_reg → v &&& no_device ≠ 0#16)
  | _ => True

theorem Channel.Answered.isReply {x : Channel} {e : HpiEvent σ} (h : x.Answered e) :
    e.IsReply := by
  cases e with
  | hears => exact trivial
  | _ => cases x <;> exact h

/-! ## How far it is to the end of a poll -/

def Wait.left : Wait → ℕ
  | .call => 3
  | .loop usb_ctl_val => if usb_ctl_val = HUSB_TDListDone then 1 else 2
  | .returned _ => 0

/-- The requests from this one to the last. -/
def Request.left : Request → ℕ
  | .setAddress => 9
  | .deviceDesc1 => 8
  | .deviceDesc2 => 7
  | .configDesc1 => 6
  | .configDesc2 => 5
  | .setConfig => 4
  | .classRequest => 3
  | .hidDesc => 2
  | .reportDesc => 1

def Label.left : Label → ℕ
  | .main | .retryCnt => 98
  | .usbHotPlug => 97
  | .step1 => 96
  | .noDevice usb_ctl_val => if usb_ctl_val &&& no_device = 0#16 then 98 else 96
  | .request r => 10 * r.left + 5
  | .requestStatus r => 10 * r.left + 4
  | .requestWait r w => 10 * r.left + w.left
  | .deviceInfo => 49
  | .removed usb_ctl_val => if usb_ctl_val &&& no_device = 0#16 then 98 else 6
  | .poll => 5
  | .pollStatus => 4
  | .pollWait w => w.left

def Wait.channel : Wait → Option Channel
  | .loop usb_ctl_val => if usb_ctl_val = HUSB_TDListDone then none else some .message
  | _ => none

/-- The channel that a label waits for. -/
def Label.channel : Label → Option Channel
  | .step1 | .requestStatus _ | .retryCnt | .pollStatus => some .status
  | .requestWait _ w | .pollWait w => w.channel
  | _ => none

theorem Request.left_next (r : Request) : r.next.left < 10 * r.left := by
  cases r <;> decide

/-! ## One label -/

section Body

variable (chip : Chip σ ι)

/-- How code ends that hears what a working controller answers. -/
abbrev Hears {α : Type} (Q : α → List (HpiEvent σ) → Prop) (p : Code α) (h : Hpi σ)
    (t : List (HpiEvent σ)) : Prop :=
  Assures chip.env hear Succeeds (fun _ _ => True) (fun a _ t => Q a t) p h t

/-- It has been asked on the channel, and not well answered. -/
def Channel.Unanswered (x : Channel) (t : List (HpiEvent σ)) : Prop :=
  (∃ e ∈ t, x.Asked e) ∧ ∀ e ∈ t, ¬ x.Answered e

/-- The driver goes on closer to the end of a poll, or waits. -/
def Goes (l l' : Label) (t : List (HpiEvent σ)) : Prop :=
  l'.left < l.left ∨
    l'.left = l.left ∧ ∃ x, l.channel = some x ∧ l'.channel = some x ∧ x.Unanswered t

variable {chip} {h : Hpi σ} {t : List (HpiEvent σ)}

theorem hears_any {α : Type} {Q : α → List (HpiEvent σ) → Prop} (hQ : ∀ a t, Q a t)
    (p : Code α) : Hears chip Q p h t :=
  assures_of_forall (fun _ _ => trivial) (fun a _ t => hQ a t) p h t

theorem hears_ask {α : Type} {Q : α → List (HpiEvent σ) → Prop} {q : BitVec 8}
    {rest : BitVec 16 → Code α}
    (hrest : ∀ h h' v, Succeeds (.hears h q v) →
      Hears chip Q (rest v) h' (.hears h q v :: t)) : Hears chip Q (.ask q rest) h t :=
  fun _ hA => ⟨trivial, hrest _ _ _ hA⟩

theorem hears_usbRead {Q : BitVec 16 → List (HpiEvent σ) → Prop} {a : BitVec 16}
    (hQ : ∀ s v, Succeeds (.hears ⟨a, s⟩ HPI_DATA v) → Q v (.hears ⟨a, s⟩ HPI_DATA v :: t)) :
    Hears chip Q (UsbRead a) h t :=
  fun _ _ => ⟨trivial, fun _ hA => ⟨trivial, hQ _ _ hA⟩⟩

/-- A read of the USB control register finds the device. -/
theorem hears_ctl_reg :
    Hears chip (fun v _ => v &&& no_device ≠ 0#16) (UsbRead ctl_reg) h t :=
  hears_usbRead fun _ _ hA => hA.2.2 rfl rfl

theorem hears_acknowledged : Hears chip (fun ack _ => ack = true) acknowledged h t := by
  refine hears_ask fun h h' v hA => ?_
  change Hears chip _ (if v ≠ COMM_ACK then _ else _) h' _
  rw [if_neg (not_not.mpr (hA.1 rfl))]
  rfl

theorem hears_detect : Hears chip (fun l _ => l = .request .setAddress) detect h t := by
  refine hears_acknowledged.bind fun ack1 h t hack => ?_
  rw [if_pos hack]
  refine (hears_any (fun _ _ => trivial) busReset).bind fun _ h t _ => ?_
  refine hears_acknowledged.bind fun ack2 h t hack => ?_
  rw [if_pos hack]
  refine hears_ctl_reg.bind fun v h t hdevice => ?_
  rw [if_neg hdevice]
  rfl

theorem hears_checkRequest (r : Request) :
    Hears chip (fun l _ => l = r.next) (checkRequest r) h t := by
  refine (hears_any (fun _ _ => trivial) (UsbRead 0x0506#16)).bind fun _ h t _ => ?_
  refine (hears_usbRead (Q := fun v _ => v = 0x03#16) fun _ _ hA => hA.2.1 rfl rfl).bind
    fun v h t hv => ?_
  rw [if_neg (not_not.mpr hv)]
  rfl

theorem hears_takeMessage {Q : BitVec 16 → List (HpiEvent σ) → Prop}
    (hQ : ∀ s v, Q v (.hears ⟨HPI_SIE1_MSG_ADR, s⟩ HPI_DATA v :: t)) :
    Hears chip Q takeMessage h t :=
  fun _ _ => ⟨trivial, fun _ _ => ⟨trivial, fun _ _ => ⟨trivial, fun _ _ =>
    ⟨trivial, hQ _ _⟩⟩⟩⟩

/-- One round of a wait. -/
theorem hears_wait {w : Wait} (hw : ∀ u, w ≠ .returned u) :
    Hears chip (fun w' t => w'.left < w.left ∨
      w'.left = w.left ∧ w.channel = some .message ∧ w'.channel = some .message ∧
        Channel.message.Unanswered t) (UsbWaitTDListDone w) h [] := by
  cases w with
  | call =>
    refine (hears_takeMessage (Q := fun _ _ => True) fun _ _ => trivial).bind fun v _ _ _ => ?_
    left
    simp only [Wait.left]
    split_ifs <;> decide
  | loop u =>
    simp only [UsbWaitTDListDone]
    split_ifs with hu
    · refine (hears_takeMessage (Q := fun v t => v = HUSB_TDListDone ∨
        Channel.message.Unanswered t) fun s v => ?_).bind fun v _ t hv => ?_
      · by_cases hv : v = HUSB_TDListDone
        · exact .inl hv
        · right
          refine ⟨⟨_, List.mem_cons_self, rfl, rfl⟩, fun e he => ?_⟩
          obtain rfl := List.mem_singleton.mp he
          exact fun h => hv h.2.2
      · by_cases hdone : v = HUSB_TDListDone
        · left
          simp [Wait.left, hdone, hu]
        · right
          simp only [Wait.left, Wait.channel, if_neg hdone, if_neg hu, true_and]
          exact hv.resolve_left hdone
    · left
      simp [Wait.left, not_not.mp hu]
  | returned u => exact absurd rfl (hw u)

/-- A wait among the labels. -/
theorem goes_wait {l : Wait → Label} {n : ℕ} (hleft : ∀ w, (l w).left = n + w.left)
    (hchannel : ∀ w, (l w).channel = w.channel) {w : Wait} (hw : ∀ u, w ≠ .returned u)
    (v : Locals) :
    Hears chip (fun q t => Goes (l w) q.1 t)
      (UsbWaitTDListDone w >>= fun w' => .ret (l w', v)) h [] := by
  refine (hears_wait hw).bind fun w' _ t hw' => ?_
  obtain hlt | ⟨heq, hw, hw', hun⟩ := hw'
  · left
    rw [hleft, hleft]
    exact Nat.add_lt_add_left hlt n
  · right
    rw [hleft, hleft, hchannel, hchannel, heq]
    exact ⟨rfl, .message, hw, hw', hun⟩

/-- A loop on the status that goes on has read a status without the flag. -/
theorem unanswered_status {q : BitVec 8} {h : Hpi σ} {v : BitVec 16} (hq : q = HPI_STATUS)
    (hv : v &&& HPI_STATUS_SIE1msg_FLAG = 0#16) : Channel.status.Unanswered [.hears h q v] := by
  refine ⟨⟨_, List.mem_cons_self, hq⟩, fun e he => ?_⟩
  obtain rfl := List.mem_singleton.mp he
  exact fun h => h.2 hv

theorem silent_dataWords (words : List (BitVec 16)) : (dataWords words).Silent := by
  induction words with
  | nil => trivial
  | cons w ws ih => exact ih

theorem silent_submit (p : BitVec 16) (words : List (BitVec 16)) : (submit p words).Silent :=
  (silent_dataWords words).bind fun _ => trivial

theorem silent_requestCode (r : Request) : r.code.Silent := by
  cases r <;> exact silent_submit _ _

/-- The submission is repeated until the status has the flag. -/
theorem hears_status {l again next : Label} {v v' : Locals} {code : Code Unit}
    (hcode : code.Silent) (hl : l.channel = some .status) (hagain : again.channel = some .status)
    (hleft : again.left = l.left) (hnext : next.left < l.left) :
    Hears chip (fun q t => Goes l q.1 t)
      (.ask HPI_STATUS fun s => if s &&& HPI_STATUS_SIE1msg_FLAG = 0#16 then
        code >>= fun _ => .ret (again, v) else .ret (next, v')) h [] := by
  refine hears_ask fun h h' s _ => ?_
  split_ifs with hs
  · refine (hcode.assures (fun _ _ => trivial) h').bind fun _ _ t ht => ?_
    subst ht
    exact .inr ⟨hleft, .status, hl, hagain, unanswered_status rfl hs⟩
  · exact .inl hnext

/-- Everywhere but at the end of a poll the driver goes on closer to it, or waits. -/
theorem goes_body {l : Label} (hl : ∀ u, l ≠ .pollWait (.returned u)) (v : Locals) :
    Hears chip (fun q t => Goes l q.1 t) (body (l, v)) h [] := by
  -- The labels from which every way leads closer.
  have hcloser (hnext : ∀ l', l.Next l' → l'.left < l.left) :
      Hears chip (fun q t => Goes l q.1 t) (body (l, v)) h [] :=
    (Ends.assures (fun _ _ => trivial) (ends_body l v) h _).mono
      fun q _ _ hq => .inl (hnext q.1 hq.1)
  cases l with
  | main => exact hcloser fun l' hl' => by obtain rfl := hl'; decide
  | usbHotPlug => exact hcloser fun l' hl' => by obtain rfl := hl'; decide
  | step1 =>
    refine hears_ask fun h h' s _ => ?_
    change Hears chip _ (if s &&& 0xFFFF#16 = 0#16 then _ else _) h' _
    split_ifs with hs
    · refine .inr ⟨rfl, .status, rfl, rfl, unanswered_status rfl ?_⟩
      have hzero : s = 0#16 := by
        rw [← BitVec.and_allOnes (x := s)]
        exact hs
      rw [hzero]
      rfl
    · refine hears_detect.bind fun l' _ t hl' => ?_
      subst hl'
      left
      change Label.left (.request .setAddress) < Label.left .step1
      decide
  | noDevice u =>
    simp only [body]
    split_ifs with hu
    · refine hears_ctl_reg.bind fun u' _ t hu' => ?_
      rw [if_pos hu']
      left
      simp [Label.left, hu]
    · left
      simp [Label.left, hu, Request.left]
  | request r => exact hcloser fun l' hl' => by obtain rfl := hl'; simp [Label.left]
  | requestStatus r =>
    exact hears_status (silent_requestCode r) rfl rfl rfl (by simp [Label.left, Wait.left])
  | requestWait r w =>
    cases w with
    | returned u =>
      refine (hears_checkRequest r).bind fun l' _ t hl' => ?_
      subst hl'
      exact .inl r.left_next
    | call => exact goes_wait (fun _ => rfl) (fun _ => rfl) (fun u hu => by cases hu) v
    | loop u => exact goes_wait (fun _ => rfl) (fun _ => rfl) (fun u hu => by cases hu) v
  | retryCnt =>
    refine hears_ask fun h h' s _ => ?_
    change Hears chip _ (if s &&& HPI_STATUS_SIE1msg_FLAG = 0#16 then _ else _) h' _
    split_ifs with hs
    · exact .inr ⟨rfl, .status, rfl, rfl, unanswered_status rfl hs⟩
    · refine (hears_any (fun _ _ => trivial) (UsbRead 0x0508#16)).bind fun _ _ t _ => ?_
      left
      change Label.left .usbHotPlug < Label.left .retryCnt
      decide
  | deviceInfo => exact hcloser fun l' hl' => by obtain rfl := hl'; decide
  | poll => exact hcloser fun l' hl' => by obtain rfl := hl'; decide
  | pollStatus => exact hears_status (silent_submit _ _) rfl rfl rfl (by decide)
  | pollWait w =>
    have hwait (hw : ∀ u, w ≠ .returned u) :
        Hears chip (fun q t => Goes (.pollWait w) q.1 t)
          (UsbWaitTDListDone w >>= fun w' => .ret (.pollWait w', v)) h [] :=
      goes_wait (l := .pollWait) (n := 0) (fun w => (Nat.zero_add w.left).symm) (fun _ => rfl) hw v
    cases w with
    | returned u => exact absurd rfl (hl u)
    | call => exact hwait fun u hu => by cases hu
    | loop u => exact hwait fun u hu => by cases hu
  | removed u =>
    simp only [body]
    split_ifs with hu
    · refine hears_ctl_reg.bind fun _ _ t _ => hears_ctl_reg.bind fun _ _ t _ => ?_
      refine hears_ctl_reg.bind fun u' _ t hu' => ?_
      rw [if_pos hu']
      left
      simp [Label.left, hu]
    · left
      simp [Label.left, hu]

end Body

/-! ## Runs -/

section Runs

variable (chip : Chip σ ι) (data_size : BitVec 8) (h : Hpi σ) (ins : ℕ → ι)

/-- What happens at step `n` of a run of the driver. -/
def event (n : ℕ) : HpiEvent σ := (run chip data_size h ins n).event chip.env (ins n)

/-- From step `n` on the outcomes are those of a working controller. -/
def SucceedsFrom (n : ℕ) : Prop := ∀ k ≥ n, Succeeds (event chip data_size h ins k)

/-- A channel that is asked again and again is answered again and again. -/
def Fair : Prop := ∀ x : Channel,
  Recurs (fun n => x.Asked (event chip data_size h ins n)) →
    Recurs fun n => x.Answered (event chip data_size h ins n)

/-- The end of a poll: the word read from the report is passed on to the game. -/
def PassesOn (n : ℕ) : Prop := ∃ h₁ h₂ v,
  h₁.addr = 0x051E#16 ∧ event chip data_size h ins n = .hears h₁ HPI_DATA v ∧
    event chip data_size h ins (n + 1) = .issues h₂ (.keycode (v.setWidth 8))

variable {chip data_size h ins}

theorem event_add (m k : ℕ) :
    event chip data_size h ins (m + k) =
      events body chip.env (run chip data_size h ins m) (fun j => ins (m + j)) k :=
  events_add m k

/-- From any step on the driver comes to a label. -/
theorem exists_stands (n : ℕ) : ∃ m ≥ n, ∃ q, (run chip data_size h ins m).prog = .ret q := by
  obtain ⟨d, q, hq⟩ := exists_label body chip.env (run chip data_size h ins n) fun j => ins (n + j)
  refine ⟨n + d, Nat.le_add_right n d, q, ?_⟩
  rw [← hq]
  exact congrArg Config.prog (Driven.run_add n d)

variable (chip data_size h ins) in
/-- From step `n₀` on the driver has come to the label at step `m`. -/
def Stands (n₀ m : ℕ) (l : Label) : Prop :=
  n₀ ≤ m ∧ ∃ v, (run chip data_size h ins m).prog = .ret (l, v)

/-- From a label the driver goes on as `Goes` says, if the outcomes are good. -/
theorem Stands.advances {n₀ m : ℕ} {l : Label} (hl : Stands chip data_size h ins n₀ m l)
    (hsucceeds : SucceedsFrom chip data_size h ins n₀) (hend : ∀ u, l ≠ .pollWait (.returned u)) :
    Advances Label.left Label.channel (Stands chip data_size h ins n₀)
      (fun x n => x.Asked (event chip data_size h ins n))
      (fun x n => x.Answered (event chip data_size h ins n)) m l := by
  obtain ⟨hm, v, hprog⟩ := hl
  have harrives : event chip data_size h ins m = .arrives := by
    rw [event, Config.event, hprog]
  have hbody : (run chip data_size h ins (m + 1)).prog = body (l, v) := by
    change (Prog.step body chip.env (run chip data_size h ins m) (ins m)).prog = _
    rw [Prog.step, hprog]
  have hgoes : Hears chip (fun q t => Goes l q.1 t) (run chip data_size h ins (m + 1)).prog
      (run chip data_size h ins (m + 1)).state [] := by
    rw [hbody]
    exact goes_body hend v
  have hA (k : ℕ) : Succeeds (events body chip.env (run chip data_size h ins (m + 1))
      (fun j => ins (m + 1 + j)) k) := by
    rw [← event_add]
    exact hsucceeds _ (by omega)
  obtain ⟨d, ⟨l', v'⟩, hq, hnext⟩ := exists_arrival hgoes hA
  have hstands : (run chip data_size h ins (m + 1 + d)).prog = .ret (l', v') := by
    rw [← hq]
    exact congrArg Config.prog (Driven.run_add (m + 1) d)
  refine ⟨m + 1 + d, by omega, l', ⟨by omega, v', hstands⟩, hnext.imp_right ?_⟩
  rintro ⟨hleft, x, hx, hx', ⟨e, he, hask⟩, hnone⟩
  refine ⟨hleft, x, hx, hx', ?_, fun k hk hkd hans => ?_⟩
  · obtain ⟨-, k, hk, rfl⟩ := mem_run_hear.mp he
    rw [← event_add] at hask
    exact ⟨m + 1 + k, by omega, by omega, hask⟩
  · rcases Nat.eq_or_lt_of_le hk with rfl | hlt
    · rw [harrives] at hans
      cases x <;> exact hans
    · obtain ⟨j, rfl⟩ : ∃ j, k = m + 1 + j := ⟨k - (m + 1), by omega⟩
      rw [event_add] at hans
      exact hnone _ (mem_run_hear.mpr ⟨hans.isReply, j, by omega, rfl⟩) hans

/-- The end of a poll passes the keycode on. -/
theorem passesOn_of_returned {m : ℕ} {u : BitVec 16} {v : Locals}
    (hprog : (run chip data_size h ins m).prog = .ret (.pollWait (.returned u), v)) :
    PassesOn chip data_size h ins (m + 2) := by
  have hevent (k : ℕ) : event chip data_size h ins (m + k) =
      events body chip.env ⟨.ret (.pollWait (.returned u), v), (run chip data_size h ins m).state⟩
        (fun j => ins (m + j)) k := by
    rw [event_add, ← hprog]
  rw [PassesOn, Nat.add_assoc, hevent, hevent]
  refine ⟨_, _, _, ?_, rfl, rfl⟩
  rfl

/-- If from some step on the requests succeed, and no wait is left unanswered for ever,
then keycodes are passed on again and again. -/
theorem recurs_passesOn (hsucceeds : ∃ n₀, SucceedsFrom chip data_size h ins n₀)
    (hfair : Fair chip data_size h ins) : Recurs (PassesOn chip data_size h ins) := by
  obtain ⟨n₀, hsucceeds⟩ := hsucceeds
  intro n
  obtain ⟨m, hm, ⟨l, v⟩, hprog⟩ : ∃ m ≥ max n₀ n, ∃ q,
      (run chip data_size h ins m).prog = .ret q := exists_stands _
  have hstands : Stands chip data_size h ins n₀ m l := ⟨by omega, v, hprog⟩
  obtain ⟨m', hm', l', ⟨-, v', hprog'⟩, u, rfl⟩ :=
    exists_target (T := fun l => ∃ u, l = .pollWait (.returned u)) hfair
      (fun m l hl hT => hl.advances hsucceeds fun u hu => hT ⟨u, hu⟩) hstands
  exact ⟨m' + 2, by omega, passesOn_of_returned hprog'⟩

end Runs

/-! ## A controller that is late -/

/-- It works after `past` steps. `list` is how many steps the list under way still takes, and
0 from its end until the message has been read. -/
structure Late where
  past : ℕ
  list : Option ℕ
  deriving DecidableEq, Repr

/-- At first nothing is acknowledged. Then a list is taken when there is none, and its end is
told after 20 steps. Every report has Enter. -/
def lateChip : Chip Late Unit where
  acts s _ := if s.past = 0 then ⟨0, s.list.map (· - 1)⟩ else ⟨s.past - 1, s.list⟩
  load s _ a :=
    if s.past ≠ 0 then 0x0000#16
    else if a = HPI_SIE1_MSG_ADR then if s.list = some 0 then HUSB_TDListDone else 0x0000#16
    else if a = 0x0508#16 then 0x0003#16
    else if a = 0x051E#16 then 0x0028#16 else no_device
  loaded s a := if a = HPI_SIE1_MSG_ADR ∧ s.list = some 0 then ⟨s.past, none⟩ else s
  store s a _ :=
    if a = HUSB_SIE1_pCurrentTDPtr ∧ s.past = 0 ∧ s.list = none then ⟨0, some 20⟩ else s
  status s _ := if s.list = some 0 then HPI_STATUS_SIE1msg_FLAG else 0x0001#16
  mailbox s _ := if s.past ≠ 0 then 0x0000#16 else COMM_ACK
  command s _ := s
  keycode s _ := s

/-- It starts with 200 steps in which it does not work. -/
def lateStart : Hpi Late := ⟨0x0000#16, ⟨200, none⟩⟩

section Late

abbrev lateRun : ℕ → Config Cmd (BitVec 8) (BitVec 16) (Hpi Late) Point :=
  run lateChip 0x00#8 lateStart fun _ => ()

variable {c : Config Cmd (BitVec 8) (BitVec 16) (Hpi Late) Point}

theorem past_acts (s : Late) : (lateChip.acts s ()).past = s.past - 1 := by
  simp only [lateChip]
  split_ifs with h
  · rw [h]
  · rfl

theorem past_loaded (s : Late) (a : BitVec 16) : (lateChip.loaded s a).past = s.past := by
  simp only [lateChip]
  split_ifs <;> rfl

theorem past_store (s : Late) (a d : BitVec 16) : (lateChip.store s a d).past = s.past := by
  simp only [lateChip]
  split_ifs with h
  · exact h.2.1.symm
  · rfl

/-- Whatever the driver does, each step takes one from the past. -/
theorem past_step : (step body lateChip.env c ()).state.chip.past = c.state.chip.past - 1 := by
  obtain ⟨prog, addr, chip⟩ := c
  rw [← past_acts]
  cases prog with
  | ret l => rfl
  | emit cmd rest =>
    cases cmd with
    | IO_write Address Data =>
      simp only [step, Chip.env]
      split_ifs
      · exact past_store _ _ Data
      · rfl
      · rfl
      · rfl
    | _ => rfl
  | ask q rest =>
    simp only [step, Chip.env]
    split_ifs
    · exact past_loaded _ _
    · rfl

theorem past_lateRun (n : ℕ) : (lateRun n).state.chip.past = 200 - n := by
  induction n with
  | zero => rfl
  | succ n ih =>
    change (step body lateChip.env (lateRun n) ()).state.chip.past = _
    rw [past_step, ih, Nat.sub_sub]

/-- After its past it works. -/
theorem succeeds_lateChip (hpast : c.state.chip.past = 0) :
    Succeeds (c.event lateChip.env ()) := by
  obtain ⟨prog, addr, past, list⟩ := c
  obtain rfl : past = 0 := hpast
  cases prog with
  | ask q rest =>
    refine ⟨?_, ?_, ?_⟩
    · rintro rfl
      rfl
    · rintro rfl (rfl : addr = _)
      rfl
    · rintro rfl (rfl : addr = _)
      change no_device &&& no_device ≠ 0#16
      decide
  | _ => exact trivial

theorem succeedsFrom_lateChip : SucceedsFrom lateChip 0x00#8 lateStart (fun _ => ()) 200 :=
  fun k hk => succeeds_lateChip (c := lateRun k) (by rw [past_lateRun]; omega)

/-- It is polled, and has no list. -/
def Polled (c : Config Cmd (BitVec 8) (BitVec 16) (Hpi Late) Point) : Prop :=
  ∃ addr v, c = ⟨.ret (.poll, v), ⟨addr, ⟨0, none⟩⟩⟩

/-- Three times the driver starts again at `USB_HOT_PLUG`. Then it enumerates the device. -/
theorem polled_first : Polled (lateRun 997) := by
  have hlabel : (lateRun 997).prog.label? = some (.poll, ⟨0x00#8, 0x00#8⟩) := by decide +kernel
  have hchip : (lateRun 997).state.chip = ⟨0, none⟩ := by decide +kernel
  generalize lateRun 997 = c at hlabel hchip
  obtain ⟨prog, addr, chip⟩ := c
  obtain rfl : chip = _ := hchip
  obtain rfl : prog = _ := eq_ret_of_label? hlabel
  exact ⟨_, _, rfl⟩

/-- A poll takes 47 steps. The status has the flag when it is read for the third time. -/
theorem late_round (addr : BitVec 16) (v : Locals) :
    let c : Config Cmd (BitVec 8) (BitVec 16) (Hpi Late) Point :=
      ⟨.ret (.poll, v), ⟨addr, ⟨0, none⟩⟩⟩
    runFrom body lateChip.env c (fun _ => ()) 47 =
        ⟨.ret (.poll, ⟨v.toggle + 1#8, v.data_size⟩), ⟨0xC08C#16, ⟨0, none⟩⟩⟩ ∧
      Channel.status.Answered (events body lateChip.env c (fun _ => ()) 33) ∧
      Channel.message.Answered (events body lateChip.env c (fun _ => ()) 36) := by
  simp [runFrom, events, Config.event, Driven.run, step, body, submit, pollWords, dataWords,
    UsbWrite, UsbRead, UsbWaitTDListDone, takeMessage, endPoll, keycode_base, IO_write, IO_read,
    Chip.env, lateChip, Channel.Answered, HPI_ADDR, HPI_DATA, HPI_STATUS, HPI_SIE1_MSG_ADR,
    HUSB_SIE1_pCurrentTDPtr, HPI_STATUS_SIE1msg_FLAG, HUSB_TDListDone, ctl_reg, USB1_CTL_REG,
    no_device]

theorem lateRun_add (m k : ℕ) :
    lateRun (m + k) = runFrom body lateChip.env (lateRun m) (fun _ => ()) k := Driven.run_add m k

theorem polled_lateRun (j : ℕ) : Polled (lateRun (997 + 47 * j)) := by
  induction j with
  | zero => exact polled_first
  | succ j ih =>
    obtain ⟨addr, v, hpoll⟩ := ih
    have hindex : 997 + 47 * (j + 1) = 997 + 47 * j + 47 := by omega
    rw [hindex, lateRun_add, hpoll, (late_round addr v).1]
    exact ⟨_, _, rfl⟩

theorem fair_lateChip : Fair lateChip 0x00#8 lateStart fun _ => () := by
  intro x _ n
  obtain ⟨addr, v, hpoll⟩ := polled_lateRun n
  have hevent (k : ℕ) : event lateChip 0x00#8 lateStart (fun _ => ()) (997 + 47 * n + k) =
      events body lateChip.env ⟨.ret (.poll, v), ⟨addr, ⟨0, none⟩⟩⟩ (fun _ => ()) k := by
    rw [event_add, ← hpoll]
  obtain ⟨-, hstatus, hmessage⟩ := late_round addr v
  rw [← hevent] at hstatus hmessage
  cases x with
  | status => exact ⟨_, by omega, hstatus⟩
  | message => exact ⟨_, by omega, hmessage⟩

end Late

end Driver
