-- SUMMARY: Rules for the code of the driver: properties of its accesses carried over to the labels, where each label goes on, and the rule for a submission.
import PokemonSVE.Usb.Driver

/-!
# Rules for the driver

What sequencing keeps and the accesses of the driver have, all of its code has. Apart
from `submit`, no code of the driver stores to `HUSB_SIE1_pCurrentTDPtr`, so that a
condition on the controller that all else preserves is kept from one submission to the
next. The results here are about an arbitrary controller.
-/

namespace Driver

open Prog

/-! ## Properties of the code -/

/-- Neither the TD list pointer nor in the memory of the lists. -/
def Plain (a : BitVec 16) : Prop :=
  a ≠ HUSB_SIE1_pCurrentTDPtr ∧ (a < 0x0500#16 ∨ 0x0600#16 ≤ a)

instance (a : BitVec 16) : Decidable (Plain a) := inferInstanceAs (Decidable (_ ∧ _))

/-- A property of code that sequencing keeps and that the accesses of the driver have,
except those of a submission. -/
structure Closed (C : {α : Type} → Code α → Prop) : Prop where
  ret : ∀ {α : Type} (a : α), C (.ret a)
  bind : ∀ {α β : Type} {p : Code α} {f : α → Code β}, C p → (∀ a, C (f a)) → C (p >>= f)
  io_init : C IO_init
  io_read : ∀ a, C (IO_read a)
  io_write : ∀ {a}, a ≠ HPI_DATA → ∀ d, C (IO_write a d)
  usbWrite : ∀ {a}, Plain a → ∀ d, C (UsbWrite a d)

namespace Closed

variable {C : {α : Type} → Code α → Prop}

/-! ### usb.c -/

section Usb

theorem usbRead (hC : Closed C) (a : BitVec 16) : C (UsbRead a) :=
  hC.bind (hC.io_write (by decide) a) fun _ => hC.io_read HPI_DATA

theorem usbWrites (hC : Closed C) {l : List (BitVec 16 × BitVec 16)}
    (hl : (l.all fun x => decide (Plain x.1)) = true) : C (UsbWrites l) := by
  induction l with
  | nil => exact hC.ret ()
  | cons x l ih =>
    rw [List.all_cons, Bool.and_eq_true, decide_eq_true_eq] at hl
    exact hC.bind (hC.usbWrite hl.1 x.2) fun _ => ih hl.2

theorem usbSoftReset (hC : Closed C) : C UsbSoftReset := by
  refine hC.bind (hC.io_write (by decide) _) fun _ => ?_
  refine hC.bind (hC.io_read _) fun _ => hC.bind (hC.io_read _) fun _ => ?_
  refine hC.bind (hC.usbRead _) fun _ => hC.bind (hC.usbWrite (by decide) _) fun _ => ?_
  refine hC.bind (hC.usbRead _) fun _ => hC.bind (hC.usbWrite (by decide) _) fun _ => ?_
  exact hC.bind (hC.usbWrite (by decide) _) fun _ => hC.usbWrite (by decide) _

theorem takeMessage (hC : Closed C) : C takeMessage :=
  hC.bind (hC.usbRead _) fun _ => hC.bind (hC.usbWrite (by decide) _) fun _ => hC.ret _

theorem usbWaitTDListDone (hC : Closed C) (w : Wait) : C (UsbWaitTDListDone w) := by
  cases w with
  | call => exact hC.bind hC.takeMessage fun _ => hC.ret _
  | loop v =>
    simp only [UsbWaitTDListDone]
    split_ifs
    · exact hC.bind hC.takeMessage fun _ => hC.ret _
    · exact hC.ret _
  | returned v => exact hC.ret _

end Usb

/-! ### main.c -/

section Main

theorem recheck (hC : Closed C) (n : ℕ) (v : BitVec 16) : C (recheck n v) := by
  induction n generalizing v with
  | zero => exact hC.ret v
  | succ n ih =>
    refine hC.bind (hC.usbRead ctl_reg) fun u => ?_
    split_ifs
    · exact hC.ret u
    · exact ih u

theorem hotPlug (hC : Closed C) : C hotPlug :=
  hC.bind hC.usbSoftReset fun _ => hC.bind (hC.usbWrites (by decide)) fun _ =>
    hC.io_write (by decide) _

theorem busReset (hC : Closed C) : C busReset :=
  hC.bind (hC.usbWrites (by decide)) fun _ => hC.io_write (by decide) _

theorem acknowledged (hC : Closed C) : C acknowledged := by
  refine hC.bind (hC.io_read _) fun m => ?_
  split_ifs
  · exact hC.bind (hC.io_read _) fun _ => hC.ret _
  · exact hC.ret _

theorem detect (hC : Closed C) : C detect := by
  refine hC.bind hC.acknowledged fun ack1 => ?_
  split_ifs
  · refine hC.bind hC.busReset fun _ => hC.bind hC.acknowledged fun ack2 => ?_
    split_ifs
    · refine hC.bind (hC.usbRead _) fun u => ?_
      split_ifs
      · refine hC.bind (hC.recheck 5 u) fun u => ?_
        split_ifs <;> exact hC.ret _
      · exact hC.ret _
    · exact hC.ret _
  · exact hC.ret _

theorem checkRequest (hC : Closed C) (r : Request) : C (checkRequest r) := by
  refine hC.bind (hC.io_write (by decide) _) fun _ => hC.bind (hC.io_read _) fun _ => ?_
  refine hC.bind (hC.io_write (by decide) _) fun _ => hC.bind (hC.io_read _) fun u => ?_
  split_ifs
  · refine hC.bind (hC.io_read _) fun _ => hC.bind (hC.usbRead _) fun m => ?_
    split_ifs
    · exact hC.bind (hC.usbWrite (by decide) _) fun _ => hC.ret _
    · exact hC.bind (hC.usbRead _) fun _ => hC.ret _
  · exact hC.ret _

theorem endPoll (hC : Closed C) (hkeycode : ∀ v, C (keycode_base v)) : C endPoll := by
  refine hC.bind (hC.usbRead _) fun k => hC.bind (hkeycode _) fun _ => ?_
  refine hC.bind (hC.usbRead _) fun u => ?_
  split_ifs
  · exact hC.bind (hC.recheck 7 u) fun u => hC.ret _
  · exact hC.ret _

/-- The program of a label has the property, if its submissions have it and, at the end
of a poll, the store of the keycode. -/
theorem body (hC : Closed C) {l : Label} (v : Locals)
    (hrequest : ∀ r, l = .request r ∨ l = .requestStatus r → C r.code)
    (hpoll : ∀ v, l = .poll ∨ l = .pollStatus → C (submit 0x0500#16 (pollWords v)))
    (hblock : l = .deviceInfo →
      C (submit 0x0576#16 [0x073F#16, 0x8105#16, 0x0003#16, 0x0008#16, 0xAC0A#16]))
    (hkeycode : ∀ u k, l = .pollWait (.returned u) → C (keycode_base k)) :
    C (body (l, v)) := by
  have hgo {α : Type} {p : Code α} (hp : C p) (k : α → Point) :
      C (p >>= fun a => pure (k a)) := hC.bind hp fun _ => hC.ret _
  cases l with
  | main => exact hgo hC.io_init _
  | usbHotPlug => exact hgo hC.hotPlug _
  | step1 =>
    refine hC.bind (hC.io_read _) fun s => ?_
    split_ifs
    · exact hC.ret _
    · exact hgo hC.detect _
  | noDevice u =>
    simp only [Driver.body]
    split_ifs
    · refine hC.bind (hC.usbRead _) fun u => ?_
      split_ifs <;> exact hC.ret _
    · exact hC.ret _
  | request r => exact hgo (hrequest r (.inl rfl)) _
  | requestStatus r =>
    refine hC.bind (hC.io_read _) fun s => ?_
    split_ifs
    · exact hgo (hrequest r (.inr rfl)) _
    · exact hC.ret _
  | requestWait r w =>
    cases w with
    | returned u => exact hgo (hC.checkRequest r) _
    | call => exact hgo (hC.usbWaitTDListDone .call) _
    | loop u => exact hgo (hC.usbWaitTDListDone (.loop u)) _
  | retryCnt =>
    refine hC.bind (hC.io_read _) fun s => ?_
    split_ifs
    · exact hC.ret _
    · exact hgo (hC.usbRead _) _
  | deviceInfo =>
    refine hC.bind (hC.usbRead _) fun _ => hC.bind (hblock rfl) fun _ => ?_
    exact hgo (hC.usbRead _) _
  | poll => exact hgo (hpoll _ (.inl rfl)) _
  | pollStatus =>
    refine hC.bind (hC.io_read _) fun s => ?_
    split_ifs
    · exact hgo (hpoll v (.inr rfl)) _
    · exact hC.ret _
  | pollWait w =>
    cases w with
    | returned u => exact hgo (hC.endPoll fun k => hkeycode u k rfl) _
    | call => exact hgo (hC.usbWaitTDListDone .call) _
    | loop u => exact hgo (hC.usbWaitTDListDone (.loop u)) _
  | removed u =>
    simp only [Driver.body]
    split_ifs
    · refine hC.bind (hC.usbRead _) fun _ => hC.bind (hC.usbRead _) fun _ => ?_
      refine hC.bind (hC.usbRead _) fun u => ?_
      split_ifs <;> exact hC.ret _
    · exact hC.ret _

end Main

end Closed

/-! ## Conditions on the controller -/

variable {σ ι : Type} {chip : Chip σ ι} {Ok : Hpi σ → Cmd → Prop} {J : σ → Prop}

/-- A condition on the controller that only a submission may break, where only a
submission may not be permitted. -/
structure Frame (chip : Chip σ ι) (Ok : Hpi σ → Cmd → Prop) (J : σ → Prop) : Prop where
  acts : ∀ s i, J s → J (chip.acts s i)
  loaded : ∀ s a, J s → J (chip.loaded s a)
  store : ∀ s a d, Plain a → J s → J (chip.store s a d)
  command : ∀ s d, J s → J (chip.command s d)
  keycode : ∀ s v, J s → J (chip.keycode s v)
  ok : ∀ h c, (∀ d, c = .IO_write HPI_DATA d → h.addr ≠ HUSB_SIE1_pCurrentTDPtr) → Ok h c

/-- The code keeps a condition on the controller. -/
abbrev KeepsChip {α : Type} (chip : Chip σ ι) (Ok : Hpi σ → Cmd → Prop) (J : σ → Prop)
    (p : Code α) : Prop :=
  Keeps chip.env Ok (fun h => J h.chip) p

namespace Frame

theorem io_read (hF : Frame chip Ok J) (a : BitVec 8) : KeepsChip chip Ok J (IO_read a) := by
  intro h hJ i
  have hacts : J (chip.acts h.chip i) := hF.acts _ _ hJ
  change J (Hpi.chip (if a = HPI_DATA then _ else _))
  split_ifs
  · exact hF.loaded _ _ hacts
  · exact hacts

theorem io_init (hF : Frame chip Ok J) : KeepsChip chip Ok J IO_init :=
  fun _ hJ i => ⟨hF.ok _ _ (fun _ h => by cases h), hF.acts _ _ hJ⟩

theorem keycode_base (hF : Frame chip Ok J) (v : BitVec 8) :
    KeepsChip chip Ok J (keycode_base v) :=
  fun _ hJ i => ⟨hF.ok _ _ (fun _ h => by cases h), hF.keycode _ _ (hF.acts _ _ hJ)⟩

/-- A write that is not to `HPI_DATA`. -/
theorem io_write (hF : Frame chip Ok J) {a : BitVec 8} (ha : a ≠ HPI_DATA) (d : BitVec 16) :
    KeepsChip chip Ok J (IO_write a d) := by
  intro h hJ i
  have hacts : J (chip.acts h.chip i) := hF.acts _ _ hJ
  refine ⟨hF.ok _ _ fun d' hd => absurd (Cmd.IO_write.inj hd).1 ha, ?_⟩
  change J (Hpi.chip (if a = HPI_DATA then _ else if a = HPI_ADDR then _ else
    if a = HPI_MAILBOX then _ else _))
  rw [if_neg ha]
  split_ifs
  · exact hacts
  · exact hF.command _ _ hacts
  · exact hacts

theorem usbWrite (hF : Frame chip Ok J) {a : BitVec 16} (ha : Plain a)
    (d : BitVec 16) : KeepsChip chip Ok J (UsbWrite a d) := by
  intro h hJ i
  refine ⟨hF.ok _ _ fun d' hd => absurd (Cmd.IO_write.inj hd).1 (by decide), fun j => ⟨?_, ?_⟩⟩
  · exact hF.ok _ _ fun _ _ => ha.1
  · exact hF.store _ _ _ ha (hF.acts _ _ (hF.acts _ _ hJ))

/-- Between two submissions the code keeps the condition. -/
theorem closed (hF : Frame chip Ok J) : Closed fun p => KeepsChip chip Ok J p where
  ret := keeps_ret
  bind := Keeps.bind
  io_init := hF.io_init
  io_read := hF.io_read
  io_write := hF.io_write
  usbWrite := hF.usbWrite

end Frame

/-! ## Labels -/

/-- The program of the label may submit a list. -/
def Label.Submits : Label → Prop
  | .request _ | .requestStatus _ | .deviceInfo | .poll | .pollStatus => True
  | _ => False

/-- The label is in a wait that has not returned. -/
def Label.Waits : Label → Prop
  | .requestWait _ (.returned _) | .pollWait (.returned _) => False
  | .requestWait _ _ | .pollWait _ => True
  | _ => False

/-- The label is outside the parts of `main` from a submission to the end of the wait
that follows it. The list that `deviceInfo` submits is waited for in `setConfig`. -/
def Label.Fresh : Label → Prop
  | .requestStatus _ | .requestWait _ _ | .pollStatus | .pollWait _ => False
  | .request r => r ≠ .setConfig
  | _ => True

/-- The labels that the program of a label goes on to. -/
def Label.Next : Label → Label → Prop
  | .main, l => l = .usbHotPlug
  | .usbHotPlug, l => l = .step1
  | .step1, l =>
    l = .step1 ∨ l = .usbHotPlug ∨ l = .request .setAddress ∨ ∃ u, l = .noDevice u
  | .noDevice _, l => l = .usbHotPlug ∨ l = .request .setAddress ∨ ∃ u, l = .noDevice u
  | .request r, l => l = .requestStatus r
  | .requestStatus r, l => l = .requestStatus r ∨ l = .requestWait r .call
  | .requestWait r (.returned _), l => l = .retryCnt ∨ l = .usbHotPlug ∨ l = r.next
  | .requestWait r _, l => ∃ w, l = .requestWait r w
  | .retryCnt, l => l = .retryCnt ∨ l = .usbHotPlug
  | .deviceInfo, l => l = .request .setConfig
  | .poll, l => l = .pollStatus
  | .pollStatus, l => l = .pollStatus ∨ l = .pollWait .call
  | .pollWait (.returned _), l => ∃ u, l = .removed u
  | .pollWait _, l => ∃ w, l = .pollWait w
  | .removed _, l => l = .usbHotPlug ∨ l = .poll ∨ ∃ u, l = .removed u

theorem ends_detect : detect.Ends (Label.Next .step1) := by
  refine Ends.bind fun ack1 => ?_
  split_ifs
  · refine Ends.bind fun _ => Ends.bind fun ack2 => ?_
    split_ifs
    · refine Ends.bind fun u => ?_
      split_ifs
      · refine Ends.bind fun u => ?_
        split_ifs
        · exact .inr (.inr (.inr ⟨u, rfl⟩))
        · exact .inr (.inr (.inl rfl))
      · exact .inr (.inr (.inl rfl))
    · exact .inr (.inl rfl)
  · exact .inr (.inl rfl)

theorem ends_checkRequest (r : Request) (u : BitVec 16) :
    (checkRequest r).Ends (Label.Next (.requestWait r (.returned u))) := by
  refine Ends.bind fun _ => Ends.bind fun _ => Ends.bind fun _ => Ends.bind fun u => ?_
  split_ifs
  · refine Ends.bind fun _ => Ends.bind fun m => ?_
    split_ifs
    · exact Ends.bind fun _ => .inl rfl
    · exact Ends.bind fun _ => .inr (.inl rfl)
  · exact .inr (.inr rfl)

theorem ends_endPoll (u : BitVec 16) : endPoll.Ends (Label.Next (.pollWait (.returned u))) := by
  refine Ends.bind fun _ => Ends.bind fun _ => Ends.bind fun u => ?_
  split_ifs
  · exact Ends.bind fun u => ⟨u, rfl⟩
  · exact ⟨u, rfl⟩

/-- Where the program of a label goes on, and that without a submission the locals
stay. -/
theorem ends_body (l : Label) (v : Locals) :
    (body (l, v)).Ends fun q => l.Next q.1 ∧ (¬ l.Submits → q.2 = v) := by
  have hgo {p : Code Label} (hp : p.Ends l.Next) :
      (p >>= fun l' => pure (l', v)).Ends fun q => l.Next q.1 ∧ (¬ l.Submits → q.2 = v) :=
    (ends_bind _ _).mpr (hp.mono fun _ hnext => ⟨hnext, fun _ => rfl⟩)
  cases l with
  | main => exact Ends.bind fun _ => ⟨rfl, fun _ => rfl⟩
  | usbHotPlug => exact Ends.bind fun _ => ⟨rfl, fun _ => rfl⟩
  | step1 =>
    refine Ends.bind fun s => ?_
    split_ifs
    · exact ⟨.inl rfl, fun _ => rfl⟩
    · exact hgo ends_detect
  | noDevice u =>
    simp only [body]
    split_ifs
    · refine Ends.bind fun u => ?_
      split_ifs
      · exact ⟨.inl rfl, fun _ => rfl⟩
      · exact ⟨.inr (.inr ⟨u, rfl⟩), fun _ => rfl⟩
    · exact ⟨.inr (.inl rfl), fun _ => rfl⟩
  | request r => exact Ends.bind fun _ => ⟨rfl, absurd trivial⟩
  | requestStatus r =>
    refine Ends.bind fun s => ?_
    split_ifs
    · exact Ends.bind fun _ => ⟨.inl rfl, absurd trivial⟩
    · exact ⟨.inr rfl, absurd trivial⟩
  | requestWait r w =>
    cases w with
    | returned u => exact hgo (ends_checkRequest r u)
    | call => exact Ends.bind fun w => ⟨⟨w, rfl⟩, fun _ => rfl⟩
    | loop u => exact Ends.bind fun w => ⟨⟨w, rfl⟩, fun _ => rfl⟩
  | retryCnt =>
    refine Ends.bind fun s => ?_
    split_ifs
    · exact ⟨.inl rfl, fun _ => rfl⟩
    · exact Ends.bind fun _ => ⟨.inr rfl, fun _ => rfl⟩
  | deviceInfo =>
    exact Ends.bind fun _ => Ends.bind fun _ => Ends.bind fun _ => ⟨rfl, absurd trivial⟩
  | poll => exact Ends.bind fun _ => ⟨rfl, absurd trivial⟩
  | pollStatus =>
    refine Ends.bind fun s => ?_
    split_ifs
    · exact Ends.bind fun _ => ⟨.inl rfl, absurd trivial⟩
    · exact ⟨.inr rfl, absurd trivial⟩
  | pollWait w =>
    cases w with
    | returned u => exact hgo (ends_endPoll u)
    | call => exact Ends.bind fun w => ⟨⟨w, rfl⟩, fun _ => rfl⟩
    | loop u => exact Ends.bind fun w => ⟨⟨w, rfl⟩, fun _ => rfl⟩
  | removed u =>
    simp only [body]
    split_ifs
    · refine Ends.bind fun _ => Ends.bind fun _ => Ends.bind fun u => ?_
      split_ifs
      · exact ⟨.inl rfl, fun _ => rfl⟩
      · exact ⟨.inr (.inr ⟨u, rfl⟩), fun _ => rfl⟩
    · exact ⟨.inr (.inl rfl), fun _ => rfl⟩

/-- Outside the waits and the submissions the code goes on outside. -/
theorem Label.Next.fresh {l l' : Label} (h : l.Next l') (hsubmits : ¬ l.Submits)
    (hwaits : ¬ l.Waits) : l'.Fresh := by
  have hsetAddress : Label.Fresh (.request .setAddress) := by simp [Label.Fresh]
  have hnext (r : Request) : r.next.Fresh := by cases r <;> simp [Request.next, Label.Fresh]
  cases l with
  | main =>
    obtain rfl := h
    exact trivial
  | usbHotPlug =>
    obtain rfl := h
    exact trivial
  | step1 => obtain rfl | rfl | rfl | ⟨u, rfl⟩ := h <;> first | exact trivial | exact hsetAddress
  | noDevice _ => obtain rfl | rfl | ⟨u, rfl⟩ := h <;> first | exact trivial | exact hsetAddress
  | requestWait r w =>
    cases w with
    | returned _ => obtain rfl | rfl | rfl := h <;> first | exact trivial | exact hnext r
    | _ => exact absurd trivial hwaits
  | retryCnt => obtain rfl | rfl := h <;> exact trivial
  | pollWait w =>
    cases w with
    | returned _ =>
      obtain ⟨u, rfl⟩ := h
      exact trivial
    | _ => exact absurd trivial hwaits
  | removed _ => obtain rfl | rfl | ⟨u, rfl⟩ := h <;> exact trivial
  | _ => exact absurd trivial hsubmits

/-- The waits go on in themselves. -/
theorem Label.Next.of_waits {l l' : Label} (h : l.Next l') (hwaits : l.Waits) :
    (∃ r w, l' = .requestWait r w) ∨ ∃ w, l' = .pollWait w := by
  cases l with
  | requestWait r w =>
    cases w with
    | returned _ => exact hwaits.elim
    | _ => exact .inl ⟨r, h⟩
  | pollWait w =>
    cases w with
    | returned _ => exact hwaits.elim
    | _ => exact .inr h
  | _ => exact hwaits.elim

/-- Only submissions lead to the status loop of a poll. -/
theorem Label.Next.ne_pollStatus {l l' : Label} (h : l.Next l') (hsubmits : ¬ l.Submits) :
    l' ≠ .pollStatus := by
  rintro rfl
  by_cases hwaits : l.Waits
  · obtain ⟨r, w, hw⟩ | ⟨w, hw⟩ := h.of_waits hwaits <;> cases hw
  · exact h.fresh hsubmits hwaits

/-- What the code of a label does that submits nothing: the condition and the locals
stay, outside a wait the code goes on outside, and nothing is polled. -/
theorem Frame.body (hF : Frame chip Ok J) {l : Label} (hl : ¬ l.Submits) (v : Locals) {h : Hpi σ}
    (hJ : J h.chip) :
    Holds chip.env Ok
      (fun q h => J h.chip ∧ q.2 = v ∧ (l.Waits ∨ q.1.Fresh) ∧ q.1 ≠ .pollStatus)
      (body (l, v)) h := by
  have hkeeps : KeepsChip chip Ok J (Driver.body (l, v)) := by
    refine hF.closed.body v ?_ ?_ ?_ fun _ k _ => hF.keycode_base k
    · rintro r (rfl | rfl) <;> exact absurd trivial hl
    · rintro v (rfl | rfl) <;> exact absurd trivial hl
    · rintro rfl
      exact absurd trivial hl
  refine ((hkeeps h hJ).and_ends (ends_body l v)).mono fun q h hq => ?_
  obtain ⟨hJ, hnext, hlocals⟩ := hq
  refine ⟨hJ, hlocals hl, ?_, hnext.ne_pollStatus hl⟩
  by_cases hwaits : l.Waits
  · exact .inl hwaits
  · exact .inr (hnext.fresh hl hwaits)

/-! ## Submitting -/

/-- The rule for the data words: `I ws a s` is what is true with the words `ws` left,
to be stored from `a` on. -/
theorem holds_dataWords {I : List (BitVec 16) → BitVec 16 → σ → Prop}
    (hacts : ∀ ws a s i, I ws a s → I ws a (chip.acts s i))
    (hstore : ∀ w ws a s, I (w :: ws) a s →
      Ok ⟨a, s⟩ (.IO_write HPI_DATA w) ∧ I ws (a + 2#16) (chip.store s a w))
    (ws : List (BitVec 16)) {h : Hpi σ} (hI : I ws h.addr h.chip) :
    Holds chip.env Ok (fun _ h => I [] h.addr h.chip) (dataWords ws) h := by
  induction ws generalizing h with
  | nil => exact hI
  | cons w ws ih =>
    intro i
    obtain ⟨hok, hnext⟩ := hstore w ws _ _ (hacts _ _ _ i hI)
    exact ⟨hok, ih hnext⟩

/-- The rule for a submission. -/
theorem holds_submit {I : List (BitVec 16) → BitVec 16 → σ → Prop} {Q : σ → Prop}
    (hok : ∀ h d, Ok h (.IO_write HPI_ADDR d))
    (hacts : ∀ ws a s i, I ws a s → I ws a (chip.acts s i))
    (hstore : ∀ w ws a s, I (w :: ws) a s →
      Ok ⟨a, s⟩ (.IO_write HPI_DATA w) ∧ I ws (a + 2#16) (chip.store s a w))
    {p : BitVec 16} {words : List (BitVec 16)}
    (hsubmit : ∀ a s, I [] a s → Ok ⟨HUSB_SIE1_pCurrentTDPtr, s⟩ (.IO_write HPI_DATA p) ∧
      Q (chip.store s HUSB_SIE1_pCurrentTDPtr p))
    {h : Hpi σ} (hI : I words p h.chip) :
    Holds chip.env Ok (fun _ h => Q h.chip) (submit p words) h := by
  intro i
  refine ⟨hok _ _, ?_⟩
  refine (holds_dataWords hacts hstore words (hacts _ _ _ i hI)).bind fun _ h' hI' => ?_
  intro j
  refine ⟨hok _ _, fun k => ?_⟩
  exact hsubmit h'.addr _ (hacts _ _ _ k (hacts _ _ _ j hI'))

/-- The words stored from `a` on leave the TD list pointer alone. -/
def Avoids : BitVec 16 → List (BitVec 16) → Prop
  | _, [] => True
  | a, _ :: ws => a ≠ HUSB_SIE1_pCurrentTDPtr ∧ Avoids (a + 2#16) ws

instance decidableAvoids : (a : BitVec 16) → (ws : List (BitVec 16)) → Decidable (Avoids a ws)
  | _, [] => inferInstanceAs (Decidable True)
  | a, _ :: ws => @instDecidableAnd _ _ _ (decidableAvoids (a + 2#16) ws)

/-- The controller after words have been stored from `a` on. -/
def Chip.stores (chip : Chip σ ι) (s : σ) : BitVec 16 → List (BitVec 16) → σ
  | _, [] => s
  | a, w :: ws => chip.stores (chip.store s a w) (a + 2#16) ws

/-- The rule for a controller that does nothing by itself: when the pointer is written
the words are in place. -/
theorem holds_submit_stores (hidle : ∀ s i, chip.acts s i = s)
    (hok : ∀ h c, (∀ d, c = .IO_write HPI_DATA d → h.addr ≠ HUSB_SIE1_pCurrentTDPtr) → Ok h c)
    {p : BitVec 16} {words : List (BitVec 16)} (havoids : Avoids p words) {h : Hpi σ}
    (hsubmit : Ok ⟨HUSB_SIE1_pCurrentTDPtr, chip.stores h.chip p words⟩ (.IO_write HPI_DATA p)) :
    Holds chip.env Ok (fun _ h' => h'.chip =
      chip.store (chip.stores h.chip p words) HUSB_SIE1_pCurrentTDPtr p) (submit p words) h := by
  refine holds_submit
    (I := fun ws a s => Avoids a ws ∧ chip.stores s a ws = chip.stores h.chip p words)
    (Q := fun s => s = chip.store (chip.stores h.chip p words) HUSB_SIE1_pCurrentTDPtr p)
    ?_ ?_ ?_ ?_ ⟨havoids, rfl⟩
  · exact fun h d => hok _ _ fun d' hd => absurd (Cmd.IO_write.inj hd).1 (by decide)
  · exact fun ws a s i hI => by rwa [hidle]
  · exact fun w ws a s hI => ⟨hok _ _ fun _ _ => hI.1.1, hI.1.2, hI.2⟩
  · rintro a s ⟨-, rfl⟩
    exact ⟨hsubmit, rfl⟩

/-! ## A controller whose requests succeed -/

/-- What it answers, if `usb` is read from the USB control register. -/
def succeed (c : Config Cmd (BitVec 8) (BitVec 16) (Hpi σ) Point) (usb : BitVec 16) :
    BitVec 16 :=
  match c.prog with
  | .ask a _ =>
    if a = HPI_MAILBOX then COMM_ACK
    else if a = HPI_STATUS then HPI_STATUS_SIE1msg_FLAG
    else if c.state.addr = HPI_SIE1_MSG_ADR then HUSB_TDListDone
    else if c.state.addr = 0x0508#16 then 0x0003#16
    else if c.state.addr = ctl_reg then usb
    else 0#16
  | _ => 0#16

section Succeed

variable (chip : Chip σ (BitVec 16)) (data_size : BitVec 8) (h : Hpi σ) (usb : ℕ → BitVec 16)

/-- The run on its answers. -/
def succeedRun (n : ℕ) : Config Cmd (BitVec 8) (BitVec 16) (Hpi σ) Point :=
  Driven.run (Driven.feedback (Prog.step body chip.env) succeed)
    ⟨.ret (.main, .start data_size), h⟩ usb n

/-- Its answers, one by one. -/
def answers (n : ℕ) : BitVec 16 := succeed (succeedRun chip data_size h usb n) (usb n)

theorem run_answers (n : ℕ) :
    run chip data_size h (answers chip data_size h usb) n = succeedRun chip data_size h usb n :=
  (Driven.run_feedback succeed n).symm

end Succeed

end Driver
