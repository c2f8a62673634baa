-- SUMMARY: Completions of TD lists and the waits of the driver: when a return of `UsbWaitTDListDone` means that everything submitted is completed.
import PokemonSVE.Usb.Rules
import Mathlib.Logic.Function.Iterate

/-!
# Completions

The controller completes the submitted lists in order, each after any delay, and
announces a completion in the message register and by a flag. A completion says that
one list is done. The loops that submit a list again do not know whether an earlier
submission is still pending, so that one completion may be taken for another.
-/

namespace Driver

open Prog

/-- The controller as far as completions go. -/
structure Controller where
  /-- Lists that are submitted and not completed. -/
  pending : ℕ
  msg : BitVec 16
  /-- `HPI_STATUS_SIE1msg_FLAG` -/
  flag : Bool
  /-- A result has been read while a list was pending. -/
  stale : Bool
  deriving DecidableEq, Repr

/-- What the controller does before a step, and the word that it answers where the
model does not say more. -/
structure Behaviour where
  completions : ℕ
  word : BitVec 16
  deriving DecidableEq, Repr

/-- The words that hold the results: the TD status and control words, and the keycode. -/
def results : List (BitVec 16) := [0x0506#16, 0x0508#16, 0x051E#16]

namespace Controller

def complete (s : Controller) : Controller :=
  if s.pending = 0 then s
  else { s with pending := s.pending - 1, msg := HUSB_TDListDone, flag := true }

def chip : Chip Controller Behaviour where
  acts s i := complete^[i.completions] s
  load s i address := if address = HPI_SIE1_MSG_ADR then s.msg else i.word
  loaded s address :=
    if address = HPI_SIE1_MSG_ADR then { s with flag := false }
    else if address ∈ results then { s with stale := s.stale || s.pending ≠ 0 }
    else s
  store s address data :=
    if address = HPI_SIE1_MSG_ADR then { s with msg := data }
    else if address = HUSB_SIE1_pCurrentTDPtr then { s with pending := s.pending + 1 }
    else s
  status s i :=
    if s.flag then i.word ||| HPI_STATUS_SIE1msg_FLAG
    else i.word &&& ~~~HPI_STATUS_SIE1msg_FLAG
  mailbox _ i := i.word
  command s _ := s
  keycode s _ := s

/-- At the start of `main`, where nothing is submitted. -/
def start (msg : BitVec 16) (flag : Bool) : Controller := ⟨0, msg, flag, false⟩

/-- Nothing is pending, or one list whose completion has not been announced. -/
def Ready (s : Controller) : Prop :=
  s.pending = 0 ∨ s.pending = 1 ∧ s.msg ≠ HUSB_TDListDone

instance (s : Controller) : Decidable s.Ready := inferInstanceAs (Decidable (_ ∨ _))

/-- Nothing is pending, and no stale result has been read. -/
structure Quiet (s : Controller) : Prop where
  pending : s.pending = 0
  fresh : s.stale = false

end Controller

/-! ## Matching in a run -/

/-- A completion is matched with its own list: when a wait returns and when the next
list begins everything submitted is completed, and so it is whenever a result is read. -/
structure Matched (c : Config Cmd (BitVec 8) (BitVec 16) (Hpi Controller) Point) : Prop where
  request : ∀ r u v, c.prog = .ret (.requestWait r (.returned u), v) → c.state.chip.pending = 0
  poll : ∀ u v, c.prog = .ret (.pollWait (.returned u), v) → c.state.chip.pending = 0
  nextRequest : ∀ r v, c.prog = .ret (.request r, v) → c.state.chip.pending = 0
  nextDescriptor : ∀ v, c.prog = .ret (.deviceInfo, v) → c.state.chip.pending = 0
  nextPoll : ∀ v, c.prog = .ret (.poll, v) → c.state.chip.pending = 0
  results : c.state.chip.stale = false

/-- Every call of `UsbWaitTDListDone` finds the controller ready, and the list of
`deviceInfo` is completed when the configuration is set. -/
structure Timely (c : Config Cmd (BitVec 8) (BitVec 16) (Hpi Controller) Point) : Prop where
  request : ∀ r v, c.prog = .ret (.requestWait r .call, v) → c.state.chip.Ready
  poll : ∀ v, c.prog = .ret (.pollWait .call, v) → c.state.chip.Ready
  descriptor : ∀ v, c.prog = .ret (.request .setConfig, v) → c.state.chip.pending = 0

/-! ## The controller -/

namespace Controller

theorem complete_pending (s : Controller) : (complete s).pending = s.pending - 1 := by
  unfold complete
  split_ifs with h
  · omega
  · rfl

theorem complete_stale (s : Controller) : (complete s).stale = s.stale := by
  unfold complete
  split_ifs <;> rfl

theorem acts_pending (s : Controller) (i : Behaviour) :
    (chip.acts s i).pending = s.pending - i.completions := by
  obtain ⟨n, word⟩ := i
  change (complete^[n] s).pending = s.pending - n
  induction n generalizing s with
  | zero => rfl
  | succ n ih =>
    rw [Function.iterate_succ_apply, ih, complete_pending]
    omega

theorem acts_stale (s : Controller) (i : Behaviour) : (chip.acts s i).stale = s.stale :=
  Function.Iterate.rec (fun t : Controller => t.stale = s.stale) rfl
    (fun t ht => (complete_stale t).trans ht) i.completions

/-- Without a completion nothing changes, and with one of a ready controller nothing
is pending. -/
theorem Ready.acts {s : Controller} (h : s.Ready) (i : Behaviour) : (chip.acts s i).Ready := by
  obtain ⟨n, word⟩ := i
  cases n with
  | zero => exact h
  | succ n =>
    refine .inl ?_
    rw [acts_pending]
    rcases h with h | ⟨h, -⟩ <;> simp only [h] <;> omega

theorem acts_fresh {s : Controller} (h : s.stale = false) (i : Behaviour) :
    (chip.acts s i).stale = false :=
  (acts_stale s i).trans h

theorem Quiet.acts {s : Controller} (h : s.Quiet) (i : Behaviour) : (chip.acts s i).Quiet :=
  ⟨by rw [acts_pending, h.pending, Nat.zero_sub], acts_fresh h.fresh i⟩

/-- With nothing pending no code but a submission changes that. -/
theorem frame_quiet : Frame chip (fun _ _ => True) Quiet where
  acts _ i h := h.acts i
  loaded s a h := by
    change Quiet (if _ then _ else if _ then _ else _)
    split_ifs
    · exact ⟨h.pending, h.fresh⟩
    · exact ⟨h.pending, by simp [h.fresh, h.pending]⟩
    · exact h
  store s a d ha h := by
    change Quiet (if _ then _ else if _ then _ else _)
    rw [if_neg ha.1]
    split_ifs
    · exact ⟨h.pending, h.fresh⟩
    · exact h
  command _ _ h := h
  keycode _ _ h := h
  ok _ _ _ := trivial

end Controller

/-! ## A wait -/

section Wait

open Controller

/-- What is known at the places of a wait. -/
def WaitInv (w : Wait) (s : Controller) : Prop :=
  match w with
  | .call => s.Ready
  | .loop v => s.Ready ∧ (v = HUSB_TDListDone → s.pending = 0)
  | .returned _ => s.pending = 0

theorem WaitInv.acts {w : Wait} {s : Controller} (h : WaitInv w s) (i : Behaviour) :
    WaitInv w (chip.acts s i) := by
  have hzero (h0 : s.pending = 0) : (chip.acts s i).pending = 0 := by
    rw [acts_pending, h0, Nat.zero_sub]
  cases w with
  | call => exact Ready.acts h i
  | loop v => exact ⟨h.1.acts i, fun hv => hzero (h.2 hv)⟩
  | returned v => exact hzero h

/-- A round of the loop: what is read is the completion message only if nothing is
pending, and clearing the register keeps the controller ready. -/
theorem holds_takeMessage {h : Hpi Controller} (hready : h.chip.Ready) :
    Holds chip.env (fun _ _ => True) (fun v h => WaitInv (.loop v) h.chip) takeMessage h := by
  intro i0
  refine ⟨trivial, fun i1 i2 => ⟨trivial, fun i3 => ⟨trivial, ?_⟩⟩⟩
  -- The register is read in the state `s`, and cleared in the state `t`.
  let s := chip.acts (chip.acts h.chip i0) i1
  let t := chip.acts (chip.acts { s with flag := false } i2) i3
  have hs : s.Ready := (hready.acts i0).acts i1
  have hread : WaitInv (.loop s.msg) { s with flag := false } :=
    ⟨hs, fun hmsg => hs.resolve_right fun h => h.2 hmsg⟩
  have ht : WaitInv (.loop s.msg) t := (hread.acts i2).acts i3
  have hcleared : (0#16 : BitVec 16) ≠ HUSB_TDListDone := by decide
  exact ⟨ht.1.imp id fun hone => ⟨hone.1, hcleared⟩, ht.2⟩

theorem holds_wait {h : Hpi Controller} {w : Wait} (hw : WaitInv w h.chip) :
    Holds chip.env (fun _ _ => True) (fun w h => WaitInv w h.chip) (UsbWaitTDListDone w) h := by
  cases w with
  | call => exact (holds_takeMessage hw).bind fun v h hv => hv
  | loop v =>
    simp only [UsbWaitTDListDone]
    split_ifs with hv
    · exact (holds_takeMessage hw.1).bind fun v h hv => hv
    · exact hw.2 (not_not.mp hv)
  | returned v => exact hw

/-- A call returns only with everything completed, whatever the controller does during
the call, exactly if the controller is ready at the call. -/
theorem returns_completed_iff (h : Hpi Controller) :
    (∀ ins n u, (Prog.run UsbWaitTDListDone chip.env .call h ins n).prog = .ret (.returned u) →
      (Prog.run UsbWaitTDListDone chip.env .call h ins n).state.chip.pending = 0) ↔
    h.chip.Ready := by
  constructor
  · intro hreturns
    by_contra hready
    rw [Controller.Ready, not_or, not_and_or, not_not] at hready
    -- One completion, unless one is announced already, and the call returns.
    let first : Behaviour := ⟨if h.chip.msg = HUSB_TDListDone then 0 else 1, 0#16⟩
    let ins : ℕ → Behaviour := fun n => if n = 0 then first else ⟨0, 0#16⟩
    let s := chip.acts h.chip first
    have hmsg : s.msg = HUSB_TDListDone := by
      by_cases hm : h.chip.msg = HUSB_TDListDone
      · simp [s, first, chip, hm]
      · simp [s, first, chip, hm, complete, hready.1]
    have hpending : s.pending ≠ 0 := by
      rw [acts_pending]
      by_cases hm : h.chip.msg = HUSB_TDListDone
      · simp [first, hm, hready.1]
      · have := hready.2.resolve_right hm
        simp only [first, hm, if_false]
        omega
    have hround : Prog.run UsbWaitTDListDone chip.env .call h ins 5 =
        ⟨.ret (.loop s.msg), HPI_SIE1_MSG_ADR + 2#16, { s with flag := false, msg := 0#16 }⟩ := rfl
    have hlast : Prog.run UsbWaitTDListDone chip.env .call h ins 6 =
        ⟨.ret (.returned HUSB_TDListDone), HPI_SIE1_MSG_ADR + 2#16,
          { s with flag := false, msg := 0#16 }⟩ := by
      change Prog.step _ _ (Prog.run UsbWaitTDListDone chip.env .call h ins 5) _ = _
      rw [hround, hmsg]
      rfl
    refine hpending ?_
    have hzero := hreturns ins 6 HUSB_TDListDone (by rw [hlast])
    rw [hlast] at hzero
    exact hzero
  · intro hready ins n u hu
    have hrun := run_holds (fun w s i hw => holds_wait (WaitInv.acts hw i))
      (show WaitInv .call h.chip from hready) ins n
    exact hrun.of_ret hu

end Wait

/-! ## A run of main -/

section Main

open Controller

/-- What is known at the labels of a run whose waits are timely. -/
structure Inv (q : Point) (h : Hpi Controller) : Prop where
  fresh : h.chip.stale = false
  outside : q.1.Fresh → h.chip.pending = 0
  request : ∀ r w, q.1 = .requestWait r w → w ≠ .call → WaitInv w h.chip
  poll : ∀ w, q.1 = .pollWait w → w ≠ .call → WaitInv w h.chip

theorem Inv.of_quiet {q : Point} {h : Hpi Controller} (hq : q.1.Fresh) (hh : h.chip.Quiet) :
    Inv q h where
  fresh := hh.fresh
  outside _ := hh.pending
  request r w hl := by rw [hl] at hq; exact hq.elim
  poll w hl := by rw [hl] at hq; exact hq.elim

/-- Between a submission and the wait for it, and before `setConfig`, nothing is known
but that no stale result has been read. -/
theorem Inv.of_submitted {q : Point} {h : Hpi Controller} (hh : h.chip.stale = false)
    (hfresh : ¬ q.1.Fresh) (hrequest : ∀ r w, q.1 = .requestWait r w → w = .call)
    (hpoll : ∀ w, q.1 = .pollWait w → w = .call) : Inv q h where
  fresh := hh
  outside hq := absurd hq hfresh
  request r w hl hw := absurd (hrequest r w hl) hw
  poll w hl hw := absurd (hpoll w hl) hw

/-- Stores do not read results. -/
theorem store_stale (s : Controller) (a d : BitVec 16) : (chip.store s a d).stale = s.stale := by
  simp only [chip]
  split_ifs <;> rfl

abbrev KeepsFresh {α : Type} (p : Code α) : Prop :=
  KeepsChip chip (fun _ _ => True) (fun s => s.stale = false) p

theorem keepsFresh_submit (p : BitVec 16) (words : List (BitVec 16)) :
    KeepsFresh (submit p words) := by
  intro h hfresh
  refine holds_submit (I := fun _ _ (s : Controller) => s.stale = false)
    (Q := fun s => s.stale = false) (fun _ _ => trivial)
    (fun _ _ _ i hs => acts_fresh hs i) ?_ ?_ hfresh
  · exact fun w _ a s hs => ⟨trivial, (store_stale s a w).trans hs⟩
  · exact fun _ s hs => ⟨trivial, (store_stale s _ p).trans hs⟩

theorem keepsFresh_code (r : Request) : KeepsFresh r.code := by
  cases r <;> exact keepsFresh_submit _ _

theorem keepsFresh_status : KeepsFresh (IO_read HPI_STATUS) :=
  fun _ hfresh i => acts_fresh hfresh i

/-- The reads of `deviceInfo` are not of results. -/
theorem keepsFresh_usbRead {a : BitVec 16} (ha : a ∉ results) : KeepsFresh (UsbRead a) := by
  intro h hfresh i
  refine ⟨trivial, fun j => ?_⟩
  have hacts := acts_fresh (acts_fresh hfresh i) j
  change Controller.stale (if _ then _ else if _ then _ else _) = false
  split_ifs
  · exact hacts
  · exact absurd ‹_› ha
  · exact hacts

theorem keepsFresh_wait (w : Wait) : KeepsFresh (UsbWaitTDListDone w) := by
  have hwrite : KeepsFresh (UsbWrite HPI_SIE1_MSG_ADR 0x0000#16) := fun h hfresh i =>
    ⟨trivial, fun j => ⟨trivial, acts_fresh (acts_fresh hfresh i) j⟩⟩
  have htake : KeepsFresh takeMessage :=
    (keepsFresh_usbRead (by decide)).bind fun _ => hwrite.bind fun _ => keeps_ret _
  cases w with
  | call => exact htake.bind fun _ => keeps_ret _
  | loop v =>
    simp only [UsbWaitTDListDone]
    split_ifs
    · exact htake.bind fun _ => keeps_ret _
    · exact keeps_ret _
  | returned v => exact keeps_ret _

theorem holds_submits {l : Label} (hl : l.Submits) (v : Locals) {h : Hpi Controller}
    (hfresh : h.chip.stale = false) :
    Holds chip.env (fun _ _ => True) Inv (body (l, v)) h := by
  have hstatus (r : Request) {h' : Hpi Controller} (hh : h'.chip.stale = false) :
      Inv (.requestStatus r, v) h' :=
    .of_submitted hh id (fun _ _ hw => by cases hw) fun _ hw => by cases hw
  have hpoll {v : Locals} {h' : Hpi Controller} (hh : h'.chip.stale = false) :
      Inv (.pollStatus, v) h' :=
    .of_submitted hh id (fun _ _ hw => by cases hw) fun _ hw => by cases hw
  cases l with
  | request r => exact (keepsFresh_code r h hfresh).bind fun _ _ hh => hstatus r hh
  | requestStatus r =>
    refine (keepsFresh_status h hfresh).bind fun s h hfresh => ?_
    split_ifs
    · exact (keepsFresh_code r h hfresh).bind fun _ _ hh => hstatus r hh
    · exact .of_submitted hfresh id (fun _ _ hw => by cases hw; rfl) fun _ hw => by cases hw
  | deviceInfo =>
    refine (keepsFresh_usbRead (by decide) h hfresh).bind fun _ h hfresh => ?_
    refine (keepsFresh_submit _ _ h hfresh).bind fun _ h hfresh => ?_
    refine (keepsFresh_usbRead (by decide) h hfresh).bind fun d h hfresh => ?_
    exact .of_submitted hfresh (fun hne => hne rfl) (fun _ _ hw => by cases hw)
      fun _ hw => by cases hw
  | poll => exact (keepsFresh_submit _ _ h hfresh).bind fun _ _ hh => hpoll hh
  | pollStatus =>
    refine (keepsFresh_status h hfresh).bind fun s h hfresh => ?_
    split_ifs
    · exact (keepsFresh_submit _ _ h hfresh).bind fun _ _ hh => hpoll hh
    · exact .of_submitted hfresh id (fun _ _ hw => by cases hw) fun _ hw => by cases hw; rfl
  | _ => exact hl.elim

/-- Outside the waits and the submissions nothing is pending. -/
theorem Inv.pending {l : Label} {v : Locals} {h : Hpi Controller} (hinv : Inv (l, v) h)
    (hsubmits : ¬ l.Submits) (hwaits : ¬ l.Waits) : h.chip.pending = 0 := by
  cases l with
  | requestWait r w =>
    cases w with
    | returned u => exact hinv.request r _ rfl (by simp)
    | _ => exact absurd trivial hwaits
  | pollWait w =>
    cases w with
    | returned u => exact hinv.poll _ rfl (by simp)
    | _ => exact absurd trivial hwaits
  | request _ | requestStatus _ | deviceInfo | poll | pollStatus => exact absurd trivial hsubmits
  | _ => exact hinv.outside trivial

/-- A round of a wait, wherever the code goes on from there. -/
theorem holds_round {w : Wait} {h : Hpi Controller} (hw : WaitInv w h.chip)
    (hfresh : h.chip.stale = false) {k : Wait → Point}
    (hk : ∀ w h, WaitInv w h.chip → h.chip.stale = false → Inv (k w) h) :
    Holds chip.env (fun _ _ => True) Inv (UsbWaitTDListDone w >>= fun w => pure (k w)) h :=
  ((holds_wait hw).and (keepsFresh_wait w _ hfresh)).bind fun w h hh => hk w h hh.1 hh.2

theorem holds_waits {l : Label} (hl : l.Waits) {v : Locals} {h : Hpi Controller} {i : Behaviour}
    (htimely : Timely ⟨.ret (l, v), h⟩) (hinv : Inv (l, v) h) :
    Holds chip.env (fun _ _ => True) Inv (body (l, v)) (chip.env.acts h i) := by
  have hfresh : (chip.env.acts h i).chip.stale = false := acts_fresh hinv.fresh i
  have hrequest (r : Request) (w : Wait) (h : Hpi Controller) (hw : WaitInv w h.chip)
      (hh : h.chip.stale = false) : Inv (.requestWait r w, v) h := by
    refine ⟨hh, fun hq => hq.elim, fun _ _ hl _ => ?_, fun _ hl => by cases hl⟩
    cases hl
    exact hw
  have hpoll (w : Wait) (h : Hpi Controller) (hw : WaitInv w h.chip)
      (hh : h.chip.stale = false) : Inv (.pollWait w, v) h := by
    refine ⟨hh, fun hq => hq.elim, fun _ _ hl => (by cases hl), fun _ hl _ => ?_⟩
    cases hl
    exact hw
  cases l with
  | requestWait r w =>
    cases w with
    | call =>
      have hw : WaitInv .call h.chip := htimely.request r v rfl
      exact holds_round (hw.acts i) hfresh (hrequest r)
    | loop u =>
      have hw : WaitInv (.loop u) h.chip := hinv.request r _ rfl (by simp)
      exact holds_round (hw.acts i) hfresh (hrequest r)
    | returned u => exact hl.elim
  | pollWait w =>
    cases w with
    | call =>
      have hw : WaitInv .call h.chip := htimely.poll v rfl
      exact holds_round (hw.acts i) hfresh hpoll
    | loop u =>
      have hw : WaitInv (.loop u) h.chip := hinv.poll _ rfl (by simp)
      exact holds_round (hw.acts i) hfresh hpoll
    | returned u => exact hl.elim
  | _ => exact hl.elim

/-- The body of a label keeps the invariant, if the run is timely there. -/
theorem holds_body {q : Point} {h : Hpi Controller} {i : Behaviour}
    (htimely : Timely ⟨.ret q, h⟩) (hinv : Inv q h) :
    Holds chip.env (fun _ _ => True) Inv (body q) (chip.env.acts h i) := by
  obtain ⟨l, v⟩ := q
  by_cases hsubmits : l.Submits
  · exact holds_submits hsubmits v (acts_fresh hinv.fresh i)
  by_cases hwaits : l.Waits
  · exact holds_waits hwaits htimely hinv
  -- Outside of both the code keeps the controller quiet.
  have hquiet : (chip.acts h.chip i).Quiet :=
    Quiet.acts ⟨hinv.pending hsubmits hwaits, hinv.fresh⟩ i
  have hbody := frame_quiet.body hsubmits v (h := chip.env.acts h i) hquiet
  exact hbody.mono fun q h hq => .of_quiet (hq.2.2.1.resolve_left hwaits) hq.1

theorem emitted_stale (h : Hpi Controller) (c : Cmd) :
    (chip.env.emitted h c).chip.stale = h.chip.stale := by
  cases c with
  | IO_write a d =>
    simp only [Chip.env]
    split_ifs
    · exact store_stale _ _ _
    all_goals rfl
  | _ => rfl

/-- A stale read is not forgotten. -/
theorem fresh_of_asked {h : Hpi Controller} {a : BitVec 8}
    (hfresh : (chip.env.asked h a).chip.stale = false) : h.chip.stale = false := by
  simp only [Chip.env, chip] at hfresh
  split_ifs at hfresh
  · exact hfresh
  · exact (Bool.or_eq_false_iff.mp hfresh).1
  · exact hfresh
  · exact hfresh

/-- Code that ends without having read a stale result has not read one so far. -/
theorem fresh_of_holds {p : Code Point} {h : Hpi Controller}
    (hp : Holds chip.env (fun _ _ => True) Inv p h) : h.chip.stale = false := by
  induction p generalizing h with
  | ret q => exact hp.fresh
  | emit c rest ih =>
    have hnext := ih (hp ⟨0, 0#16⟩).2
    rw [emitted_stale] at hnext
    exact (acts_stale h.chip ⟨0, 0#16⟩).symm.trans hnext
  | ask a rest ih =>
    have hnext := fresh_of_asked (ih _ (hp ⟨0, 0#16⟩))
    exact (acts_stale h.chip ⟨0, 0#16⟩).symm.trans hnext

variable (data_size : BitVec 8) (address msg : BitVec 16) (flag : Bool) (ins : ℕ → Behaviour)

/-- In a run that calls `UsbWaitTDListDone` only when the controller is ready, and sets
the configuration only when the list of `deviceInfo` is completed, every completion is
matched with its own list. -/
theorem matched_of_timely
    (htimely : ∀ n, Timely (run chip data_size ⟨address, .start msg flag⟩ ins n)) (n : ℕ) :
    Matched (run chip data_size ⟨address, .start msg flag⟩ ins n) := by
  have hstart : Inv (.main, .start data_size) ⟨address, .start msg flag⟩ :=
    .of_quiet trivial ⟨rfl, rfl⟩
  have hrun := run_holds_of (A := fun q h => Timely ⟨.ret q, h⟩)
    (fun _ _ _ => holds_body) (fun n q h hn => hn ▸ htimely n) hstart n
  have hinv {q : Point} (hq : (run chip data_size ⟨address, .start msg flag⟩ ins n).prog = .ret q) :
      Inv q (run chip data_size ⟨address, .start msg flag⟩ ins n).state :=
    hrun.of_ret hq
  refine ⟨?_, ?_, ?_, ?_, ?_, fresh_of_holds hrun⟩
  · exact fun r u v hq => (hinv hq).request r _ rfl (by simp)
  · exact fun u v hq => (hinv hq).poll _ rfl (by simp)
  · intro r v hq
    by_cases hr : r = .setConfig
    · exact (htimely n).descriptor v (hr ▸ hq)
    · exact (hinv hq).outside hr
  · exact fun v hq => (hinv hq).outside trivial
  · exact fun v hq => (hinv hq).outside trivial

/-! ## Two runs -/

/-- The status flag is not set after the request for the address, which is submitted a
second time, and then the first list is completed. -/
def lateCompletion : ℕ → Behaviour :=
  Driven.script ⟨0, 0x3000#16⟩
    [(61, ⟨0, 0x3000#16⟩), (1, ⟨0, COMM_ACK⟩), (31, ⟨0, 0x3000#16⟩), (1, ⟨0, COMM_ACK⟩),
      (43, ⟨0, 0x3000#16⟩), (1, ⟨1, 0x3000#16⟩)]

/-- The wait for the first list returns while the second one is pending. -/
theorem not_matched_lateCompletion :
    ¬ ∀ n, Matched (run chip 0#8 ⟨0#16, .start 0#16 false⟩ lateCompletion n) := by
  intro h
  have hlabel : (run chip 0#8 ⟨0#16, .start 0#16 false⟩ lateCompletion 145).prog.label? =
      some (.requestWait .setAddress (.returned HUSB_TDListDone), .start 0#8) := by
    decide +kernel
  have hpending :
      (run chip 0#8 ⟨0#16, .start 0#16 false⟩ lateCompletion 145).state.chip.pending = 1 := by
    decide +kernel
  have hzero := (h 145).request _ _ _ (eq_ret_of_label? hlabel)
  exact absurd (hpending.symm.trans hzero) (by decide)

/-- The list with the address is completed at once. The request fails, and the driver
waits for another device. -/
def promptCompletion : ℕ → Behaviour :=
  Driven.script ⟨0, 0x0000#16⟩
    [(61, ⟨0, 0x3000#16⟩), (1, ⟨0, COMM_ACK⟩), (31, ⟨0, 0x3000#16⟩), (1, ⟨0, COMM_ACK⟩),
      (22, ⟨0, 0x3000#16⟩), (1, ⟨1, 0x3000#16⟩)]

/-- `Timely`, as a check. -/
def checkTimely (c : Config Cmd (BitVec 8) (BitVec 16) (Hpi Controller) Point) : Bool :=
  match c.prog.label? with
  | some (.requestWait _ .call, _) | some (.pollWait .call, _) => decide c.state.chip.Ready
  | some (.request .setConfig, _) => c.state.chip.pending == 0
  | _ => true

theorem timely_of_check {c : Config Cmd (BitVec 8) (BitVec 16) (Hpi Controller) Point}
    (h : checkTimely c = true) : Timely c := by
  refine ⟨fun r v hc => ?_, fun v hc => ?_, fun v hc => ?_⟩ <;>
    simpa [checkTimely, hc, label?] using h

/-- In the loop of step 1, without a message. -/
def InStep1 (c : Config Cmd (BitVec 8) (BitVec 16) (Hpi Controller) Point) : Prop :=
  c.state.chip.flag = false ∧ ∃ v, c.prog = .ret (.step1, v) ∨ c.prog = body (.step1, v)

theorem InStep1.step {c : Config Cmd (BitVec 8) (BitVec 16) (Hpi Controller) Point}
    (h : InStep1 c) : InStep1 (Prog.step body chip.env c ⟨0, 0x0000#16⟩) := by
  obtain ⟨prog, addr, s⟩ := c
  obtain ⟨hflag, v, rfl | rfl⟩ := h
  · exact ⟨hflag, v, .inr rfl⟩
  · obtain ⟨pending, msg, flag, stale⟩ := s
    obtain rfl : flag = false := hflag
    have hstatus : (0x0000#16 &&& ~~~HPI_STATUS_SIE1msg_FLAG) &&& 0xFFFF#16 = 0#16 := by decide
    exact ⟨rfl, v, .inl (if_pos hstatus)⟩

theorem InStep1.timely {c : Config Cmd (BitVec 8) (BitVec 16) (Hpi Controller) Point}
    (h : InStep1 c) : Timely c := by
  obtain ⟨-, v, hc | hc⟩ := h
  · exact timely_of_check (by simp [checkTimely, hc, label?])
  · exact timely_of_check (by simp [checkTimely, hc, label?, body, IO_read])

theorem timely_promptCompletion (n : ℕ) :
    Timely (run chip 0#8 ⟨0#16, .start 0#16 false⟩ promptCompletion n) := by
  -- The driver is back in step 1 after 191 steps.
  rcases le_total n 191 with hn | hn
  · have halways : Driven.always (Prog.step body chip.env) checkTimely promptCompletion 191 0
        ⟨.ret (.main, .start 0#8), ⟨0#16, .start 0#16 false⟩⟩ = true := by
      decide +kernel
    exact timely_of_check (Driven.check_of_always halways n hn)
  · have hlabel : (run chip 0#8 ⟨0#16, .start 0#16 false⟩ promptCompletion 191).prog.label? =
        some (.step1, .start 0#8) := by
      decide +kernel
    have hflag : (run chip 0#8 ⟨0#16, .start 0#16 false⟩ promptCompletion 191).state.chip.flag =
        false := by
      decide +kernel
    have hstep1 : InStep1 (run chip 0#8 ⟨0#16, .start 0#16 false⟩ promptCompletion n) := by
      induction n, hn using Nat.le_induction with
      | base => exact ⟨hflag, _, .inl (eq_ret_of_label? hlabel)⟩
      | succ n hn ih =>
        have hrest : promptCompletion n = ⟨0, 0x0000#16⟩ :=
          Driven.script_of_length_le _ (by simp [Driven.length]; omega)
        have hnext := ih.step
        rw [← hrest] at hnext
        exact hnext
    exact hstep1.timely

/-- The wait for the list with the address returns at step 124. -/
theorem matched_promptCompletion :
    Matched (run chip 0#8 ⟨0#16, .start 0#16 false⟩ promptCompletion 124) :=
  matched_of_timely 0#8 0#16 0#16 false promptCompletion timely_promptCompletion 124

end Main

end Driver
