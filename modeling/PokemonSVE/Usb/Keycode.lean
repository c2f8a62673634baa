-- SUMMARY: The keycode PIO after the keyboard is gone: it keeps the first key of the last report until the next poll is over, through every path of `main`.
import PokemonSVE.Usb.Rules

/-!
# The keycode after a removal

`main` stores the keycode at the end of every poll and nowhere else. Between the check
that finds the keyboard gone and the end of the next poll lie the wait for a device
and any number of enumerations, and none of them touches the PIO.
-/

namespace Driver

open Prog

/-- The keycode PIO, and what a poll last brought. -/
structure Board where
  /-- The word that the controller answers in this step. -/
  answer : BitVec 16
  /-- The word that was last read from `0x051E`, where a poll leaves the keycodes. -/
  report : BitVec 16
  /-- The byte that was last stored to `keycode_base`, which `gameFSM` sees. -/
  keycode : BitVec 8
  deriving DecidableEq, Repr

/-- A controller that answers any word to a read. -/
def boardChip : Chip Board (BitVec 16) where
  acts s v := { s with answer := v }
  load _ v _ := v
  loaded s address := if address = 0x051E#16 then { s with report := s.answer } else s
  store s _ _ := s
  status _ v := v
  mailbox _ v := v
  command s _ := s
  keycode s v := { s with keycode := v }

section Run

variable (data_size : BitVec 8) (h : Hpi Board) (ins : ℕ → BitVec 16)

def boardRun (n : ℕ) : Config Cmd (BitVec 8) (BitVec 16) (Hpi Board) Point :=
  run boardChip data_size h ins n

/-- At step `n` the wait of a poll has returned. -/
def PollCompleted (n : ℕ) : Prop :=
  ∃ u v, (boardRun data_size h ins n).prog = .ret (.pollWait (.returned u), v)

/-- At step `n` the polling loop has found the keyboard gone: the rechecks are over, and
the status register shows no device. -/
def FoundGone (n : ℕ) : Prop :=
  ∃ u v, (boardRun data_size h ins n).prog = .ret (.removed u, v) ∧ u &&& no_device = 0#16

/-- From any step at which the keyboard is found gone until the next poll is completed,
the keycode is 0. -/
def NoStuckKey : Prop :=
  ∀ n m, FoundGone data_size h ins n → n ≤ m →
    (∀ k, n ≤ k → k < m → ¬ PollCompleted data_size h ins k) →
    (boardRun data_size h ins m).state.chip.keycode = 0#8

end Run

/-! ## Code that does not store the keycode -/

/-- The command does not go to the keycode PIO. -/
def Cmd.NotKeycode : Cmd → Prop
  | .keycode _ => False
  | _ => True

theorem closed_issues : Closed fun p => p.Issues Cmd.NotKeycode where
  ret := issues_ret
  bind := Issues.bind
  io_init := ⟨trivial, trivial⟩
  io_read _ _ := trivial
  io_write _ _ := ⟨trivial, trivial⟩
  usbWrite _ _ := ⟨trivial, trivial, trivial⟩

theorem issues_dataWords (words : List (BitVec 16)) :
    (dataWords words).Issues Cmd.NotKeycode := by
  induction words with
  | nil => exact trivial
  | cons w words ih => exact ⟨trivial, ih⟩

theorem issues_submit (p : BitVec 16) (words : List (BitVec 16)) :
    (submit p words).Issues Cmd.NotKeycode :=
  ⟨trivial, (issues_dataWords words).bind fun _ => ⟨trivial, trivial, trivial⟩⟩

theorem issues_requestCode (r : Request) : r.code.Issues Cmd.NotKeycode := by
  cases r <;> exact issues_submit _ _

/-- The only label whose program stores the keycode is the return of the wait of a
poll. -/
theorem issues_body {l : Label} (hl : ∀ u, l ≠ .pollWait (.returned u)) (v : Locals) :
    (body (l, v)).Issues Cmd.NotKeycode :=
  closed_issues.body v (fun r _ => issues_requestCode r) (fun _ _ => issues_submit _ _)
    (fun _ => issues_submit _ _) fun u _ hu => absurd hu (hl u)

/-! ## Until the next poll -/

section Window

variable {data_size : BitVec 8} {h : Hpi Board} {ins : ℕ → BitVec 16}

/-- No other command changes the keycode. -/
theorem emitted_keycode {s : Hpi Board} {c : Cmd} (hc : c.NotKeycode) :
    (boardChip.env.emitted s c).chip.keycode = s.chip.keycode := by
  cases c with
  | IO_init => rfl
  | IO_write a d =>
    simp only [Chip.env]
    split_ifs <;> rfl
  | keycode v => exact hc.elim

theorem asked_keycode (s : Hpi Board) (a : BitVec 8) :
    (boardChip.env.asked s a).chip.keycode = s.chip.keycode := by
  simp only [Chip.env, boardChip]
  split_ifs <;> rfl

/-- From a label on the keycode stays until a poll is completed. -/
theorem keycode_stays {n m : ℕ} {q : Point}
    (hlabel : (boardRun data_size h ins n).prog = .ret q) (hnm : n ≤ m)
    (hopen : ∀ k, n ≤ k → k < m → ¬ PollCompleted data_size h ins k) :
    (boardRun data_size h ins m).state.chip.keycode =
      (boardRun data_size h ins n).state.chip.keycode := by
  have hadd (k : ℕ) : boardRun data_size h ins (n + k) =
      Prog.run body boardChip.env q (boardRun data_size h ins n).state (fun j => ins (n + j)) k :=
    run_add_of_ret hlabel k
  obtain ⟨j, rfl⟩ := Nat.exists_eq_add_of_le hnm
  rw [hadd]
  refine (run_keeps_of_issues (P := Cmd.NotKeycode)
    (J := fun s => s.chip.keycode = (boardRun data_size h ins n).state.chip.keycode)
    (fun _ _ hs => hs) (fun s c hc hs => (emitted_keycode hc).trans hs)
    (fun s a hs => (asked_keycode s a).trans hs) rfl j ?_).2
  rintro k hk ⟨l, v⟩ hl
  refine issues_body (fun u hu => ?_) v
  refine hopen (n + k) (Nat.le_add_right n k) (by omega) ⟨u, v, ?_⟩
  rw [hadd, hl, hu]

end Window

/-! ## The end of a poll -/

/-- Everything is permitted. -/
abbrev Free (_ : Hpi Board) (_ : Cmd) : Prop := True

/-- A read brings the answer, and records it if it is one of the keycodes. -/
theorem holds_usbRead (a : BitVec 16) (h : Hpi Board) :
    Holds boardChip.env Free (fun u h' => h'.chip.keycode = h.chip.keycode ∧
      h'.chip.report = if a = 0x051E#16 then u else h.chip.report) (UsbRead a) h := by
  intro i
  refine ⟨trivial, fun j => ?_⟩
  change Board.keycode (if a = _ then _ else _) = _ ∧ Board.report (if a = _ then _ else _) = _
  split_ifs <;> exact ⟨rfl, rfl⟩

/-- The keycode is the low byte of the last report. -/
def Board.Reported (s : Board) : Prop := s.keycode = s.report.setWidth 8

theorem keeps_usbRead {a : BitVec 16} (ha : a ≠ 0x051E#16) :
    KeepsChip boardChip Free Board.Reported (UsbRead a) := by
  intro h hh
  refine (holds_usbRead a h).mono fun u h' hh' => ?_
  rw [if_neg ha] at hh'
  unfold Board.Reported
  rw [hh'.1, hh'.2]
  exact hh

theorem keeps_recheck (n : ℕ) (u : BitVec 16) :
    KeepsChip boardChip Free Board.Reported (recheck n u) := by
  induction n generalizing u with
  | zero => exact keeps_ret u
  | succ n ih =>
    refine (keeps_usbRead (by decide)).bind fun u => ?_
    split_ifs
    · exact keeps_ret u
    · exact ih u

/-- At its end a poll has stored what it has read. -/
theorem holds_endPoll_reported (h : Hpi Board) :
    Holds boardChip.env Free (fun _ h' => h'.chip.Reported) endPoll h := by
  refine (holds_usbRead 0x051E#16 h).bind fun k h hk => ?_
  have hstore : Holds boardChip.env Free (fun _ h' => h'.chip.Reported)
      (keycode_base (k.setWidth 8)) h := by
    intro i
    refine ⟨trivial, ?_⟩
    have hreport : h.chip.report = k := hk.2
    unfold Board.Reported
    exact congrArg (BitVec.setWidth 8) hreport.symm
  refine hstore.bind fun _ h hh => ?_
  refine (keeps_usbRead (by decide) h hh).bind fun u h hh => ?_
  split_ifs
  · exact (keeps_recheck 7 u h hh).bind fun _ _ hh => hh
  · exact hh

/-! ## A run of main -/

/-- The wait for a device after a removal. -/
def Label.Removed : Label → Prop
  | .removed _ => True
  | _ => False

/-- What is known at the labels: a removal is found at the end of a poll. -/
def RemovedInv (q : Point) (h : Hpi Board) : Prop := q.1.Removed → h.chip.Reported

/-- Other labels do not lead to the wait. -/
theorem not_removed_of_next {l l' : Label} (h : l.Next l')
    (hl : ∀ u, l ≠ .pollWait (.returned u)) (hr : ¬ l.Removed) : ¬ l'.Removed := by
  have hnext (r : Request) : ¬ r.next.Removed := by cases r <;> exact id
  cases l with
  | main | usbHotPlug | request _ | deviceInfo | poll =>
    obtain rfl := h
    exact id
  | step1 => obtain rfl | rfl | rfl | ⟨u, rfl⟩ := h <;> exact id
  | noDevice _ => obtain rfl | rfl | ⟨u, rfl⟩ := h <;> exact id
  | requestStatus _ | retryCnt | pollStatus => obtain rfl | rfl := h <;> exact id
  | requestWait r w =>
    cases w with
    | returned _ => obtain rfl | rfl | rfl := h <;> first | exact id | exact hnext r
    | _ =>
      obtain ⟨w, rfl⟩ := h
      exact id
  | pollWait w =>
    cases w with
    | returned u => exact absurd rfl (hl u)
    | _ =>
      obtain ⟨w, rfl⟩ := h
      exact id
  | removed _ => exact absurd trivial hr

theorem holds_removed (q : Point) (h : Hpi Board) (i : BitVec 16) (hinv : RemovedInv q h) :
    Holds boardChip.env Free RemovedInv (body q) (boardChip.env.acts h i) := by
  obtain ⟨l, v⟩ := q
  by_cases hpoll : ∃ u, l = .pollWait (.returned u)
  · obtain ⟨u, rfl⟩ := hpoll
    exact (holds_endPoll_reported _).bind fun l h hh _ => hh
  by_cases hr : l.Removed
  · cases l with
    | removed u =>
      have hh : (boardChip.env.acts h i).chip.Reported := hinv trivial
      have hread := keeps_usbRead (a := ctl_reg) (by decide)
      simp only [body]
      split_ifs
      · refine (hread _ hh).bind fun _ h hh => (hread h hh).bind fun _ h hh => ?_
        refine (hread h hh).bind fun u h hh => ?_
        split_ifs <;> exact fun _ => hh
      · exact fun _ => hh
    | _ => exact hr.elim
  · have hends : Holds boardChip.env Free (fun q _ => l.Next q.1 ∧ (¬ l.Submits → q.2 = v))
        (body (l, v)) (boardChip.env.acts h i) := (ends_body l v).holds _
    refine hends.mono fun q h hq hq' => ?_
    exact absurd hq' (not_removed_of_next hq.1 (fun u hu => hpoll ⟨u, hu⟩) hr)

section Run

variable (data_size : BitVec 8) (h : Hpi Board) (ins : ℕ → BitVec 16)

/-- When the keyboard is found gone the PIO has the first key of the last report. -/
theorem keycode_of_foundGone {n : ℕ} (hgone : FoundGone data_size h ins n) :
    (boardRun data_size h ins n).state.chip.keycode =
      (boardRun data_size h ins n).state.chip.report.setWidth 8 := by
  have hstart : RemovedInv (.main, .start data_size) h := fun hr => hr.elim
  have hrun : Holds boardChip.env Free RemovedInv (boardRun data_size h ins n).prog
      (boardRun data_size h ins n).state := run_holds holds_removed hstart ins n
  obtain ⟨u, v, hlabel, -⟩ := hgone
  exact hrun.of_ret hlabel trivial

/-- In every run no key is stuck after a removal exactly if the last report before each
removal has no first key. -/
theorem noStuckKey_iff : NoStuckKey data_size h ins ↔
    ∀ n, FoundGone data_size h ins n →
      (boardRun data_size h ins n).state.chip.report.setWidth 8 = 0#8 := by
  constructor
  · intro hstuck n hgone
    rw [← keycode_of_foundGone data_size h ins hgone]
    exact hstuck n n hgone (Nat.le_refl n) fun k hk hk' => absurd hk (Nat.not_le.mpr hk')
  · intro hreport n m hgone hnm hopen
    obtain ⟨u, v, hlabel, -⟩ := id hgone
    rw [keycode_stays hlabel hnm hopen, keycode_of_foundGone data_size h ins hgone]
    exact hreport n hgone

end Run

/-! ## A key held down -/

/-- The keyboard with the key `W` down, on a controller whose requests succeed. -/
def holdsW (c : Config Cmd (BitVec 8) (BitVec 16) (Hpi Board) Point) (usb : BitVec 16) :
    BitVec 16 :=
  match c.prog with
  | .ask a _ => if a = HPI_DATA ∧ c.state.addr = 0x051E#16 then 0x001A#16 else succeed c usb
  | _ => 0#16

/-- Before the first report, with the PIO at its reset value. -/
def boardStart : Hpi Board := ⟨0#16, ⟨0#16, 0#16, 0#8⟩⟩

/-- The keyboard is there for the first poll, and gone after it. -/
def unplugged : ℕ → BitVec 16 := Driven.script 0#16 [(540, no_device)]

/-- The run on these answers. -/
def holdsWRun (n : ℕ) : Config Cmd (BitVec 8) (BitVec 16) (Hpi Board) Point :=
  Driven.run (Driven.feedback (Prog.step body boardChip.env) holdsW)
    ⟨.ret (.main, .start 0#8), boardStart⟩ unplugged n

def holdsWAnswers (n : ℕ) : BitVec 16 := holdsW (holdsWRun n) (unplugged n)

theorem boardRun_holdsW (n : ℕ) : boardRun 0#8 boardStart holdsWAnswers n = holdsWRun n :=
  (Driven.run_feedback holdsW n).symm

/-- `W` stays pressed when the keyboard is unplugged. -/
theorem not_noStuckKey_holdsW : ¬ NoStuckKey 0#8 boardStart holdsWAnswers := by
  intro hstuck
  have hlabel : (boardRun 0#8 boardStart holdsWAnswers 564).prog.label? =
      some (.removed 0#16, ⟨1#8, 0#8⟩) := by
    rw [boardRun_holdsW]
    decide +kernel
  have hgone : FoundGone 0#8 boardStart holdsWAnswers 564 :=
    ⟨0#16, ⟨1#8, 0#8⟩, eq_ret_of_label? hlabel, by decide⟩
  have hkeycode := hstuck 564 564 hgone (Nat.le_refl 564)
    fun k hk hk' => absurd hk (Nat.not_le.mpr hk')
  rw [boardRun_holdsW] at hkeycode
  exact absurd hkeycode (by decide +kernel)

end Driver
