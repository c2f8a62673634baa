-- SUMMARY: The message register under `UsbWaitTDListDone`: which completion messages are lost, for every interleaving with the posts of the controller.
import PokemonSVE.Usb.Driver
import Mathlib.Data.Nat.Find
import Mathlib.Tactic.Push

/-!
# The message register

`UsbWaitTDListDone` reads the message register and clears it in two transactions. A
message that is posted between them is cleared without having been read. An
interleaving is the list of messages that the controller posts before each step of
the driver: a round of the loop is the step into it and four transactions, of which
the second reads the register and the fourth clears it.
-/

namespace Driver

/-- The SIE1 message register, and what has become of its contents. -/
structure Message where
  msg : BitVec 16
  /-- A `HUSB_TDListDone` in the register has not been read. -/
  unread : Bool
  /-- One has been erased by the driver before it was read. -/
  erased : Bool
  deriving DecidableEq, Repr

def Message.post (s : Message) (v : BitVec 16) : Message :=
  { s with msg := v, unread := v = HUSB_TDListDone }

/-- The controller posts a list of messages before each step. -/
def messageChip : Chip Message (List (BitVec 16)) where
  acts s posts := posts.foldl Message.post s
  load s _ address := if address = HPI_SIE1_MSG_ADR then s.msg else 0#16
  loaded s address := if address = HPI_SIE1_MSG_ADR then { s with unread := false } else s
  store s address data :=
    if address = HPI_SIE1_MSG_ADR then ⟨data, false, s.erased || s.unread⟩ else s
  status _ _ := 0#16
  mailbox _ _ := 0#16
  command s _ := s
  keycode s _ := s

section Wait

variable (address msg : BitVec 16) (posts : ℕ → List (BitVec 16))

/-- A call of `UsbWaitTDListDone`, with some address in the port and some message in
the register at its start. -/
def waitRun (n : ℕ) : Prog.Config Cmd (BitVec 8) (BitVec 16) (Hpi Message) Wait :=
  Prog.run UsbWaitTDListDone messageChip.env .call
    ⟨address, ⟨msg, msg = HUSB_TDListDone, false⟩⟩ posts n

/-- No completion message is lost: none is erased before it is read, and the call
returns if one is posted. -/
structure NoneLost : Prop where
  kept : ∀ n, (waitRun address msg posts n).state.chip.erased = false
  returns : (∃ n, HUSB_TDListDone ∈ posts n) →
    ∃ n, (waitRun address msg posts n).prog = .ret (.returned HUSB_TDListDone)

/-- What the register holds at the read of round `i`: the last message posted since
the clear of the round before. -/
def reading (i : ℕ) : BitVec 16 :=
  (posts (5 * i) ++ posts (5 * i + 1) ++ posts (5 * i + 2)).getLast?.getD
    (if i = 0 then msg else 0#16)

/-- The messages posted between the read of round `i` and its clear. -/
def window (i : ℕ) : List (BitVec 16) := posts (5 * i + 3) ++ posts (5 * i + 4)

end Wait

/-! ## One round -/

@[simp] theorem post_msg (s : Message) (v : BitVec 16) : (s.post v).msg = v := rfl
@[simp] theorem post_erased (s : Message) (v : BitVec 16) : (s.post v).erased = s.erased := rfl

/-- Of a list of posts the last one stays. -/
theorem foldl_post_msg (s : Message) (ps : List (BitVec 16)) :
    (ps.foldl Message.post s).msg = ps.getLast?.getD s.msg := by
  induction ps generalizing s with
  | nil => rfl
  | cons v ps ih => rw [List.foldl_cons, ih, List.getLast?_cons]; rfl

theorem foldl_post_erased (s : Message) (ps : List (BitVec 16)) :
    (ps.foldl Message.post s).erased = s.erased := by
  induction ps generalizing s with
  | nil => rfl
  | cons v ps ih => rw [List.foldl_cons, ih, post_erased]

theorem foldl_post_unread (s : Message) (ps : List (BitVec 16)) :
    (ps.foldl Message.post s).unread =
      (ps.getLast?.map fun v => decide (v = HUSB_TDListDone)).getD s.unread := by
  induction ps generalizing s with
  | nil => rfl
  | cons v ps ih =>
    rw [List.foldl_cons, ih, List.getLast?_cons]
    cases ps.getLast? <;> rfl

/-- A round from a label whose program reads and clears the register. -/
theorem round {c : Prog.Config Cmd (BitVec 8) (BitVec 16) (Hpi Message) Wait} {l : Wait}
    (hc : c.prog = .ret l)
    (hl : UsbWaitTDListDone l = takeMessage >>= fun v => pure (.loop v))
    (p0 p1 p2 p3 p4 : List (BitVec 16)) :
    let step := Prog.step UsbWaitTDListDone messageChip.env
    step (step (step (step (step c p0) p1) p2) p3) p4 =
      ⟨.ret (.loop ((p0 ++ p1 ++ p2).getLast?.getD c.state.chip.msg)),
        HPI_SIE1_MSG_ADR + 2#16,
        ⟨0#16, false,
          c.state.chip.erased || decide ((p3 ++ p4).getLast? = some HUSB_TDListDone)⟩⟩ := by
  obtain ⟨prog, addr, s⟩ := c
  obtain rfl : prog = .ret l := hc
  -- The posts before the read and those between the read and the clear.
  let read : Message := (p0 ++ p1 ++ p2).foldl Message.post s
  let clear : Message := (p3 ++ p4).foldl Message.post { read with unread := false }
  have hsteps : Prog.step UsbWaitTDListDone messageChip.env
      (Prog.step UsbWaitTDListDone messageChip.env
        (Prog.step UsbWaitTDListDone messageChip.env
          (Prog.step UsbWaitTDListDone messageChip.env
            (Prog.step UsbWaitTDListDone messageChip.env ⟨.ret l, addr, s⟩ p0) p1) p2) p3) p4 =
      ⟨.ret (.loop read.msg), HPI_SIE1_MSG_ADR + 2#16,
        ⟨0#16, false, clear.erased || clear.unread⟩⟩ := by
    simp only [Prog.step, hl, read, clear, List.foldl_append]
    rfl
  have hread : read.msg = (p0 ++ p1 ++ p2).getLast?.getD s.msg := foldl_post_msg s _
  have herased : clear.erased = s.erased :=
    (foldl_post_erased _ _).trans (foldl_post_erased s _)
  have hunread : clear.unread = decide ((p3 ++ p4).getLast? = some HUSB_TDListDone) := by
    rw [foldl_post_unread]
    cases (p3 ++ p4).getLast? <;> simp
  rw [hread, herased, hunread] at hsteps
  exact hsteps

/-! ## Rounds -/

section Rounds

variable {address msg : BitVec 16} {posts : ℕ → List (BitVec 16)}

/-- No round before `i` has read the completion message. -/
def Waiting (msg : BitVec 16) (posts : ℕ → List (BitVec 16)) (i : ℕ) : Prop :=
  ∀ j < i, reading msg posts j ≠ HUSB_TDListDone

theorem waitRun_succ (n : ℕ) :
    waitRun address msg posts (n + 1) =
      Prog.step UsbWaitTDListDone messageChip.env (waitRun address msg posts n) (posts n) := rfl

/-- The label at the start of round `i`. -/
def roundLabel (msg : BitVec 16) (posts : ℕ → List (BitVec 16)) : ℕ → Wait
  | 0 => .call
  | i + 1 => .loop (reading msg posts i)

theorem body_roundLabel {i : ℕ} (h : Waiting msg posts i) :
    UsbWaitTDListDone (roundLabel msg posts i) = takeMessage >>= fun v => pure (.loop v) := by
  cases i with
  | zero => rfl
  | succ i => exact if_pos (h i i.lt_succ_self)

/-- What is true at the start of round `i`. -/
structure AtRound (address msg : BitVec 16) (posts : ℕ → List (BitVec 16)) (i : ℕ) : Prop where
  prog : (waitRun address msg posts (5 * i)).prog = .ret (roundLabel msg posts i)
  register : (waitRun address msg posts (5 * i)).state.chip.msg = if i = 0 then msg else 0#16
  erased : (waitRun address msg posts (5 * i)).state.chip.erased = false ↔
    ∀ j < i, (window posts j).getLast? ≠ some HUSB_TDListDone

theorem AtRound.succ {i : ℕ} (h : AtRound address msg posts i) (hwait : Waiting msg posts i) :
    AtRound address msg posts (i + 1) := by
  have hround : waitRun address msg posts (5 * (i + 1)) =
      ⟨.ret (.loop (reading msg posts i)), HPI_SIE1_MSG_ADR + 2#16,
        ⟨0#16, false, (waitRun address msg posts (5 * i)).state.chip.erased ||
          decide ((window posts i).getLast? = some HUSB_TDListDone)⟩⟩ := by
    have hstep := round h.prog (body_roundLabel hwait) (posts (5 * i)) (posts (5 * i + 1))
      (posts (5 * i + 2)) (posts (5 * i + 3)) (posts (5 * i + 4))
    rw [h.register] at hstep
    exact hstep
  refine ⟨by rw [hround]; rfl, by rw [hround]; rfl, ?_⟩
  rw [hround]
  simp only [Bool.or_eq_false_iff, h.erased, decide_eq_false_iff_not, Nat.lt_succ_iff_lt_or_eq,
    or_imp, forall_and, forall_eq]

/-- As long as no round has read the completion message, the next one begins. -/
theorem atRound (address : BitVec 16) {i : ℕ} (h : Waiting msg posts i) :
    AtRound address msg posts i := by
  induction i with
  | zero => exact ⟨rfl, rfl, by simp [waitRun, Prog.run]⟩
  | succ i ih =>
    have hwait : Waiting msg posts i := fun j hj => h j (Nat.lt_succ_of_lt hj)
    exact (ih hwait).succ hwait

theorem step_erased {c : Prog.Config Cmd (BitVec 8) (BitVec 16) (Hpi Message) Wait}
    (h : c.state.chip.erased = true) (ps : List (BitVec 16)) :
    (Prog.step UsbWaitTDListDone messageChip.env c ps).state.chip.erased = true := by
  obtain ⟨prog, addr, s⟩ := c
  have hacts : (ps.foldl Message.post s).erased = true := (foldl_post_erased s ps).trans h
  cases prog with
  | ret l => exact hacts
  | emit cmd rest =>
    cases cmd with
    | IO_write a d =>
      simp only [Prog.step, Chip.env, messageChip]
      split_ifs <;> simp [hacts]
    | _ => exact hacts
  | ask q rest =>
    simp only [Prog.step, Chip.env, messageChip]
    split_ifs <;> exact hacts

/-- A message that has been erased stays so. -/
theorem erased_mono {n m : ℕ} (hnm : n ≤ m)
    (h : (waitRun address msg posts n).state.chip.erased = true) :
    (waitRun address msg posts m).state.chip.erased = true := by
  induction m, hnm using Nat.le_induction with
  | base => exact h
  | succ m _ ih => exact step_erased ih _

/-- A call that has returned does nothing any more. -/
theorem returned_mono {n m : ℕ} (hnm : n ≤ m) {v : BitVec 16}
    (h : (waitRun address msg posts n).prog = .ret (.returned v)) :
    (waitRun address msg posts m).prog = .ret (.returned v) ∧
      (waitRun address msg posts m).state.chip.erased =
        (waitRun address msg posts n).state.chip.erased := by
  induction m, hnm using Nat.le_induction with
  | base => exact ⟨h, rfl⟩
  | succ m _ ih =>
    rw [waitRun_succ, Prog.step, ih.1]
    exact ⟨rfl, (foldl_post_erased _ _).trans ih.2⟩

/-- The call returns after the first round that reads the completion message, and
erases nothing on the way out. -/
theorem returned_of_reading (address : BitVec 16) {i : ℕ} (h : Waiting msg posts i)
    (hread : reading msg posts i = HUSB_TDListDone) :
    (waitRun address msg posts (5 * i + 6)).prog = .ret (.returned HUSB_TDListDone) ∧
      ((waitRun address msg posts (5 * i + 6)).state.chip.erased = false ↔
        ∀ j < i + 1, (window posts j).getLast? ≠ some HUSB_TDListDone) := by
  have hround := (atRound address h).succ h
  have hprog : (waitRun address msg posts (5 * i + 5)).prog = .ret (.loop HUSB_TDListDone) := by
    rw [← hread]
    exact hround.prog
  rw [waitRun_succ, Prog.step, hprog, ← hround.erased]
  refine ⟨rfl, ?_⟩
  rw [show 5 * (i + 1) = 5 * i + 5 from rfl]
  exact iff_of_eq (congrArg (· = false) (foldl_post_erased _ _))

/-- If no round reads the completion message the call does not return. -/
theorem not_returned_of_waiting (h : ∀ i, reading msg posts i ≠ HUSB_TDListDone) (n : ℕ)
    (v : BitVec 16) : (waitRun address msg posts n).prog ≠ .ret (.returned v) := by
  intro hn
  have hround : AtRound address msg posts n := atRound address fun j _ => h j
  have hprog := hround.prog
  rw [(returned_mono (by omega : n ≤ 5 * n) hn).1] at hprog
  cases n <;> cases hprog

/-- Of the rounds that read the completion message there is a first one. -/
theorem exists_first (h : ∃ i, reading msg posts i = HUSB_TDListDone) :
    ∃ i, Waiting msg posts i ∧ reading msg posts i = HUSB_TDListDone :=
  ⟨Nat.find h, fun _ hj => Nat.find_min h hj, Nat.find_spec h⟩

theorem kept_iff (address : BitVec 16) :
    (∀ n, (waitRun address msg posts n).state.chip.erased = false) ↔
      ∀ i, Waiting msg posts i → (window posts i).getLast? ≠ some HUSB_TDListDone := by
  constructor
  · intro hkept i hwait
    exact ((atRound address hwait).succ hwait).erased.mp (hkept _) i i.lt_succ_self
  · intro hwindow n
    -- Erased at some moment means erased at every later start of a round.
    by_contra herased
    rw [Bool.not_eq_false] at herased
    by_cases hread : ∃ i, reading msg posts i = HUSB_TDListDone
    · obtain ⟨i, hwait, hdone⟩ := exists_first hread
      have hbefore : ∀ j < i + 1, Waiting msg posts j := fun j hj k hk => hwait k (by omega)
      obtain ⟨hprog, hkept⟩ := returned_of_reading address hwait hdone
      have hfalse := hkept.mpr fun j hj => hwindow j (hbefore j hj)
      rcases le_total n (5 * i + 6) with hle | hle
      · exact Bool.false_ne_true (hfalse.symm.trans (erased_mono hle herased))
      · rw [(returned_mono hle hprog).2, hfalse] at herased
        exact Bool.false_ne_true herased
    · push Not at hread
      have hround : AtRound address msg posts n := atRound address fun j _ => hread j
      have hfalse := hround.erased.mpr fun j _ => hwindow j fun k _ => hread k
      exact Bool.false_ne_true (hfalse.symm.trans (erased_mono (by omega) herased))

end Rounds

/-- No completion message is lost exactly if none is the last one posted between a
read of the register and the clear after it, and, when one is posted at all, some
round reads one. -/
theorem noneLost_iff (address msg : BitVec 16) (posts : ℕ → List (BitVec 16)) :
    NoneLost address msg posts ↔
      (∀ i, (∀ j < i, reading msg posts j ≠ HUSB_TDListDone) →
        (window posts i).getLast? ≠ some HUSB_TDListDone) ∧
      ((∃ n, HUSB_TDListDone ∈ posts n) → ∃ i, reading msg posts i = HUSB_TDListDone) := by
  have hreturns : (∃ n, (waitRun address msg posts n).prog = .ret (.returned HUSB_TDListDone)) ↔
      ∃ i, reading msg posts i = HUSB_TDListDone := by
    constructor
    · rintro ⟨n, hn⟩
      by_contra hnone
      push Not at hnone
      exact not_returned_of_waiting hnone n _ hn
    · intro hread
      obtain ⟨i, hwait, hdone⟩ := exists_first hread
      exact ⟨_, (returned_of_reading address hwait hdone).1⟩
  constructor
  · intro h
    exact ⟨(kept_iff address).mp h.kept, fun hpost => hreturns.mp (h.returns hpost)⟩
  · rintro ⟨hwindow, hread⟩
    exact ⟨(kept_iff address).mpr hwindow, fun hpost => hreturns.mpr (hread hpost)⟩

/-- The controller posts the completion message once, right after the first read. -/
def postAfterRead (n : ℕ) : List (BitVec 16) := if n = 3 then [HUSB_TDListDone] else []

/-- That message is erased, and the call never returns. -/
theorem not_noneLost_postAfterRead : ¬ NoneLost 0#16 0#16 postAfterRead := by
  intro h
  have herased : (waitRun 0#16 0#16 postAfterRead 5).state.chip.erased = true := by
    decide +kernel
  exact Bool.false_ne_true ((h.kept 5).symm.trans herased)

end Driver
