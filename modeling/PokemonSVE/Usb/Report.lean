-- SUMMARY: Where keycodes come from: a byte is stored to the keycode PIO only right after the word that it is taken from has been read from the report.
import PokemonSVE.Usb.Keycode
import PokemonSVE.Usb.Recovery

/-!
# Reports

A poll leaves the report of the keyboard at `0x051C`, and its third byte is the first
key that is down. With what has been read and what has been stored side by side, a key
that every report carries is in time the one that the PIO holds.
-/

namespace Driver

open Prog Progress

variable {σ ι : Type}

/-- The event is a read of the word of the report that has the first key. -/
def IsReport (e : HpiEvent σ) (v : BitVec 16) : Prop :=
  ∃ h, h.addr = 0x051E#16 ∧ e = .hears h HPI_DATA v

/-- After the event `e`, a keycode is stored only if `e` has read it. -/
def Reported (e : HpiEvent σ) : HpiEvent σ → Prop
  | .issues _ (.keycode v) => ∃ w, IsReport e w ∧ v = w.setWidth 8
  | _ => True

section Body

variable {chip : Chip σ ι} {h : Hpi σ} {e : HpiEvent σ}

/-- The code stores no keycode but the one that it has just read. -/
abbrev Reports (chip : Chip σ ι) {α : Type} (p : Code α) (h : Hpi σ) (e : HpiEvent σ) : Prop :=
  Assures chip.env (fun _ e => e) (fun _ => True) Reported (fun _ _ _ => True) p h e

theorem reports_of_issues {α : Type} {p : Code α} (hp : p.Issues Cmd.NotKeycode) :
    Reports chip p h e := by
  refine hp.assures (fun _ _ c hc => ?_) (fun _ _ _ _ => trivial) h e
  cases c with
  | keycode v => exact hc.elim
  | _ => trivial

theorem reports_endPoll : Reports chip endPoll h e := by
  have hcheck : (do
      let usb_ctl_val ← UsbRead ctl_reg
      if usb_ctl_val &&& no_device = 0#16 then do
        let usb_ctl_val ← recheck 7 usb_ctl_val
        pure (Label.removed usb_ctl_val)
      else pure (.removed usb_ctl_val) : Code Label).Issues Cmd.NotKeycode := by
    refine (closed_issues.usbRead _).bind fun u => ?_
    split_ifs
    · exact (closed_issues.recheck 7 u).bind fun _ => issues_ret _
    · exact issues_ret _
  refine fun i _ => ⟨trivial, fun j _ => ⟨trivial, fun k _ => ⟨?_, reports_of_issues hcheck⟩⟩⟩
  exact ⟨_, ⟨_, rfl, rfl⟩, rfl⟩

theorem reports_body (q : Point) : Reports chip (body q) h e := by
  obtain ⟨l, v⟩ := q
  by_cases hl : ∃ u, l = .pollWait (.returned u)
  · obtain ⟨u, rfl⟩ := hl
    exact reports_endPoll.bind fun _ _ _ _ => trivial
  · exact reports_of_issues (issues_body (fun u hu => hl ⟨u, hu⟩) v)

end Body

/-! ## Runs -/

section Runs

variable (chip : Chip σ ι) (data_size : BitVec 8) (h : Hpi σ) (ins : ℕ → ι)

/-- From step `n` on every report has the key `k`. -/
def HeldFrom (k : BitVec 8) (n : ℕ) : Prop :=
  ∀ j ≥ n, ∀ v, IsReport (event chip data_size h ins j) v → v.setWidth 8 = k

/-- The PIO `lab8_soc_keycode`, on an event of the driver. -/
def lab8_soc_keycode (data_out : BitVec 8) : HpiEvent σ → BitVec 8
  | .issues _ (.keycode v) => v
  | _ => data_out

/-- Its register after `n` steps of the driver. -/
def data_out (n : ℕ) : BitVec 8 := Driven.run lab8_soc_keycode 0#8 (event chip data_size h ins) n

variable {chip data_size h ins}

theorem reported (n : ℕ) :
    Reported (event chip data_size h ins n) (event chip data_size h ins (n + 1)) := by
  have hmain : Reports chip (run chip data_size h ins 0).prog h .arrives := trivial
  change Reported (Driven.run (fun _ e => e) .arrives (event chip data_size h ins) (n + 1)) _
  exact run_assures (fun _ => trivial) (fun q _ _ _ _ => reports_body q) hmain
    (fun _ => trivial) (n + 1)

/-- What is stored after the reports have the key is the key. -/
theorem keycode_of_held {k : BitVec 8} {n : ℕ} (hheld : HeldFrom chip data_size h ins k n) {j : ℕ}
    (hj : n ≤ j) {s : Hpi σ} {v : BitVec 8}
    (hstore : event chip data_size h ins (j + 1) = .issues s (.keycode v)) : v = k := by
  have hreported : Reported (event chip data_size h ins j) (event chip data_size h ins (j + 1)) :=
    reported j
  rw [hstore] at hreported
  obtain ⟨w, hw, rfl⟩ := hreported
  exact hheld j hj w hw

/-- A key that every report has is in time what the PIO holds, if keycodes are passed on
again and again. -/
theorem data_out_of_held {k : BitVec 8} {n : ℕ} (hheld : HeldFrom chip data_size h ins k n)
    (hpasses : Recurs (PassesOn chip data_size h ins)) :
    ∃ m, ∀ j ≥ m, data_out chip data_size h ins j = k := by
  obtain ⟨m, hm, h₁, h₂, v, haddr, hread, hstore⟩ := hpasses n
  refine ⟨m + 2, fun j hj => ?_⟩
  induction j, hj using Nat.le_induction with
  | base =>
    rw [data_out, Driven.run_succ, hstore]
    exact hheld m hm v ⟨h₁, haddr, hread⟩
  | succ j hj ih =>
    rw [data_out, Driven.run_succ]
    cases hevent : event chip data_size h ins j with
    | issues s c =>
      cases c with
      | keycode v =>
        obtain ⟨i, rfl⟩ : ∃ i, j = i + 1 := ⟨j - 1, by omega⟩
        exact keycode_of_held hheld (by omega) hevent
      | _ => exact ih
    | _ => exact ih

variable (chip data_size h ins) in
/-- The driver comes back, whatever the controller has done before: if from some step on
the requests succeed, and no wait is left unanswered for ever, then keycodes are passed
on again and again, and a key that every report has from some step on is from some step
on what the PIO holds. -/
theorem recovers (hsucceeds : ∃ n₀, SucceedsFrom chip data_size h ins n₀)
    (hfair : Fair chip data_size h ins) :
    Recurs (PassesOn chip data_size h ins) ∧
      ∀ k, (∃ n, HeldFrom chip data_size h ins k n) →
        ∃ m, ∀ j ≥ m, data_out chip data_size h ins j = k := by
  have hpasses := recurs_passesOn hsucceeds hfair
  refine ⟨hpasses, fun k hheld => ?_⟩
  obtain ⟨n, hheld⟩ := hheld
  exact data_out_of_held hheld hpasses

/-- Its reports have Enter, from the end of its past. -/
theorem held_lateChip : HeldFrom lateChip 0x00#8 lateStart (fun _ => ()) 0x28#8 200 := by
  rintro j hj v ⟨h, haddr, hread⟩
  have hpast := past_lateRun j
  rw [Nat.sub_eq_zero_of_le hj] at hpast
  change (lateRun j).event lateChip.env () = .hears h HPI_DATA v at hread
  generalize lateRun j = c at hpast hread
  obtain ⟨prog, addr, past, list⟩ := c
  obtain rfl : past = 0 := hpast
  cases prog with
  | ask q rest =>
    obtain ⟨rfl, rfl, rfl⟩ := Event.hears.inj hread
    obtain rfl : addr = 0x051E#16 := haddr
    rfl
  | _ => cases hread

theorem recovers_lateChip :
    Recurs (PassesOn lateChip 0x00#8 lateStart fun _ => ()) ∧
      ∃ m, ∀ j ≥ m, data_out lateChip 0x00#8 lateStart (fun _ => ()) j = 0x28#8 := by
  obtain ⟨hpasses, hkey⟩ := recovers lateChip 0x00#8 lateStart (fun _ => ())
    ⟨200, succeedsFrom_lateChip⟩ fair_lateChip
  exact ⟨hpasses, hkey 0x28#8 ⟨200, held_lateChip⟩⟩

end Runs

end Driver
