-- SUMMARY: The data toggle of the keyboard endpoint: which word every poll carries, over any number of sessions.
import PokemonSVE.Usb.Rules
import Mathlib.Algebra.Group.Nat.Even

/-!
# The data toggle

A poll is an interrupt-IN TD, which the driver may submit several times until it is
answered. The keycode is passed on when the poll is over, and a soft reset begins a
new enumeration. The endpoint is due `DATA0` after an enumeration, the same word as
long as the poll is not over, and the other word after that.
-/

namespace Driver

open Prog

/-- The control words of the polling TD. -/
def DATA0 : BitVec 16 := 0x0001#16
def DATA1 : BitVec 16 := 0x0041#16

/-- Where the endpoint stands. -/
inductive Session where
  /-- Enumerated, or about to be, and not polled since. -/
  | fresh
  /-- A poll with this word is under way. -/
  | polling (word : BitVec 16)
  /-- The last poll had this word, and is over. -/
  | polled (word : BitVec 16)
  deriving DecidableEq, Repr

/-- The word that the next TD is due to carry. -/
def Session.due : Session → BitVec 16
  | .fresh => DATA0
  | .polling word => word
  | .polled word => if word = DATA0 then DATA1 else DATA0

/-- What the end of a poll makes of the session. -/
def Session.finish : Session → Session
  | .polling word => .polled word
  | session => session

theorem Session.finish_ne_polling (s : Session) (word : BitVec 16) : s.finish ≠ .polling word := by
  cases s <;> simp [Session.finish]

theorem Session.finish_eq_polled {s : Session} {word : BitVec 16} (h : s.finish = .polled word) :
    s = .polling word ∨ s = .polled word := by
  cases s <;> simp_all [Session.finish]

/-- The endpoint, with the memory of the controller. -/
structure Endpoint where
  mem : BitVec 16 → BitVec 16
  session : Session
  /-- The polls since the start of the run, where one that is submitted again counts once. -/
  polls : ℕ

/-- The list at `p` is an interrupt-IN TD of the keyboard. -/
def Endpoint.IsPoll (s : Endpoint) (p : BitVec 16) : Prop := s.mem (p + 4#16) = 0x0291#16

instance (s : Endpoint) (p : BitVec 16) : Decidable (s.IsPoll p) :=
  inferInstanceAs (Decidable (_ = _))

/-- Its control word. -/
def Endpoint.word (s : Endpoint) (p : BitVec 16) : BitVec 16 := s.mem (p + 6#16)

/-- A poll is submitted, for the first time or again. -/
def Endpoint.poll (s : Endpoint) (p : BitVec 16) : Endpoint where
  mem := s.mem
  session := .polling (s.word p)
  polls :=
    match s.session with
    | .polling _ => s.polls
    | .fresh | .polled _ => s.polls + 1

/-- A controller that follows the session, and answers any word to a read. -/
def endpointChip : Chip Endpoint (BitVec 16) where
  acts s _ := s
  load _ v _ := v
  loaded s _ := s
  store s address data :=
    if address = HUSB_SIE1_pCurrentTDPtr then if s.IsPoll data then s.poll data else s
    else { s with mem := fun a => if a = address then data else s.mem a }
  status _ v := v
  mailbox _ v := v
  command s d := if d = COMM_RESET then { s with session := .fresh } else s
  keycode s _ := { s with session := s.session.finish }

theorem endpointChip_submit (s : Endpoint) (p : BitVec 16) :
    endpointChip.store s HUSB_SIE1_pCurrentTDPtr p = if s.IsPoll p then s.poll p else s := rfl

/-- The driver is about to submit the poll at `p`. -/
structure SubmitsPoll (c : Config Cmd (BitVec 8) (BitVec 16) (Hpi Endpoint) Point)
    (p : BitVec 16) : Prop where
  addr : c.state.addr = HUSB_SIE1_pCurrentTDPtr
  prog : ∃ rest, c.prog = .emit (.IO_write HPI_DATA p) rest
  poll : c.state.chip.IsPoll p

/-! ## The invariant -/

/-- The control word that `main` writes for a value of `toggle`. -/
def toggleWord (toggle : BitVec 8) : BitVec 16 := if toggle % 2#8 ≠ 0#8 then DATA0 else DATA1

/-- `toggle` counts the polls, and a word in the session is the one for `toggle`. -/
structure Counts (v : Locals) (s : Endpoint) : Prop where
  polls : v.toggle = BitVec.ofNat 8 s.polls
  polling : ∀ word, s.session = .polling word → word = toggleWord v.toggle
  polled : ∀ word, s.session = .polled word → word = toggleWord v.toggle

/-- No poll is under way. -/
def Idle (s : Endpoint) : Prop := ∀ word, s.session ≠ .polling word

theorem toggleWord_eq (toggle : BitVec 8) :
    toggleWord toggle = if toggle.toNat % 2 = 1 then DATA0 else DATA1 := by
  have hodd : toggle % 2#8 ≠ 0#8 ↔ toggle.toNat % 2 = 1 := by
    rw [Ne, ← BitVec.toNat_inj, BitVec.toNat_umod]
    change ¬ toggle.toNat % 2 = 0 ↔ _
    omega
  exact if_congr hodd rfl rfl

/-- The words alternate, across the wrap of `toggle` as well. -/
theorem toggleWord_succ (toggle : BitVec 8) :
    toggleWord (toggle + 1#8) = if toggleWord toggle = DATA0 then DATA1 else DATA0 := by
  have hwrap : (toggle + 1#8).toNat % 2 = (toggle.toNat + 1) % 2 := by
    rw [BitVec.toNat_add]
    change (toggle.toNat + 1) % 256 % 2 = _
    omega
  have hne : DATA1 ≠ DATA0 := by decide
  rw [toggleWord_eq, toggleWord_eq, hwrap]
  rcases Nat.mod_two_eq_zero_or_one toggle.toNat with h | h
  · simp [h, hne, Nat.add_mod]
  · simp [h, Nat.add_mod]

/-- After `n` polls the next one carries `DATA0` exactly if `n` is even. -/
theorem toggleWord_eq_DATA0 (n : ℕ) :
    toggleWord (BitVec.ofNat 8 n + 1#8) = DATA0 ↔ Even n := by
  have hne : DATA1 ≠ DATA0 := by decide
  have hparity : (BitVec.ofNat 8 n).toNat % 2 = n % 2 := by
    rw [BitVec.toNat_ofNat]
    omega
  rw [toggleWord_succ, toggleWord_eq, hparity, Nat.even_iff]
  rcases Nat.mod_two_eq_zero_or_one n with h | h
  · simp [h, hne]
  · simp [h, hne]

/-! ## Submissions -/

/-- Stores to the memory of the lists leave the session alone. -/
theorem stores_session (s : Endpoint) {a : BitVec 16} {ws : List (BitVec 16)} (h : Avoids a ws) :
    (endpointChip.stores s a ws).session = s.session ∧
      (endpointChip.stores s a ws).polls = s.polls := by
  induction ws generalizing s a with
  | nil => exact ⟨rfl, rfl⟩
  | cons w ws ih =>
    obtain ⟨ha, hws⟩ := h
    have hstore : endpointChip.store s a w =
        { s with mem := fun b => if b = a then w else s.mem b } := if_neg ha
    obtain ⟨hsession, hpolls⟩ := ih (endpointChip.store s a w) hws
    rw [Chip.stores, hsession, hpolls, hstore]
    exact ⟨rfl, rfl⟩

/-- The poll that is submitted carries the word that is due, exactly if an even number
of polls precedes the first one of a session. -/
def Due (h : Hpi Endpoint) (c : Cmd) : Prop :=
  ∀ p, c = .IO_write HPI_DATA p → h.addr = HUSB_SIE1_pCurrentTDPtr → h.chip.IsPoll p →
    (h.chip.word p = h.chip.session.due ↔ (h.chip.session = .fresh → Even h.chip.polls))

theorem due_of_ne (h : Hpi Endpoint) (c : Cmd)
    (hne : ∀ d, c = .IO_write HPI_DATA d → h.addr ≠ HUSB_SIE1_pCurrentTDPtr) : Due h c :=
  fun _ hc ha => absurd ha (hne _ hc)

theorem frame_counts (v : Locals) : Frame endpointChip Due (Counts v) where
  acts _ _ h := h
  loaded _ _ h := h
  store s a d ha h := by
    have hstore : endpointChip.store s a d =
        { s with mem := fun b => if b = a then d else s.mem b } := if_neg ha.1
    rw [hstore]
    exact ⟨h.polls, h.polling, h.polled⟩
  command s d h := by
    simp only [endpointChip]
    split_ifs
    · exact ⟨h.polls, by simp, by simp⟩
    · exact h
  keycode s _ h := by
    refine ⟨h.polls, fun word hword => absurd hword (Session.finish_ne_polling _ word), ?_⟩
    intro word hword
    rcases Session.finish_eq_polled hword with hs | hs
    · exact h.polling word hs
    · exact h.polled word hs
  ok := due_of_ne

theorem frame_idle (v : Locals) : Frame endpointChip Due fun s => Counts v s ∧ Idle s where
  acts _ _ h := h
  loaded _ _ h := h
  store s a d ha h := by
    have hstore : endpointChip.store s a d =
        { s with mem := fun b => if b = a then d else s.mem b } := if_neg ha.1
    refine ⟨(frame_counts v).store s a d ha h.1, ?_⟩
    rw [hstore]
    exact h.2
  command s d h := by
    refine ⟨(frame_counts v).command s d h.1, ?_⟩
    simp only [endpointChip]
    split_ifs
    · exact fun word => by simp
    · exact h.2
  keycode s k h := ⟨(frame_counts v).keycode s k h.1, Session.finish_ne_polling _⟩
  ok := due_of_ne

theorem Counts.congr {v v' : Locals} {s s' : Endpoint} (h : Counts v s)
    (htoggle : v'.toggle = v.toggle) (hsession : s'.session = s.session)
    (hpolls : s'.polls = s.polls) : Counts v' s' := by
  refine ⟨?_, ?_, ?_⟩
  · rw [htoggle, hpolls, h.polls]
  · rw [htoggle, hsession]
    exact h.polling
  · rw [htoggle, hsession]
    exact h.polled

/-- A list that is not a poll. -/
theorem keeps_other {v : Locals} {p : BitVec 16} {words : List (BitVec 16)}
    (havoids : Avoids p words) (hother : ∀ s, ¬ (endpointChip.stores s p words).IsPoll p) :
    KeepsChip endpointChip Due (fun s => Counts v s ∧ Idle s) (submit p words) := by
  intro h hh
  refine (holds_submit_stores (fun _ _ => rfl) due_of_ne havoids ?_).mono fun _ h' hh' => ?_
  · intro q hq _ hpoll
    obtain rfl := (Cmd.IO_write.inj hq).2
    exact absurd hpoll (hother _)
  · obtain ⟨hsession, hpolls⟩ := stores_session h.chip havoids
    rw [hh', endpointChip_submit, if_neg (hother _)]
    refine ⟨hh.1.congr rfl hsession hpolls, ?_⟩
    rw [Idle, hsession]
    exact hh.2

theorem keeps_requestCode (r : Request) (v : Locals) :
    KeepsChip endpointChip Due (fun s => Counts v s ∧ Idle s) r.code := by
  -- The third word of the lists is `0x00D0` or `0x02D0`.
  have h00D0 : ¬ (0x00D0#16 = 0x0291#16) := by decide
  have h02D0 : ¬ (0x02D0#16 = 0x0291#16) := by decide
  cases r with
  | setAddress => exact keeps_other (by decide) fun _ => h00D0
  | _ => exact keeps_other (by decide) fun _ => h02D0

/-- A poll that is due. -/
theorem holds_poll {v : Locals} {h : Hpi Endpoint}
    (hdue : toggleWord v.toggle = h.chip.session.due ↔
      (h.chip.session = .fresh → Even h.chip.polls)) :
    Holds endpointChip.env Due (fun _ h' => h'.chip.session = .polling (toggleWord v.toggle) ∧
      h'.chip.polls = (h.chip.poll 0x0500#16).polls) (submit 0x0500#16 (pollWords v)) h := by
  have havoids : Avoids 0x0500#16 (pollWords v) := by
    simp [pollWords, Avoids, HUSB_SIE1_pCurrentTDPtr]
  obtain ⟨hsession, hpolls⟩ := stores_session h.chip havoids
  let s := endpointChip.stores h.chip 0x0500#16 (pollWords v)
  have hword : s.word 0x0500#16 = toggleWord v.toggle := rfl
  have hpoll : s.IsPoll 0x0500#16 := rfl
  refine (holds_submit_stores (fun _ _ => rfl) due_of_ne havoids ?_).mono fun _ h' hh' => ?_
  · intro q hq _ _
    obtain rfl := (Cmd.IO_write.inj hq).2
    rw [hsession, hpolls]
    exact hdue
  · rw [hh', endpointChip_submit, if_pos hpoll]
    refine ⟨rfl, ?_⟩
    simp only [Endpoint.poll, hsession, hpolls]

/-! ## A run of main -/

section Run

/-- What is known at the labels. -/
structure ToggleInv (q : Point) (h : Hpi Endpoint) : Prop where
  counts : Counts q.2 h.chip
  active : q.1 = .pollStatus → ∃ word, h.chip.session = .polling word
  idle : q.1 ≠ .pollStatus → (∀ w, q.1 ≠ .pollWait w) → Idle h.chip

theorem ToggleInv.of_idle {q : Point} {h : Hpi Endpoint} (hq : q.1 ≠ .pollStatus)
    (hh : Counts q.2 h.chip ∧ Idle h.chip) : ToggleInv q h :=
  ⟨hh.1, fun hl => absurd hl hq, fun _ _ => hh.2⟩

theorem ToggleInv.of_pollWait {w : Wait} {v : Locals} {h : Hpi Endpoint}
    (hh : Counts v h.chip) : ToggleInv (.pollWait w, v) h where
  counts := hh
  active hl := by cases hl
  idle _ hl := absurd rfl (hl w)

theorem ToggleInv.of_poll {v : Locals} {h : Hpi Endpoint}
    (hsession : h.chip.session = .polling (toggleWord v.toggle))
    (hpolls : v.toggle = BitVec.ofNat 8 h.chip.polls) : ToggleInv (.pollStatus, v) h where
  counts := {
    polls := hpolls
    polling := fun word hword => (Session.polling.inj (hsession.symm.trans hword)).symm
    polled := fun word hword => by rw [hsession] at hword; cases hword }
  active _ := ⟨_, hsession⟩
  idle hl := absurd rfl hl

/-- A new poll carries the word for the next value of `toggle`. -/
theorem holds_newPoll {v : Locals} {h : Hpi Endpoint} (hcounts : Counts v h.chip)
    (hidle : Idle h.chip) : Holds endpointChip.env Due ToggleInv (body (.poll, v)) h := by
  let v' : Locals := { v with toggle := v.toggle + 1#8 }
  have hdue : toggleWord v'.toggle = h.chip.session.due ↔
      (h.chip.session = .fresh → Even h.chip.polls) := by
    cases hs : h.chip.session with
    | fresh =>
      rw [forall_prop_of_true rfl, ← toggleWord_eq_DATA0, ← hcounts.polls]
      rfl
    | polling word => exact absurd hs (hidle word)
    | polled word =>
      refine iff_of_true ?_ fun hfresh => by cases hfresh
      rw [toggleWord_succ, ← hcounts.polled word hs]
      rfl
  have hpolls : (h.chip.poll 0x0500#16).polls = h.chip.polls + 1 := by
    cases hs : h.chip.session with
    | polling word => exact absurd hs (hidle word)
    | _ => simp only [Endpoint.poll, hs]
  refine (holds_poll (v := v') hdue).bind fun _ h' hh' => .of_poll hh'.1 ?_
  rw [hh'.2, hpolls, BitVec.ofNat_add, ← hcounts.polls]

/-- A poll that is submitted again repeats its word. -/
theorem holds_pollAgain {v : Locals} {h : Hpi Endpoint} (hcounts : Counts v h.chip)
    (hactive : ∃ word, h.chip.session = .polling word) :
    Holds endpointChip.env Due ToggleInv
      (submit 0x0500#16 (pollWords v) >>= fun _ => pure (.pollStatus, v)) h := by
  obtain ⟨word, hs⟩ := hactive
  have hdue : toggleWord v.toggle = h.chip.session.due ↔
      (h.chip.session = .fresh → Even h.chip.polls) := by
    rw [hs]
    exact iff_of_true (hcounts.polling word hs).symm fun hfresh => by cases hfresh
  have hpolls : (h.chip.poll 0x0500#16).polls = h.chip.polls := by simp only [Endpoint.poll, hs]
  refine (holds_poll hdue).bind fun _ h' hh' => .of_poll hh'.1 ?_
  rw [hh'.2, hpolls, hcounts.polls]

theorem holds_submitsToggle {l : Label} (hl : l.Submits) {v : Locals} {h : Hpi Endpoint}
    (hinv : ToggleInv (l, v) h) : Holds endpointChip.env Due ToggleInv (body (l, v)) h := by
  cases l with
  | request r =>
    refine (keeps_requestCode r v h ⟨hinv.counts, hinv.idle (by simp) (by simp)⟩).bind ?_
    exact fun _ h hh => .of_idle (by simp) hh
  | requestStatus r =>
    refine ((frame_idle v).io_read _ h ⟨hinv.counts, hinv.idle (by simp) (by simp)⟩).bind ?_
    intro s h hh
    split_ifs
    · exact (keeps_requestCode r v h hh).bind fun _ h hh => .of_idle (by simp) hh
    · exact .of_idle (by simp) hh
  | deviceInfo =>
    have h0003 : ¬ (0x0003#16 = 0x0291#16) := by decide
    have hblock : KeepsChip endpointChip Due (fun s => Counts v s ∧ Idle s)
        (submit 0x0576#16 [0x073F#16, 0x8105#16, 0x0003#16, 0x0008#16, 0xAC0A#16]) :=
      keeps_other (by decide) fun _ => h0003
    refine ((frame_idle v).closed.usbRead _ h ⟨hinv.counts, hinv.idle (by simp) (by simp)⟩).bind ?_
    intro _ h hh
    refine (hblock h hh).bind fun _ h hh => ?_
    refine ((frame_idle v).closed.usbRead _ h hh).bind fun d h hh => ?_
    exact .of_idle (by simp) ⟨hh.1.congr rfl rfl rfl, hh.2⟩
  | poll => exact holds_newPoll hinv.counts (hinv.idle (by simp) (by simp))
  | pollStatus =>
    -- The read of the status leaves the session as it is.
    intro i
    change Holds endpointChip.env Due ToggleInv (if _ then _ else _) h
    split_ifs
    · exact holds_pollAgain hinv.counts (hinv.active rfl)
    · exact .of_pollWait hinv.counts
  | _ => exact hl.elim

/-- The end of a poll. -/
theorem holds_endPoll {v : Locals} {h : Hpi Endpoint} (hcounts : Counts v h.chip) :
    Holds endpointChip.env Due (fun _ h => Counts v h.chip ∧ Idle h.chip) endPoll h := by
  refine ((frame_counts v).closed.usbRead _ h hcounts).bind fun k h hcounts => ?_
  have hkeycode : Holds endpointChip.env Due (fun _ h => Counts v h.chip ∧ Idle h.chip)
      (keycode_base (k.setWidth 8)) h := fun i =>
    ⟨due_of_ne _ _ (fun _ hc => by cases hc), (frame_counts v).keycode _ (k.setWidth 8) hcounts,
      Session.finish_ne_polling _⟩
  refine hkeycode.bind fun _ h hh => ((frame_idle v).closed.usbRead _ h hh).bind fun u h hh => ?_
  split_ifs
  · exact ((frame_idle v).closed.recheck 7 u h hh).bind fun _ _ hh => hh
  · exact hh

theorem holds_pollWait {w : Wait} {v : Locals} {h : Hpi Endpoint}
    (hinv : ToggleInv (.pollWait w, v) h) :
    Holds endpointChip.env Due ToggleInv (body (.pollWait w, v)) h := by
  have hwait : Holds endpointChip.env Due ToggleInv
      (UsbWaitTDListDone w >>= fun w => pure (.pollWait w, v)) h :=
    ((frame_counts v).closed.usbWaitTDListDone w h hinv.counts).bind fun _ _ hh => .of_pollWait hh
  cases w with
  | returned u =>
    refine ((holds_endPoll hinv.counts).and_ends (ends_endPoll u)).bind fun l h hh => ?_
    exact .of_idle (Label.Next.ne_pollStatus hh.2 id) hh.1
  | _ => exact hwait

theorem holds_toggle {q : Point} {h : Hpi Endpoint} (hinv : ToggleInv q h) :
    Holds endpointChip.env Due ToggleInv (body q) h := by
  obtain ⟨l, v⟩ := q
  by_cases hsubmits : l.Submits
  · exact holds_submitsToggle hsubmits hinv
  by_cases hwait : ∃ w, l = .pollWait w
  · obtain ⟨w, rfl⟩ := hwait
    exact holds_pollWait hinv
  · have hidle : Idle h.chip := by
      refine hinv.idle ?_ fun w hl => hwait ⟨w, hl⟩
      rintro rfl
      exact hsubmits trivial
    refine ((frame_idle v).body hsubmits v ⟨hinv.counts, hidle⟩).mono fun q h hq => ?_
    exact .of_idle hq.2.2.2 (by rw [hq.2.1]; exact hq.1)

variable (data_size : BitVec 8) (address : BitVec 16) (mem : BitVec 16 → BitVec 16)
  (ins : ℕ → BitVec 16)

/-- A run, before which nothing has been polled. -/
def toggleRun (n : ℕ) : Config Cmd (BitVec 8) (BitVec 16) (Hpi Endpoint) Point :=
  run endpointChip data_size ⟨address, mem, .fresh, 0⟩ ins n

/-- A poll that main submits carries the word that is due, exactly if it is not the
first one of a session after an odd number of polls. -/
theorem word_due_iff {n : ℕ} {p : BitVec 16}
    (h : SubmitsPoll (toggleRun data_size address mem ins n) p) :
    (toggleRun data_size address mem ins n).state.chip.word p =
        (toggleRun data_size address mem ins n).state.chip.session.due ↔
      ((toggleRun data_size address mem ins n).state.chip.session = .fresh →
        Even (toggleRun data_size address mem ins n).state.chip.polls) := by
  have hstart : ToggleInv (.main, .start data_size) ⟨address, mem, .fresh, 0⟩ :=
    .of_idle (by simp) ⟨⟨rfl, by simp, by simp⟩, by simp [Idle]⟩
  have hrun : Holds endpointChip.env Due ToggleInv
      (toggleRun data_size address mem ins n).prog (toggleRun data_size address mem ins n).state :=
    run_holds (fun _ _ _ => holds_toggle) hstart ins n
  obtain ⟨rest, hprog⟩ := h.prog
  exact hrun.of_emit hprog 0#16 p rfl h.addr h.poll

/-- Nine steps after its label `poll` submits the poll. -/
theorem submitsPoll_poll {n : ℕ} {v : Locals}
    (h : (toggleRun data_size address mem ins n).prog = .ret (.poll, v)) :
    SubmitsPoll (toggleRun data_size address mem ins (n + 9)) 0x0500#16 := by
  rw [toggleRun, run, run_add_of_ret h]
  exact ⟨rfl, ⟨_, rfl⟩, rfl⟩

end Run

/-- The keyboard is unplugged during the first poll, and plugged in again. -/
def replugged : ℕ → BitVec 16 := Driven.script no_device [(540, no_device), (26, 0#16)]

/-- The answers of a controller whose requests succeed meanwhile. -/
def repluggedAnswers : ℕ → BitVec 16 :=
  answers endpointChip 0#8 ⟨0#16, fun _ => 0#16, .fresh, 0⟩ replugged

theorem toggleRun_replugged (n : ℕ) :
    toggleRun 0#8 0#16 (fun _ => 0#16) repluggedAnswers n =
      succeedRun endpointChip 0#8 ⟨0#16, fun _ => 0#16, .fresh, 0⟩ replugged n :=
  run_answers endpointChip 0#8 _ replugged n

/-- On these answers the first session begins with the word that is due. -/
theorem word_due_first :
    (toggleRun 0#8 0#16 (fun _ => 0#16) repluggedAnswers 535).state.chip.word 0x0500#16 =
      (toggleRun 0#8 0#16 (fun _ => 0#16) repluggedAnswers 535).state.chip.session.due := by
  have hlabel : (toggleRun 0#8 0#16 (fun _ => 0#16) repluggedAnswers 526).prog.label? =
      some (.poll, ⟨0#8, 0#8⟩) := by
    rw [toggleRun_replugged]
    decide +kernel
  have hsubmits :
      SubmitsPoll (toggleRun 0#8 0#16 (fun _ => 0#16) repluggedAnswers 535) 0x0500#16 :=
    submitsPoll_poll 0#8 0#16 _ repluggedAnswers (eq_ret_of_label? hlabel)
  have hpolls : (toggleRun 0#8 0#16 (fun _ => 0#16) repluggedAnswers 535).state.chip.polls = 0 := by
    rw [toggleRun_replugged]
    decide +kernel
  exact (word_due_iff 0#8 0#16 _ repluggedAnswers hsubmits).mpr fun _ => by rw [hpolls]; decide

/-- The second session begins with `DATA1`. -/
theorem not_word_due_replugged :
    ¬ ∀ n p, SubmitsPoll (toggleRun 0#8 0#16 (fun _ => 0#16) repluggedAnswers n) p →
      (toggleRun 0#8 0#16 (fun _ => 0#16) repluggedAnswers n).state.chip.word p =
        (toggleRun 0#8 0#16 (fun _ => 0#16) repluggedAnswers n).state.chip.session.due := by
  intro hall
  have hlabel : (toggleRun 0#8 0#16 (fun _ => 0#16) repluggedAnswers 1095).prog.label? =
      some (.poll, ⟨1#8, 0#8⟩) := by
    rw [toggleRun_replugged]
    decide +kernel
  have hsubmits := submitsPoll_poll 0#8 0#16 _ repluggedAnswers (eq_ret_of_label? hlabel)
  have hdue := hall _ _ hsubmits
  rw [toggleRun_replugged] at hdue
  exact absurd hdue (by decide +kernel)

end Driver
