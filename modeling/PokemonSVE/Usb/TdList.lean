-- SUMMARY: The TD lists of the driver: which of the lists handed to the controller are well formed, whatever the memory held before and whatever is read.
import PokemonSVE.Usb.Rules
import Mathlib.Order.CompletePartialOrder
import Mathlib.Order.Interval.Set.Disjoint
import Mathlib.Data.List.Pairwise

/-!
# TD lists

A TD is six words: the base of its data buffer, the length, three words of control,
and the address of the next TD. A list is well formed if it ends, all of it has been
written since the submission before, and nothing overlaps a TD.
-/

namespace Driver

open Prog

/-- The words that the driver has written since the submission before. -/
abbrev Written := BitVec 16 → Option (BitVec 16)

/-- A controller that remembers what is written, and answers any word to a read. -/
def writtenChip : Chip Written (BitVec 16) where
  acts s _ := s
  load _ v _ := v
  loaded s _ := s
  store s address data :=
    if address = HUSB_SIE1_pCurrentTDPtr then fun _ => none
    else fun a => if a = address then some data else s a
  status _ v := v
  mailbox _ v := v
  command s _ := s
  keycode s _ := s

/-- The offsets of the words of a TD. -/
def tdWords : List (BitVec 16) := [0#16, 2#16, 4#16, 6#16, 8#16, 10#16]

/-- The bytes of the TD at `t`. -/
def tdBytes (t : BitVec 16) : Set ℕ := Set.Ico t.toNat (t.toNat + 12)

/-- The data buffer of the TD at `t`. -/
def buffer (m : BitVec 16 → BitVec 16) (t : BitVec 16) : Set ℕ :=
  Set.Ico (m t).toNat ((m t).toNat + (m (t + 2#16)).toNat)

/-- The list at `p` consists of these TDs, and ends. -/
def Chain (m : BitVec 16 → BitVec 16) : BitVec 16 → List (BitVec 16) → Prop
  | p, [] => p = 0#16
  | p, t :: tds => p ≠ 0#16 ∧ t = p ∧ Chain m (m (t + 10#16)) tds

/-- The list at `p` of the memory `m` is well formed, where `w` has been written. -/
structure WellFormed (m : BitVec 16 → BitVec 16) (w : Written) (p : BitVec 16)
    (tds : List (BitVec 16)) : Prop where
  chain : Chain m p tds
  nodup : tds.Nodup
  written : ∀ t ∈ tds, ∀ k ∈ tdWords, (w (t + k)).isSome
  apart : tds.Pairwise fun t u => Disjoint (tdBytes t) (tdBytes u)
  buffers : ∀ t ∈ tds, ∀ u ∈ tds, Disjoint (buffer m t) (tdBytes u)

/-- Memory that holds what has been written. -/
def Written.In (w : Written) (m : BitVec 16 → BitVec 16) : Prop := ∀ a v, w a = some v → m a = v

/-- The driver is about to hand over the list at `p`. -/
def Submits (c : Config Cmd (BitVec 8) (BitVec 16) (Hpi Written) Point) (p : BitVec 16) : Prop :=
  c.state.addr = HUSB_SIE1_pCurrentTDPtr ∧ ∃ rest, c.prog = .emit (.IO_write HPI_DATA p) rest

/-- Whatever the rest of the memory holds, a list that is handed over is well formed. -/
def Submittable (w : Written) (p : BitVec 16) : Prop :=
  ∀ m, w.In m → ∃ tds, WellFormed m w p tds

/-! ## Lists from what has been written -/

theorem Chain.congr {m m' : BitVec 16 → BitVec 16} {p : BitVec 16} {tds : List (BitVec 16)}
    (h : Chain m p tds) (hm : ∀ t ∈ tds, m' (t + 10#16) = m (t + 10#16)) : Chain m' p tds := by
  induction tds generalizing p with
  | nil => exact h
  | cons t tds ih =>
    obtain ⟨hp, ht, hnext⟩ := h
    refine ⟨hp, ht, ?_⟩
    rw [hm t List.mem_cons_self]
    exact ih hnext fun u hu => hm u (List.mem_cons_of_mem t hu)

/-- What is well formed by the written words alone is so in any memory that holds them,
and when more is written. -/
theorem WellFormed.extend {f w : Written} {m : BitVec 16 → BitVec 16} {p : BitVec 16}
    {tds : List (BitVec 16)} (h : WellFormed (fun a => (f a).getD 0#16) f p tds)
    (hfw : ∀ a v, f a = some v → w a = some v) (hm : w.In m) : WellFormed m w p tds := by
  have hword {t : BitVec 16} (ht : t ∈ tds) {k : BitVec 16} (hk : k ∈ tdWords) :
      m (t + k) = (f (t + k)).getD 0#16 := by
    obtain ⟨v, hv⟩ := Option.isSome_iff_exists.mp (h.written t ht k hk)
    rw [hv, hm _ _ (hfw _ _ hv), Option.getD_some]
  have hbase {t : BitVec 16} (ht : t ∈ tds) : m t = (f t).getD 0#16 := by
    have h0 := hword ht (k := 0#16) (by decide)
    rwa [BitVec.add_zero] at h0
  refine ⟨h.chain.congr fun t ht => hword ht (by decide), h.nodup, ?_, h.apart, ?_⟩
  · intro t ht k hk
    obtain ⟨v, hv⟩ := Option.isSome_iff_exists.mp (h.written t ht k hk)
    rw [hfw _ _ hv]
    rfl
  · intro t ht u hu
    have hbuffer : buffer m t = buffer (fun a => (f a).getD 0#16) t := by
      unfold buffer
      rw [hbase ht, hword ht (by decide)]
    rw [hbuffer]
    exact h.buffers t ht u hu

/-- What a list of words leaves at the addresses that it covers does not depend on what
was written before. -/
theorem stores_mono (ws : List (BitVec 16)) (a : BitVec 16) {f w : Written}
    (h : ∀ a v, f a = some v → w a = some v) :
    ∀ b v, writtenChip.stores f a ws b = some v → writtenChip.stores w a ws b = some v := by
  induction ws generalizing a f w with
  | nil => exact h
  | cons d ws ih =>
    refine ih (a + 2#16) fun b v hb => ?_
    by_cases hptr : a = HUSB_SIE1_pCurrentTDPtr
    · simp [writtenChip, hptr] at hb
    · simp only [writtenChip, if_neg hptr] at hb ⊢
      by_cases hba : b = a
      · rwa [if_pos hba] at hb ⊢
      · rw [if_neg hba] at hb ⊢
        exact h b v hb

/-! ## The lists of the driver -/

instance decidableChain (m : BitVec 16 → BitVec 16) :
    (p : BitVec 16) → (tds : List (BitVec 16)) → Decidable (Chain m p tds)
  | p, [] => inferInstanceAs (Decidable (p = 0#16))
  | _, t :: tds =>
    @instDecidableAnd _ _ _ (@instDecidableAnd _ _ _ (decidableChain m (m (t + 10#16)) tds))

instance (t u : BitVec 16) : Decidable (Disjoint (tdBytes t) (tdBytes u)) :=
  decidable_of_iff _ Set.Ico_disjoint_Ico.symm

instance (m : BitVec 16 → BitVec 16) (t u : BitVec 16) :
    Decidable (Disjoint (buffer m t) (tdBytes u)) :=
  decidable_of_iff _ Set.Ico_disjoint_Ico.symm

instance (m : BitVec 16 → BitVec 16) (w : Written) (p : BitVec 16) (tds : List (BitVec 16)) :
    Decidable (WellFormed m w p tds) :=
  decidable_of_iff
    (Chain m p tds ∧ tds.Nodup ∧ (tds.all fun t => tdWords.all fun k => (w (t + k)).isSome) ∧
      (tds.Pairwise fun t u => Disjoint (tdBytes t) (tdBytes u)) ∧
      tds.all fun t => tds.all fun u => decide (Disjoint (buffer m t) (tdBytes u)))
    (by
      simp only [List.all_eq_true, decide_eq_true_eq]
      exact ⟨fun h => ⟨h.1, h.2.1, h.2.2.1, h.2.2.2.1, h.2.2.2.2⟩,
        fun h => ⟨h.chain, h.nodup, h.written, h.apart, h.buffers⟩⟩)

/-- Words from `p` on that are a well-formed list by themselves. -/
def IsList (p : BitVec 16) (words : List (BitVec 16)) (tds : List (BitVec 16)) : Prop :=
  Avoids p words ∧
    WellFormed (fun a => (writtenChip.stores (fun _ => none) p words a).getD 0#16)
      (writtenChip.stores (fun _ => none) p words) p tds

instance (p : BitVec 16) (words tds : List (BitVec 16)) : Decidable (IsList p words tds) :=
  inferInstanceAs (Decidable (_ ∧ _))

/-- Such words can be submitted whatever has been written before. -/
theorem IsList.submittable {p : BitVec 16} {words tds : List (BitVec 16)}
    (h : IsList p words tds) (w : Written) : Submittable (writtenChip.stores w p words) p :=
  fun _ hm => ⟨tds, h.2.extend (stores_mono words p fun _ _ hnone => by cases hnone) hm⟩

theorem isList_code (r : Request) :
    ∃ words tds, r.code = submit 0x0500#16 words ∧ IsList 0x0500#16 words tds := by
  cases r with
  | setAddress => exact ⟨_, [0x0500#16, 0x0514#16], rfl, by decide +kernel⟩
  | deviceDesc1 => exact ⟨_, [0x0500#16, 0x0514#16, 0x0520#16], rfl, by decide +kernel⟩
  | deviceDesc2 =>
    exact ⟨_, [0x0500#16, 0x0514#16, 0x0520#16, 0x052C#16, 0x0538#16], rfl, by decide +kernel⟩
  | configDesc1 =>
    exact ⟨_, [0x0500#16, 0x0514#16, 0x0520#16, 0x052C#16], rfl, by decide +kernel⟩
  | configDesc2 =>
    exact ⟨_, [0x0500#16, 0x0514#16, 0x0520#16, 0x052C#16, 0x0538#16, 0x0544#16, 0x0550#16], rfl,
      by decide +kernel⟩
  | setConfig => exact ⟨_, [0x0500#16, 0x0514#16], rfl, by decide +kernel⟩
  | classRequest => exact ⟨_, [0x0500#16, 0x0514#16], rfl, by decide +kernel⟩
  | hidDesc => exact ⟨_, [0x0500#16, 0x0514#16, 0x0520#16], rfl, by decide +kernel⟩
  | reportDesc =>
    exact ⟨_, [0x0500#16, 0x0514#16, 0x0520#16, 0x052C#16, 0x0538#16, 0x0544#16, 0x0550#16,
      0x055C#16, 0x0568#16, 0x0574#16], rfl, by decide +kernel⟩

/-- The polling TD, for any length and toggle. -/
theorem isList_poll (v : Locals) : IsList 0x0500#16 (pollWords v) [0x0500#16] := by
  let f := writtenChip.stores (fun _ => none) 0x0500#16 (pollWords v)
  have hbase : f 0x0500#16 = some 0x051C#16 := rfl
  have hnext : f (0x0500#16 + 10#16) = some 0x0000#16 := rfl
  have hwritten : (tdWords.all fun k => (f (0x0500#16 + k)).isSome) = true := rfl
  refine ⟨by simp [pollWords, Avoids, HUSB_SIE1_pCurrentTDPtr], ?_, by simp, ?_, by simp, ?_⟩
  · refine ⟨by decide, rfl, ?_⟩
    exact congrArg (fun w => Option.getD w 0#16) hnext
  · simp only [List.mem_singleton, forall_eq]
    exact List.all_eq_true.mp hwritten
  · simp only [List.mem_singleton, forall_eq]
    -- The buffer lies behind the TD, whatever its length is.
    have hbehind : (0x0500#16).toNat + 12 ≤ ((f 0x0500#16).getD 0#16).toNat := by
      rw [hbase]
      decide
    exact Set.Ico_disjoint_Ico.mpr ((min_le_right _ _).trans (hbehind.trans (le_max_left _ _)))

/-- The block of `deviceInfo`, which main hands over as if it were a list. -/
def descriptorWords : List (BitVec 16) := [0x073F#16, 0x8105#16, 0x0003#16, 0x0008#16, 0xAC0A#16]

/-- Its next pointer is the word behind it, which has not been written. -/
theorem not_submittable_descriptor {w : Written} (hw : w 0x0580#16 = none) :
    ¬ Submittable (writtenChip.stores w 0x0576#16 descriptorWords) 0x0576#16 := by
  intro h
  let f := writtenChip.stores w 0x0576#16 descriptorWords
  have hnext : f (0x0576#16 + 10#16) = none := hw
  obtain ⟨tds, htds⟩ := h (fun a => (f a).getD 0#16) fun a v hv =>
    congrArg (fun o => Option.getD o 0#16) hv
  cases tds with
  | nil =>
    have hzero : 0x0576#16 = 0#16 := htds.chain
    exact absurd hzero (by decide)
  | cons t tds =>
    obtain ⟨-, rfl, -⟩ := htds.chain
    have hsome : (f (0x0576#16 + 10#16)).isSome := htds.written _ List.mem_cons_self _ (by decide)
    rw [hnext] at hsome
    exact Bool.false_ne_true hsome

/-! ## A run of main -/

section Run

/-- What is handed over is well formed, and is not the block of `deviceInfo`. -/
def GoodList (h : Hpi Written) (c : Cmd) : Prop :=
  ∀ p, c = .IO_write HPI_DATA p → h.addr = HUSB_SIE1_pCurrentTDPtr →
    p ≠ 0x0576#16 ∧ Submittable h.chip p

/-- What is handed over is well formed unless it is the block of `deviceInfo`. -/
def GoodUnlessDescriptor (h : Hpi Written) (c : Cmd) : Prop :=
  ∀ p, c = .IO_write HPI_DATA p → h.addr = HUSB_SIE1_pCurrentTDPtr →
    (Submittable h.chip p ↔ p ≠ 0x0576#16)

/-- The word behind the block of `deviceInfo` is not written. -/
abbrev Unwritten (w : Written) : Prop := w 0x0580#16 = none

theorem frame_unwritten {Ok : Hpi Written → Cmd → Prop}
    (hok : ∀ h c, (∀ d, c = .IO_write HPI_DATA d → h.addr ≠ HUSB_SIE1_pCurrentTDPtr) → Ok h c) :
    Frame writtenChip Ok Unwritten where
  acts _ _ h := h
  loaded _ _ h := h
  store s a d ha h := by
    have hne : (0x0580#16 : BitVec 16) ≠ a := by
      rintro rfl
      exact absurd ha (by decide)
    simp only [Unwritten, writtenChip, if_neg ha.1, if_neg hne]
    exact h
  command _ _ h := h
  keycode _ _ h := h
  ok := hok

theorem frame_good : Frame writtenChip GoodList Unwritten :=
  frame_unwritten fun _ _ hne _ hc ha => absurd ha (hne _ hc)

theorem frame_goodUnless : Frame writtenChip GoodUnlessDescriptor Unwritten :=
  frame_unwritten fun _ _ hne _ hc ha => absurd ha (hne _ hc)

theorem keeps_submit {p : BitVec 16} {words tds : List (BitVec 16)} (h : IsList p words tds)
    (hp : p ≠ 0x0576#16) : KeepsChip writtenChip GoodList Unwritten (submit p words) := by
  intro s _
  refine (holds_submit_stores (fun _ _ => rfl) frame_good.ok h.1 ?_).mono fun _ s' hs' => ?_
  · intro q hq _
    obtain rfl := (Cmd.IO_write.inj hq).2
    exact ⟨hp, h.submittable _⟩
  · rw [hs']
    rfl

theorem keeps_code (r : Request) : KeepsChip writtenChip GoodList Unwritten r.code := by
  obtain ⟨words, tds, hcode, hlist⟩ := isList_code r
  rw [hcode]
  exact keeps_submit hlist (by decide)

theorem keeps_body {l : Label} (hl : l ≠ .deviceInfo) (v : Locals) :
    KeepsChip writtenChip GoodList Unwritten (body (l, v)) := by
  exact frame_good.closed.body v (fun r _ => keeps_code r)
    (fun v _ => keeps_submit (isList_poll v) (by decide)) (fun h => absurd h hl)
    fun _ k _ => frame_good.keycode_base k

theorem keeps_deviceInfo (v : Locals) :
    KeepsChip writtenChip GoodUnlessDescriptor Unwritten (body (.deviceInfo, v)) := by
  have hsubmit :
      KeepsChip writtenChip GoodUnlessDescriptor Unwritten (submit 0x0576#16 descriptorWords) := by
    intro s hs
    refine (holds_submit_stores (fun _ _ => rfl) frame_goodUnless.ok (by decide) ?_).mono
      fun _ s' hs' => ?_
    · intro q hq _
      obtain rfl := (Cmd.IO_write.inj hq).2
      exact iff_of_false (not_submittable_descriptor hs) fun hne => hne rfl
    · rw [hs']
      rfl
  exact (frame_goodUnless.closed.usbRead _).bind fun _ => hsubmit.bind fun _ =>
    (frame_goodUnless.closed.usbRead _).bind fun _ => keeps_ret _

variable (data_size : BitVec 8) (address : BitVec 16) (ins : ℕ → BitVec 16)

/-- A run in which nothing has been written at the start. -/
def writtenRun (n : ℕ) : Config Cmd (BitVec 8) (BitVec 16) (Hpi Written) Point :=
  run writtenChip data_size ⟨address, fun _ => none⟩ ins n

theorem submittable_iff_ne {n : ℕ} {p : BitVec 16}
    (h : Submits (writtenRun data_size address ins n) p) :
    Submittable (writtenRun data_size address ins n).state.chip p ↔ p ≠ 0x0576#16 := by
  have hbody (q : Point) (h : Hpi Written) (i : BitVec 16) (hw : Unwritten h.chip) :
      Holds writtenChip.env GoodUnlessDescriptor (fun _ h => Unwritten h.chip) (body q)
        (writtenChip.env.acts h i) := by
    obtain ⟨l, v⟩ := q
    by_cases hl : l = .deviceInfo
    · subst hl
      exact keeps_deviceInfo v _ hw
    · refine (keeps_body hl v (writtenChip.env.acts h i) hw).mono_ok fun s c hgood q hc ha => ?_
      exact iff_of_true (hgood q hc ha).2 (hgood q hc ha).1
  have hrun := run_holds (I := fun _ (h : Hpi Written) => Unwritten h.chip)
    (l := (.main, .start data_size)) (s := ⟨address, fun _ => none⟩) hbody rfl ins n
  obtain ⟨haddr, rest, hprog⟩ := h
  exact hrun.of_emit hprog 0#16 p rfl haddr

/-- Ten steps after its label `deviceInfo` hands its block over. -/
theorem submits_deviceInfo {n : ℕ} {v : Locals}
    (h : (writtenRun data_size address ins n).prog = .ret (.deviceInfo, v)) :
    Submits (writtenRun data_size address ins (n + 10)) 0x0576#16 := by
  rw [writtenRun, run, run_add_of_ret h]
  exact ⟨rfl, _, rfl⟩

/-- Nineteen steps after its label the request for the address is handed over. -/
theorem submits_setAddress {n : ℕ} {v : Locals}
    (h : (writtenRun data_size address ins n).prog = .ret (.request .setAddress, v)) :
    Submits (writtenRun data_size address ins (n + 19)) 0x0500#16 := by
  rw [writtenRun, run, run_add_of_ret h]
  exact ⟨rfl, _, rfl⟩

/-- A list that main hands over is well formed exactly if it is not at `0x0576`, and all
of a run are exactly if the run does not come to `deviceInfo`. -/
theorem submittable_iff :
    (∀ n p, Submits (writtenRun data_size address ins n) p →
      (Submittable (writtenRun data_size address ins n).state.chip p ↔ p ≠ 0x0576#16)) ∧
    ((∀ n p, Submits (writtenRun data_size address ins n) p →
      Submittable (writtenRun data_size address ins n).state.chip p) ↔
        ∀ n v, (writtenRun data_size address ins n).prog ≠ .ret (.deviceInfo, v)) := by
  refine ⟨fun n p h => submittable_iff_ne data_size address ins h, ?_, ?_⟩
  · intro hall n v hn
    have hsubmits := submits_deviceInfo data_size address ins hn
    exact (submittable_iff_ne data_size address ins hsubmits).mp (hall _ _ hsubmits) rfl
  · intro hnever n p h
    have hbody (q : Point) (h : Hpi Written) (i : BitVec 16) (hq : q.1 ≠ .deviceInfo)
        (hw : Unwritten h.chip) : Holds writtenChip.env GoodList (fun _ h => Unwritten h.chip)
          (body q) (writtenChip.env.acts h i) :=
      keeps_body hq q.2 (writtenChip.env.acts h i) hw
    have hlabels (m : ℕ) (q : Point) (s : Hpi Written)
        (hm : writtenRun data_size address ins m = ⟨.ret q, s⟩) : q.1 ≠ .deviceInfo := by
      obtain ⟨l, v⟩ := q
      rintro rfl
      exact hnever m v (congrArg Config.prog hm)
    have hrun := run_holds_of (A := fun (q : Point) (_ : Hpi Written) => q.1 ≠ .deviceInfo)
      (I := fun _ (h : Hpi Written) => Unwritten h.chip) hbody hlabels rfl n
    obtain ⟨haddr, rest, hprog⟩ := h
    exact (hrun.of_emit hprog 0#16 p rfl haddr).2

end Run

/-- The answers of a controller whose requests succeed. -/
def succeedAnswers : ℕ → BitVec 16 :=
  answers writtenChip 0#8 ⟨0#16, fun _ => none⟩ fun _ => no_device

/-- On these answers the first list that is handed over is well formed. -/
theorem submittable_setAddress :
    Submittable (writtenRun 0#8 0#16 succeedAnswers 115).state.chip 0x0500#16 := by
  have hlabel : (writtenRun 0#8 0#16 succeedAnswers 96).prog.label? =
      some (.request .setAddress, .start 0#8) := by
    rw [writtenRun, succeedAnswers, run_answers]
    decide +kernel
  have hsubmits : Submits (writtenRun 0#8 0#16 succeedAnswers 115) 0x0500#16 :=
    submits_setAddress 0#8 0#16 succeedAnswers (eq_ret_of_label? hlabel)
  exact ((submittable_iff 0#8 0#16 succeedAnswers).1 _ _ hsubmits).mpr (by decide)

/-- On these answers a list is handed over that is not well formed. -/
theorem not_submittable_succeed :
    ¬ ∀ n p, Submits (writtenRun 0#8 0#16 succeedAnswers n) p →
      Submittable (writtenRun 0#8 0#16 succeedAnswers n).state.chip p := by
  intro hall
  have hlabel : (writtenRun 0#8 0#16 succeedAnswers 327).prog.label? =
      some (.deviceInfo, .start 0#8) := by
    rw [writtenRun, succeedAnswers, run_answers]
    decide +kernel
  have hsubmits := submits_deviceInfo 0#8 0#16 succeedAnswers (eq_ret_of_label? hlabel)
  exact (submittable_iff_ne _ _ _ hsubmits).mp (hall _ _ hsubmits) rfl

end Driver
