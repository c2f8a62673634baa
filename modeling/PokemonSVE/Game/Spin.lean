-- SUMMARY: The spin counter: how long each stage of a visit lasts, which facings it shows, and what it leaves behind for the next visit.
import PokemonSVE.Game.Visit
import PokemonSVE.Basis.Counter
import Mathlib.Tactic.IntervalCases

/-!
# Spinning

`prespin` and `postspin` share one six-bit counter. Both leave at the same
count, 7, but only `prespin` clears the counter there: `postspin` leaves it at 8,
and the next `prespin` has to count through the wrap.
-/

namespace GymTileLogic

/-- The frames until `hold`, for a character that stays on a tile. -/
def Regs.busy (r : Regs) : ℕ :=
  match r.state with
  | .notTile => Counter.distance r.spinCounter 7#6 + 12
  | .prespin => Counter.distance r.spinCounter 7#6 + 11
  | .teleport => 10
  | .postspin => Counter.distance r.spinCounter 7#6 + 2
  | .latch => 1
  | .hold => 0

/-- What the counter can be in the states that do not wait for the wrap. -/
structure Regs.SpinReady (r : Regs) : Prop where
  teleport : r.state = .teleport → r.spinCounter = 0#6
  postspin : r.state = .postspin → r.spinCounter ≤ 7#6
  latch : r.state = .latch → r.spinCounter = 8#6

variable {r : Regs} (xright ybottom : BitVec 10)

theorem busy_eq_zero : r.busy = 0 ↔ r.state = .hold := by
  cases h : r.state <;> simp [Regs.busy, h]

theorem busy_le_of_prespin (h : r.state = .prespin) : r.busy ≤ 74 := by
  have := Counter.distance_lt r.spinCounter 7#6
  simp only [Regs.busy, h]
  omega

private theorem spinNext_of_le {c : BitVec 6} (h : c ≤ 7#6) : spinNext 19#5 c = c + 1#6 := by
  revert c
  decide

private theorem distance_le_of_le {c : BitVec 6} (h : c ≤ 7#6) :
    Counter.distance c 7#6 ≤ 7 := by
  revert c
  decide

private theorem succ_le_of_le_of_ne {c : BitVec 6} (h : c ≤ 7#6) (hne : c ≠ 7#6) :
    c + 1#6 ≤ 7#6 := by
  revert c
  decide

/-- Where the count of a visit stands tells the stages apart. -/
theorem busy_stage (hr : r.SpinReady) :
    (r.state = .notTile ∧ 12 ≤ r.busy) ∨ (r.state = .prespin ∧ 11 ≤ r.busy) ∨
      (r.state = .teleport ∧ r.busy = 10) ∨ (r.state = .postspin ∧ 2 ≤ r.busy ∧ r.busy ≤ 9) ∨
      (r.state = .latch ∧ r.busy = 1) ∨ (r.state = .hold ∧ r.busy = 0) := by
  cases h : r.state with
  | postspin =>
    have := distance_le_of_le (hr.postspin h)
    simp only [Regs.busy, h]
    refine .inr (.inr (.inr (.inl ⟨trivial, ?_, ?_⟩))) <;> omega
  | _ => simp [Regs.busy, h]

/-- The last nine frames before `hold` are those of `postspin` and `latch`. -/
theorem landed_of_busy (hr : r.SpinReady) (hpos : r.busy ≠ 0) (hle : r.busy ≤ 9) :
    r.state = .postspin ∨ r.state = .latch := by
  rcases busy_stage hr with h | h | h | h | h | h
  · omega
  · omega
  · omega
  · exact .inl h.1
  · exact .inr h.1
  · omega

/-- The first of them is one of `postspin`. -/
theorem postspin_of_busy (hr : r.SpinReady) (h : r.busy = 9) : r.state = .postspin := by
  refine (landed_of_busy hr (by omega) (by omega)).resolve_right fun hlatch => ?_
  simp only [Regs.busy, hlatch] at h
  omega

theorem busy_le_of_landed (hr : r.SpinReady) (h : r.state = .postspin ∨ r.state = .latch) :
    r.busy ≤ 9 := by
  rcases busy_stage hr with hs | hs | hs | hs | hs | hs <;> rcases h with h | h <;> simp_all

theorem Regs.SpinReady.onReset : Regs.onReset.SpinReady where
  teleport h := by simp [Regs.onReset] at h
  postspin h := by simp [Regs.onReset] at h
  latch h := by simp [Regs.onReset] at h

theorem Regs.SpinReady.posedge (hr : r.SpinReady) (reset : Bool) :
    (r.posedge false reset xright ybottom).SpinReady := by
  cases reset with
  | true => exact .onReset
  | false =>
    cases h : r.state with
    | notTile =>
      rw [posedge_notTile _ _ h]
      split_ifs <;> exact ⟨nofun, nofun, nofun⟩
    | prespin =>
      rw [posedge_prespin _ _ h]
      split_ifs
      · exact ⟨fun _ => rfl, nofun, nofun⟩
      · exact ⟨nofun, nofun, nofun⟩
    | teleport =>
      rw [posedge_teleport _ _ h, hr.teleport h]
      exact ⟨nofun, fun _ => (by decide : 0#6 ≤ 7#6), nofun⟩
    | postspin =>
      have hle := hr.postspin h
      rw [posedge_postspin _ _ h, spinNext_of_le hle]
      split_ifs with h7
      · exact ⟨nofun, nofun, fun _ => by simp [h7]⟩
      · exact ⟨nofun, fun _ => succ_le_of_le_of_ne hle h7, nofun⟩
    | latch =>
      rw [posedge_latch _ _ h]
      exact ⟨nofun, nofun, nofun⟩
    | hold =>
      rw [posedge_hold _ _ h]
      split_ifs <;> exact ⟨nofun, nofun, nofun⟩

/-- A frame on a tile brings `hold` one frame closer. -/
theorem busy_posedge (hr : r.SpinReady)
    (hon : r.state = .notTile → isOnTile (xright ++ ybottom) = true) (hbusy : r.busy ≠ 0) :
    (r.posedge false false xright ybottom).busy + 1 = r.busy ∧
      (r.posedge false false xright ybottom).state ≠ .notTile := by
  cases h : r.state with
  | notTile =>
    rw [posedge_notTile _ _ h, if_pos (hon h)]
    simp [Regs.busy, h]
  | prespin =>
    rw [posedge_prespin _ _ h]
    split_ifs with h7
    · simp [Regs.busy, h, h7, Counter.distance]
    · have := Counter.distance_succ h7
      refine ⟨?_, by simp⟩
      simp only [Regs.busy, h]
      omega
  | teleport =>
    rw [posedge_teleport _ _ h, hr.teleport h]
    simp [Regs.busy, h, Counter.distance]
  | postspin =>
    rw [posedge_postspin _ _ h, spinNext_of_le (hr.postspin h)]
    split_ifs with h7
    · simp [Regs.busy, h, h7, Counter.distance]
    · have := Counter.distance_succ h7
      refine ⟨?_, by simp⟩
      simp only [Regs.busy, h]
      omega
  | latch =>
    rw [posedge_latch _ _ h]
    simp [Regs.busy, h]
  | hold => exact absurd (busy_eq_zero.mpr h) hbusy

end GymTileLogic

namespace Game

theorem spinReady_run (drawer : FrameDrawer.Regs) (ins : ℕ → FrameIn) (n : ℕ) :
    (run drawer ins n).tile.SpinReady :=
  Driven.run_invariant (P := fun s : System => s.tile.SpinReady)
    GymTileLogic.Regs.SpinReady.onReset (fun _ i h => h.posedge _ _ i.reset) n

/-! ## What a spin shows

The law that the animation of the module is meant to obey, and the runs of
which it is true. -/

/-- The facing that the tile logic shows in a state. -/
def System.spinDirection (s : System) : BitVec 2 := s.tileComb.spinDirection

/-- The facings of `prespin` stop at left: `5'd40` is 8, below every count that
the test before it lets through. -/
theorem prespin_facing_ne_right {s : System} (h : s.tile.state = .prespin) :
    s.spinDirection ≠ 3#2 := by
  have hfacing : ∀ c, GymTileLogic.spinFacing 10#5 20#5 30#5 40#5 c ≠ 3#2 := by decide
  simpa [System.spinDirection, System.tileComb, GymTileLogic.comb, h] using hfacing _

section History

variable (drawer : FrameDrawer.Regs) (ins : ℕ → FrameIn)

/-- A visit to `st` from frame `m` on that lasts `len` frames and ends by moving
on to `next`. -/
structure CompleteVisit (st next : GymTileLogic.State) (m len : ℕ) : Prop where
  enter : ∃ k, m = k + 1 ∧ (run drawer ins k).tile.state ≠ st
  during : ∀ k < len, (run drawer ins (m + k)).tile.state = st
  pos : 0 < len
  leave : (run drawer ins (m + len)).tile.state = next

/-- The facings 0, 1, 2, 3 in that order, each on one frame at least. -/
def ShowsFacings (m len : ℕ) : Prop :=
  (∀ j k, j ≤ k → k < len →
    (run drawer ins (m + j)).spinDirection ≤ (run drawer ins (m + k)).spinDirection) ∧
  ∀ d : BitVec 2, ∃ k < len, (run drawer ins (m + k)).spinDirection = d

/-- The animation does not depend on history: every visit to `prespin` lasts the
same and shows every facing, every visit to `postspin` lasts the same and leaves
the counter at 0. -/
structure SpinsAlike : Prop where
  prespin_len : ∀ m len m' len', CompleteVisit drawer ins .prespin .teleport m len →
    CompleteVisit drawer ins .prespin .teleport m' len' → len = len'
  prespin_facings : ∀ m len, CompleteVisit drawer ins .prespin .teleport m len →
    ShowsFacings drawer ins m len
  postspin_len : ∀ m len m' len', CompleteVisit drawer ins .postspin .latch m len →
    CompleteVisit drawer ins .postspin .latch m' len' → len = len'
  postspin_counter : ∀ m len, CompleteVisit drawer ins .postspin .latch m len →
    (run drawer ins (m + len)).tile.spinCounter = 0#6

/-- The frame before was a `Reset`. -/
def System.AfterReset (s : System) : Prop := s.fsm = .onReset ∧ s.tile = .onReset

variable {drawer ins}

theorem afterReset_frame (s : System) {i : FrameIn} (h : i.reset = true) :
    (s.frame i).AfterReset := by
  simp [System.AfterReset, System.frame_fsm, System.frame_tile, h]

/-- The first spin after a `Reset` starts on the next frame, since the start
screen puts the character on the first tile, and takes eight frames. -/
theorem spin_after_reset {n : ℕ} (h0 : (run drawer ins n).AfterReset) {q : ℕ} (hq : q ≤ 8)
    (hquiet : ∀ k ≤ q, (ins (n + k)).reset = false) :
    (run drawer ins (n + 1 + q)).tile.state = (if q < 8 then .prespin else .teleport) ∧
      (q < 8 → (run drawer ins (n + 1 + q)).tile.spinCounter = BitVec.ofNat 6 q) := by
  induction q with
  | zero =>
    have hhome : ((run drawer ins n).negedge (ins n)).OnTile Tile.home :=
      (System.negedge_pos_start _ _ (by rw [h0.1]; rfl)).1.trans Tile.home_pos.symm
    have hon : GymTileLogic.isOnTile (((run drawer ins n).negedge (ins n)).xright ++
        ((run drawer ins n).negedge (ins n)).ybottom) = true :=
      (System.isOnTile_iff _).mpr ⟨_, hhome⟩
    have hr : (ins n).reset = false := hquiet 0 le_rfl
    rw [Nat.add_zero, run_succ, System.frame_tile, hr, h0.2,
      GymTileLogic.posedge_notTile _ _ rfl, if_pos hon]
    exact ⟨rfl, fun _ => rfl⟩
  | succ q ih =>
    obtain ⟨hstate, hcount⟩ := ih (by omega) fun k hk => hquiet k (by omega)
    have hlt : q < 8 := by omega
    rw [if_pos hlt] at hstate
    have hr : (ins (n + 1 + q)).reset = false := by
      rw [Nat.add_assoc, Nat.add_comm 1 q]
      exact hquiet (q + 1) le_rfl
    rw [← Nat.add_assoc, run_succ, System.frame_tile, hr,
      GymTileLogic.posedge_prespin _ _ hstate, hcount hlt]
    interval_cases q <;> simp

/-- Every frame has a last `Reset` before it. -/
theorem exists_last_reset (drawer : FrameDrawer.Regs) (ins : ℕ → FrameIn) (n : ℕ) :
    ∃ r ≤ n, (run drawer ins r).AfterReset ∧ ∀ k, r ≤ k → k < n → (ins k).reset = false := by
  induction n with
  | zero => exact ⟨0, le_rfl, ⟨rfl, rfl⟩, by omega⟩
  | succ n ih =>
    cases hr : (ins n).reset with
    | true => exact ⟨n + 1, le_rfl, afterReset_frame _ hr, by omega⟩
    | false =>
      obtain ⟨r, hrn, hreset, hquiet⟩ := ih
      refine ⟨r, by omega, hreset, fun k hk hkn => ?_⟩
      rcases Nat.lt_succ_iff_lt_or_eq.mp hkn with hlt | rfl
      · exact hquiet k hk hlt
      · exact hr

/-- Nine frames in a row without `Reset` contain a spin, and it does not show the
fourth facing. -/
theorem not_spinsAlike_of_quiet {n : ℕ} (hquiet : ∀ k < 9, (ins (n + k)).reset = false) :
    ¬ SpinsAlike drawer ins := by
  intro halike
  -- Go back to the `Reset` that the quiet frames follow.
  obtain ⟨r, hrn, hreset, hsince⟩ := exists_last_reset drawer ins n
  have hall : ∀ k ≤ 8, (ins (r + k)).reset = false := by
    intro k hk
    by_cases hlt : r + k < n
    · exact hsince (r + k) (by omega) hlt
    · have := hquiet (r + k - n) (by omega)
      rwa [Nat.add_sub_cancel' (by omega)] at this
  have hspin : ∀ q ≤ 8, _ := fun q hq =>
    spin_after_reset hreset hq fun k hk => hall k (by omega)
  have hvisit : CompleteVisit drawer ins .prespin .teleport (r + 1) 8 :=
    { enter := ⟨r, rfl, by rw [hreset.2]; decide⟩
      during := fun k hk => by simpa [hk] using (hspin k (by omega)).1
      pos := by omega
      leave := by simpa using (hspin 8 le_rfl).1 }
  obtain ⟨k, hk, hright⟩ := (halike.prespin_facings _ _ hvisit).2 3#2
  exact prespin_facing_ne_right (hvisit.during k hk) hright

/-- With a `Reset` in every nine frames no spin is ever completed. -/
theorem not_past_prespin (drawer : FrameDrawer.Regs)
    (hreset : ¬ ∃ n, ∀ k < 9, (ins (n + k)).reset = false) (n : ℕ) :
    (run drawer ins n).tile.state = .notTile ∨ (run drawer ins n).tile.state = .prespin := by
  obtain ⟨r, hrn, hafter, hquiet⟩ := exists_last_reset drawer ins n
  rcases Nat.lt_or_eq_of_le hrn with hlt | rfl
  · obtain ⟨q, rfl⟩ : ∃ q, n = r + 1 + q := ⟨n - (r + 1), by omega⟩
    have hq : q < 8 := by
      by_contra hge
      exact hreset ⟨r, fun k hk => hquiet (r + k) (by omega) (by omega)⟩
    have hspin := (spin_after_reset hafter (q := q) (by omega)
      fun k hk => hquiet (r + k) (by omega) (by omega)).1
    exact .inr (by rwa [if_pos hq] at hspin)
  · exact .inl (by rw [hafter.2]; rfl)

/-- The spin animation is free of history exactly in the runs in which no nine
frames in a row go by without a `Reset`: in those no spin is ever completed, and
any completed one breaks the law. -/
theorem spinsAlike_iff (drawer : FrameDrawer.Regs) (ins : ℕ → FrameIn) :
    SpinsAlike drawer ins ↔ ¬ ∃ n, ∀ k < 9, (ins (n + k)).reset = false := by
  constructor
  · rintro halike ⟨n, hquiet⟩
    exact not_spinsAlike_of_quiet hquiet halike
  · intro hreset
    have hpre : ∀ m len, ¬ CompleteVisit drawer ins .prespin .teleport m len := by
      intro m len hvisit
      have := not_past_prespin drawer hreset (m + len)
      simp [hvisit.leave] at this
    have hpost : ∀ m len, ¬ CompleteVisit drawer ins .postspin .latch m len := by
      intro m len hvisit
      have := not_past_prespin drawer hreset (m + len)
      simp [hvisit.leave] at this
    exact
      { prespin_len := fun m len _ _ h _ => absurd h (hpre m len)
        prespin_facings := fun m len h => absurd h (hpre m len)
        postspin_len := fun m len _ _ h _ => absurd h (hpost m len)
        postspin_counter := fun m len h => absurd h (hpost m len) }

/-- The run in which nothing is ever pressed breaks the law on its first spin. -/
theorem not_spinsAlike_noKey : ¬ SpinsAlike powerUp fun _ => .noKey :=
  not_spinsAlike_of_quiet (n := 0) fun _ _ => rfl

end History

end Game
