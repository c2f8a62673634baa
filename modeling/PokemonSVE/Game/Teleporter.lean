-- SUMMARY: What a teleporter is for, over any set of places: board, jump, land, rest, leave.
import Mathlib.Data.Nat.Basic

/-!
# Teleporters

The abstract model of a visit to a teleporter, over an arbitrary type of places
and an arbitrary map `jump`. A passenger who boards at `t` lands at `jump t`,
rests there, and has to leave before boarding again.
-/

namespace Teleporter

variable {T : Type*}

inductive Visit (T : Type*) where
  | walking
  | boarding (t : T)
  | landed (t : T)
  | resting
  deriving DecidableEq, Repr

/-- One tick of a visit. -/
inductive Step (jump : T → T) : Visit T → Visit T → Prop where
  | walk : Step jump .walking .walking
  | board (t : T) : Step jump .walking (.boarding t)
  | spin (t : T) : Step jump (.boarding t) (.boarding t)
  | jump (t : T) : Step jump (.boarding t) (.landed (jump t))
  | settle (t : T) : Step jump (.landed t) (.landed t)
  | rest (t : T) : Step jump (.landed t) .resting
  | stay : Step jump .resting .resting
  | leave : Step jump .resting .walking

variable {jump : T → T} {v : ℕ → Visit T} {m : ℕ} {t : T}

theorem Step.of_boarding {w : Visit T} (h : Step jump (.boarding t) w) :
    w = .boarding t ∨ w = .landed (jump t) := by
  cases h with
  | spin => exact .inl rfl
  | jump => exact .inr rfl

theorem Step.of_landed {w : Visit T} (h : Step jump (.landed t) w) :
    w = .landed t ∨ w = .resting := by
  cases h with
  | settle => exact .inl rfl
  | rest => exact .inr rfl

/-- A passenger who has landed at `t` stays landed at `t` until resting. -/
theorem landed_until_resting (hm : v m = .landed t)
    (hstep : ∀ k, m ≤ k → Step jump (v k) (v (k + 1))) {n : ℕ} (hmn : m ≤ n)
    (hrest : ∀ k, m ≤ k → k ≤ n → v k ≠ .resting) : v n = .landed t := by
  induction n, hmn using Nat.le_induction with
  | base => exact hm
  | succ n hmn ih =>
    have hn := ih fun k hk hkn => hrest k hk (by omega)
    have hs := hstep n hmn
    rw [hn] at hs
    generalize hv : v (n + 1) = w at hs
    cases hs with
    | settle => rfl
    | rest => exact absurd hv (hrest (n + 1) (by omega) le_rfl)

/-- A passenger who boards at `t` stays boarding at `t` until landing. -/
theorem boarding_until_landed (hm : v m = .boarding t)
    (hstep : ∀ k, m ≤ k → Step jump (v k) (v (k + 1))) {n : ℕ} (hmn : m ≤ n)
    (hland : ∀ k, m ≤ k → k ≤ n → ∀ u, v k ≠ .landed u) : v n = .boarding t := by
  induction n, hmn using Nat.le_induction with
  | base => exact hm
  | succ n hmn ih =>
    have hn := ih fun k hk hkn => hland k hk (by omega)
    have hs := hstep n hmn
    rw [hn] at hs
    generalize hv : v (n + 1) = w at hs
    cases hs with
    | spin => rfl
    | jump => exact absurd hv (hland (n + 1) (by omega) le_rfl _)

/-- The only place to land after boarding at `t` is `jump t`. -/
theorem landed_after_boarding {n : ℕ} {u : T} (hn : v n = .boarding t)
    (hstep : Step jump (v n) (v (n + 1))) (hu : v (n + 1) = .landed u) : u = jump t := by
  rw [hn, hu] at hstep
  cases hstep
  rfl

end Teleporter
