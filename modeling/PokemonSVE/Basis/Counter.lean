-- SUMMARY: Wrapping binary counters: how many increments lie between a count and a target.
import Mathlib.Data.Nat.Basic
import Mathlib.Algebra.Group.Nat.Defs

/-!
# Wrapping counters

A `w`-bit counter that is incremented once per tick reaches a target after a
number of ticks that depends on the width, the count, and the target only. The
distance of this file is that number.
-/

namespace Counter

variable {w : ℕ}

/-- The increments from `c` until the counter shows `target`. -/
def distance (c target : BitVec w) : ℕ := (target - c).toNat

theorem distance_lt (c target : BitVec w) : distance c target < 2 ^ w :=
  (target - c).isLt

theorem distance_eq_zero {c target : BitVec w} : distance c target = 0 ↔ c = target := by
  constructor
  · intro h
    have hsub : target - c = 0#w := BitVec.eq_of_toNat_eq (by simpa [distance] using h)
    have hadd := BitVec.sub_add_cancel target c
    rw [hsub, BitVec.zero_add] at hadd
    exact hadd
  · rintro rfl
    simp [distance]

/-- An increment away from the target comes one closer, also across the wrap. -/
theorem distance_succ {c target : BitVec w} (h : c ≠ target) :
    distance (c + 1#w) target + 1 = distance c target := by
  have hpos : distance c target ≠ 0 := fun h0 => h (distance_eq_zero.mp h0)
  have hlt := distance_lt c target
  have hone : (1#w).toNat = 1 % 2 ^ w := by simp
  have hsub : target - (c + 1#w) = (target - c) - 1#w := by
    grind
  unfold distance at *
  rw [hsub, BitVec.toNat_sub, hone]
  have hw : 1 < 2 ^ w := by omega
  rw [Nat.mod_eq_of_lt hw]
  have hsum : 2 ^ w - 1 + (target - c).toNat = 2 ^ w + ((target - c).toNat - 1) := by omega
  rw [hsum, Nat.add_mod_left, Nat.mod_eq_of_lt (by omega)]
  omega

end Counter
