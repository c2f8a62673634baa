-- SUMMARY: The combinational module `gymBoundsChecker`: wall and statue stop lines per direction.
import Mathlib.Data.Nat.Basic
import Mathlib.Algebra.Group.Nat.Defs

/-!
# gymBoundsChecker

The literals of `gymBoundsChecker.sv` are unsized, so every comparison is made
at 32 bits on the zero-extended coordinates.
-/

namespace GymBoundsChecker

/-- A ten-bit coordinate in a 32-bit context. -/
def ext (v : BitVec 10) : BitVec 32 := v.setWidth 32

/-- `atBounds` for a character at `(charxcurrpos, charycurrpos)`: the first test
of each arm is for walls, the second for statues. -/
def atBounds (direction : BitVec 2) (charxcurrpos charycurrpos : BitVec 10) : Bool :=
  let x := ext charxcurrpos
  let y := ext charycurrpos
  if direction = 0#2 then
    (y = 107#32 ∨ y = 235#32 ∨ y = 363#32) ∨
    ((x + 15#32 = 207#32 ∨ x + 15#32 = 271#32) ∧ y + 20#32 = 303#32)
  else if direction = 1#2 then
    (y = 282#32 ∨ y = 154#32 ∨ y = 26#32) ∨
    ((x + 15#32 = 207#32 ∨ x + 15#32 = 271#32) ∧ y + 20#32 = 351#32)
  else if direction = 2#2 then
    (x = 160#32 ∨ x = 320#32 ∨ x = 480#32) ∨
    ((x = 208#32 ∨ x = 272#32) ∧ y + 20#32 < 336#32 ∧ y + 20#32 > 303#32)
  else
    (x = 128#32 ∨ x = 288#32 ∨ x = 448#32) ∨
    ((x + 15#32 = 191#32 ∨ x + 15#32 = 255#32) ∧ y + 20#32 < 336#32 ∧ y + 20#32 > 303#32)

/-! ## The stop lines

Ten-bit coordinates do not wrap at 32 bits, so each direction tests for lines in
the plane of natural numbers. -/

private theorem ext_eq_iff {v : BitVec 10} {k : ℕ} (hk : k < 2 ^ 32) :
    ext v = BitVec.ofNat 32 k ↔ v.toNat = k := by
  rw [← BitVec.toNat_inj, ext, BitVec.toNat_setWidth_of_le (by omega), BitVec.toNat_ofNat,
    Nat.mod_eq_of_lt hk]

private theorem ext_add_toNat {v : BitVec 10} {a : ℕ} (ha : a < 1024) :
    (ext v + BitVec.ofNat 32 a).toNat = v.toNat + a := by
  have := v.isLt
  rw [BitVec.toNat_add, ext, BitVec.toNat_setWidth_of_le (by omega), BitVec.toNat_ofNat]
  omega

private theorem ext_add_eq_iff {v : BitVec 10} {a k : ℕ} (ha : a < 1024) (hk : k < 2 ^ 32) :
    ext v + BitVec.ofNat 32 a = BitVec.ofNat 32 k ↔ v.toNat + a = k := by
  rw [← BitVec.toNat_inj, ext_add_toNat ha, BitVec.toNat_ofNat, Nat.mod_eq_of_lt hk]

private theorem ext_add_lt_iff {v : BitVec 10} {a k : ℕ} (ha : a < 1024) (hk : k < 2 ^ 32) :
    ext v + BitVec.ofNat 32 a < BitVec.ofNat 32 k ↔ v.toNat + a < k := by
  rw [BitVec.lt_def, ext_add_toNat ha, BitVec.toNat_ofNat, Nat.mod_eq_of_lt hk]

private theorem lt_ext_add_iff {v : BitVec 10} {a k : ℕ} (ha : a < 1024) (hk : k < 2 ^ 32) :
    BitVec.ofNat 32 k < ext v + BitVec.ofNat 32 a ↔ k < v.toNat + a := by
  rw [BitVec.lt_def, ext_add_toNat ha, BitVec.toNat_ofNat, Nat.mod_eq_of_lt hk]

variable (x y : BitVec 10)

theorem atBounds_down : atBounds 0#2 x y = true ↔
    (y.toNat = 107 ∨ y.toNat = 235 ∨ y.toNat = 363) ∨
      (x.toNat = 192 ∨ x.toNat = 256) ∧ y.toNat = 283 := by
  simp [atBounds, ext_eq_iff, ext_add_eq_iff]

theorem atBounds_up : atBounds 1#2 x y = true ↔
    (y.toNat = 282 ∨ y.toNat = 154 ∨ y.toNat = 26) ∨
      (x.toNat = 192 ∨ x.toNat = 256) ∧ y.toNat = 331 := by
  simp [atBounds, ext_eq_iff, ext_add_eq_iff]

/-- The walls to the left are the left sides of the second and the third column of
rooms, and a line to the right of the third one. -/
theorem atBounds_left : atBounds 2#2 x y = true ↔
    (x.toNat = 160 ∨ x.toNat = 320 ∨ x.toNat = 480) ∨
      (x.toNat = 208 ∨ x.toNat = 272) ∧ 283 < y.toNat ∧ y.toNat < 316 := by
  simp [atBounds, ext_eq_iff, ext_add_lt_iff, lt_ext_add_iff]
  omega

theorem atBounds_right : atBounds 3#2 x y = true ↔
    (x.toNat = 128 ∨ x.toNat = 288 ∨ x.toNat = 448) ∨
      (x.toNat = 176 ∨ x.toNat = 240) ∧ 283 < y.toNat ∧ y.toNat < 316 := by
  simp [atBounds, ext_eq_iff, ext_add_eq_iff, ext_add_lt_iff, lt_ext_add_iff]
  omega

end GymBoundsChecker
