-- SUMMARY: Memories with one write port over a run: what every write keeps, words that are not written, and the first write to a word.
import Mathlib.Data.Nat.Find
import Mathlib.Logic.Function.Basic
import PokemonSVE.Basis.Run

/-!
# Memories

A memory maps addresses to words. On each tick its write port takes at most one
request, an address and a word. Everything here is about arbitrary addresses and
words, one address at a time.
-/

namespace Memory

variable {A W : Type*} [DecidableEq A]

/-- The memory after a tick. -/
def write (mem : A → W) : Option (A × W) → A → W
  | none => mem
  | some (a, w) => Function.update mem a w

@[simp] theorem write_some_self (mem : A → W) (a : A) (w : W) :
    write mem (some (a, w)) a = w := by
  simp [write]

/-- A tick leaves the other words alone. -/
theorem write_of_ne {mem : A → W} {req : Option (A × W)} {a : A}
    (h : ∀ w, req ≠ some (a, w)) : write mem req a = mem a := by
  cases req with
  | none => rfl
  | some r =>
    have hne : a ≠ r.1 := fun ha => h r.2 (by rw [ha])
    exact Function.update_of_ne hne r.2 mem

section Contents

variable {mem : A → W} {reqs : ℕ → Option (A × W)}

/-- The memory after `n` ticks. -/
def contents (mem : A → W) (reqs : ℕ → Option (A × W)) (n : ℕ) : A → W :=
  Driven.run write mem reqs n

theorem contents_succ (n : ℕ) :
    contents mem reqs (n + 1) = write (contents mem reqs n) (reqs n) := rfl

variable {m n : ℕ} {a : A}

/-- What a word has and every write to it carries, it keeps. -/
theorem contents_invariant {P : W → Prop} (hmn : m ≤ n) (h0 : P (contents mem reqs m a))
    (hw : ∀ k, m ≤ k → k < n → ∀ w, reqs k = some (a, w) → P w) : P (contents mem reqs n a) := by
  refine Driven.hold_while (P := fun k => P (contents mem reqs k a))
    (G := fun k => ∀ w, reqs k = some (a, w) → P w) h0 ?_ n hmn hw
  intro k _ hk hP
  rw [contents_succ]
  by_cases hreq : ∃ w, reqs k = some (a, w)
  · obtain ⟨w, hreq⟩ := hreq
    rw [hreq, write_some_self]
    exact hk w hreq
  · rw [write_of_ne fun w hw => hreq ⟨w, hw⟩]
    exact hP

/-- A word that is not written stays. -/
theorem contents_of_not_written (hmn : m ≤ n)
    (h : ∀ k, m ≤ k → k < n → ∀ w, reqs k ≠ some (a, w)) :
    contents mem reqs n a = contents mem reqs m a :=
  contents_invariant (P := (· = contents mem reqs m a)) hmn rfl
    fun k hm hn w hw => absurd hw (h k hm hn w)

/-- If all writes carry the same word, one of them is enough. -/
theorem contents_of_written {k : ℕ} {w : W} (hm : m ≤ k) (hn : k < n)
    (hk : reqs k = some (a, w))
    (hw : ∀ k, m ≤ k → k < n → ∀ v, reqs k = some (a, v) → v = w) :
    contents mem reqs n a = w := by
  refine contents_invariant (P := (· = w)) (m := k + 1) hn ?_
    fun j hkj hjn v hv => hw j (by omega) hjn v hv
  rw [contents_succ, hk, write_some_self]

/-- A word holds what the last write to it has brought. -/
theorem contents_of_last_write {k : ℕ} {w : W} (hn : k < n) (hk : reqs k = some (a, w))
    (hlast : ∀ j, k < j → j < n → ∀ v, reqs j ≠ some (a, v)) : contents mem reqs n a = w := by
  rw [contents_of_not_written hn hlast, contents_succ, hk, write_some_self]

/-- The first write to a word finds what was there before. -/
theorem exists_first_write (mem : A → W) {k : ℕ} {w : W} (hm : m ≤ k)
    (hk : reqs k = some (a, w)) :
    ∃ j v, m ≤ j ∧ j ≤ k ∧ reqs j = some (a, v) ∧
      contents mem reqs j a = contents mem reqs m a := by
  classical
  have hex : ∃ j, m ≤ j ∧ ∃ v, reqs j = some (a, v) := ⟨k, hm, w, hk⟩
  obtain ⟨hmj, v, hj⟩ := Nat.find_spec hex
  refine ⟨Nat.find hex, v, hmj, Nat.find_min' hex ⟨hm, w, hk⟩, hj, ?_⟩
  exact contents_of_not_written hmj fun i hmi hij u hu => Nat.find_min hex hij ⟨hmi, u, hu⟩

end Contents

end Memory
