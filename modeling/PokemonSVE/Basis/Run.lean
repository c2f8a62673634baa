-- SUMMARY: Runs of a machine that reads one input per tick: unfolding, suffixes, scripts, invariants, countdowns, and feedback wiring.
import Mathlib.Data.Nat.Basic

/-!
# Driven machines

A driven machine is a step function `σ → ι → σ`: one state, one input, the next
state. A run reads the inputs of a stream in order. Everything here is about an
arbitrary machine; the circuits of this development are instances.
-/

namespace Driven

variable {σ ι : Type*}

/-- The state after `n` ticks from `s`, where tick `k` reads `ins k`. -/
def run (step : σ → ι → σ) (s : σ) (ins : ℕ → ι) : ℕ → σ
  | 0 => s
  | n + 1 => step (run step s ins n) (ins n)

variable {step : σ → ι → σ} {s : σ} {ins : ℕ → ι}

@[simp] theorem run_zero : run step s ins 0 = s := rfl

theorem run_succ (n : ℕ) : run step s ins (n + 1) = step (run step s ins n) (ins n) := rfl

/-- A run from the middle is a run of the shifted stream. -/
theorem run_add (m n : ℕ) :
    run step s ins (m + n) = run step (run step s ins m) (fun k => ins (m + k)) n := by
  induction n with
  | zero => rfl
  | succ n ih => rw [← Nat.add_assoc, run_succ, run_succ, ih]

/-! ## Scripts

Concrete input streams: each entry of a script is held for a number of ticks. -/

/-- The stream that plays a script, and reads `rest` when the script is over. -/
def script (rest : ι) : List (ℕ × ι) → ℕ → ι
  | [], _ => rest
  | (n, i) :: entries, k => if k < n then i else script rest entries (k - n)

/-- The state after `n` ticks on one input. -/
def held (step : σ → ι → σ) (i : ι) : ℕ → σ → σ
  | 0, s => s
  | n + 1, s => held step i n (step s i)

private theorem run_of_const {i : ι} {n : ℕ} (h : ∀ k < n, ins k = i) :
    run step s ins n = held step i n s := by
  induction n generalizing s ins with
  | zero => rfl
  | succ n ih =>
    have hfirst : run step s ins (n + 1) = run step (step s i) (fun k => ins (1 + k)) n := by
      rw [Nat.add_comm, run_add, run_succ, run_zero, h 0 (Nat.succ_pos n)]
    rw [hfirst]
    exact ih fun k hk => h (1 + k) (by omega)

/-- A run on a script plays its first entry first. -/
theorem run_script_cons (rest i : ι) (entries : List (ℕ × ι)) (n m : ℕ) :
    run step s (script rest ((n, i) :: entries)) (n + m) =
      run step (held step i n s) (script rest entries) m := by
  have hfirst : run step s (script rest ((n, i) :: entries)) n = held step i n s :=
    run_of_const fun k hk => by simp [script, hk]
  have hrest : (fun k => script rest ((n, i) :: entries) (n + k)) = script rest entries := by
    funext k
    simp [script, Nat.not_lt.mpr (Nat.le_add_right n k)]
  rw [run_add, hfirst, hrest]

/-- The ticks a script takes. -/
def length : List (ℕ × ι) → ℕ
  | [] => 0
  | (n, _) :: entries => n + length entries

/-- The state at the end of a script. -/
def play (step : σ → ι → σ) : List (ℕ × ι) → σ → σ
  | [], s => s
  | (n, i) :: entries, s => play step entries (held step i n s)

/-- A run on a script plays the script, then holds `rest`. -/
theorem run_script (rest : ι) (entries : List (ℕ × ι)) (m : ℕ) :
    run step s (script rest entries) (length entries + m) =
      held step rest m (play step entries s) := by
  induction entries generalizing s with
  | nil => rw [length, Nat.zero_add]; exact run_of_const fun _ _ => rfl
  | cons entry entries ih => rw [length, Nat.add_assoc, run_script_cons, ih, play]

/-- After its length a script reads `rest`. -/
theorem script_of_length_le (rest : ι) {entries : List (ℕ × ι)} {k : ℕ}
    (h : length entries ≤ k) : script rest entries k = rest := by
  induction entries generalizing k with
  | nil => rfl
  | cons entry entries ih =>
    simp only [length] at h
    rw [script, if_neg (by omega)]
    exact ih (by omega)

/-- What all entries of a script have, its stream has. -/
theorem script_forall {Q : ι → Prop} {rest : ι} {entries : List (ℕ × ι)} (hrest : Q rest)
    (h : ∀ entry ∈ entries, Q entry.2) (k : ℕ) : Q (script rest entries k) := by
  induction entries generalizing k with
  | nil => exact hrest
  | cons entry entries ih =>
    rw [script]
    split
    · exact h entry List.mem_cons_self
    · exact ih (fun e he => h e (List.mem_cons_of_mem entry he)) _

/-- A check of the states along `n` ticks, from the one at tick `k`. -/
def always (step : σ → ι → σ) (check : σ → Bool) (ins : ℕ → ι) : ℕ → ℕ → σ → Bool
  | 0, _, s => check s
  | n + 1, k, s => check s && always step check ins n (k + 1) (step s (ins k))

private theorem check_of_always_from {check : σ → Bool} {n k : ℕ}
    (h : always step check ins n k (run step s ins k)) :
    ∀ m ≤ n, check (run step s ins (k + m)) := by
  induction n generalizing k with
  | zero => exact fun m hm => by rwa [Nat.le_zero.mp hm]
  | succ n ih =>
    rw [always, Bool.and_eq_true] at h
    intro m hm
    cases m with
    | zero => exact h.1
    | succ m =>
      rw [Nat.add_comm m, ← Nat.add_assoc]
      exact ih h.2 m (by omega)

theorem check_of_always {check : σ → Bool} {n : ℕ} (h : always step check ins n 0 s) :
    ∀ m ≤ n, check (run step s ins m) := by
  intro m hm
  rw [← Nat.zero_add m]
  exact check_of_always_from h m hm

/-! ## Invariants -/

/-- A predicate that every step on a permitted input keeps holds along every run
on permitted inputs. -/
theorem run_invariant_of {P : σ → Prop} {Q : ι → Prop} (h0 : P s)
    (hstep : ∀ s i, P s → Q i → P (step s i)) (hins : ∀ k, Q (ins k)) (n : ℕ) :
    P (run step s ins n) := by
  induction n with
  | zero => exact h0
  | succ n ih => exact hstep _ _ ih (hins n)

/-- A predicate that every step keeps holds along every run. -/
theorem run_invariant {P : σ → Prop} (h0 : P s) (hstep : ∀ s i, P s → P (step s i)) (n : ℕ) :
    P (run step s ins n) :=
  run_invariant_of (Q := fun _ => True) h0 (fun s i h _ => hstep s i h) (fun _ => trivial) n

/-- Along a run, a predicate that every step out of `m`, `m + 1`, … keeps holds
from `m` on, for as long as the guard does. -/
theorem hold_while {P G : ℕ → Prop} {m : ℕ} (h0 : P m)
    (hstep : ∀ k, m ≤ k → G k → P k → P (k + 1)) :
    ∀ n, m ≤ n → (∀ k, m ≤ k → k < n → G k) → P n := by
  intro n hmn
  induction n, hmn using Nat.le_induction with
  | base => exact fun _ => h0
  | succ n hmn ih =>
    intro hG
    exact hstep n hmn (hG n hmn (Nat.lt_succ_self n)) (ih fun k hk hkn => hG k hk (by omega))

/-- The rule for exact conditions. Suppose that wherever the invariant `J` holds
the property `P` and the condition `Q` agree, and that `Q` carries `J` one tick
on. Then a run has `P` throughout exactly if it has `Q` throughout. -/
theorem forall_iff_of_invariant {J P Q : ℕ → Prop} (h0 : J 0)
    (hiff : ∀ n, J n → (P n ↔ Q n)) (hnext : ∀ n, J n → Q n → J (n + 1)) :
    (∀ n, P n) ↔ ∀ n, Q n := by
  constructor
  · intro hP
    have hJ : ∀ n, J n := by
      intro n
      induction n with
      | zero => exact h0
      | succ n ih => exact hnext n ih ((hiff n ih).mp (hP n))
    exact fun n => (hiff n (hJ n)).mp (hP n)
  · intro hQ
    have hJ : ∀ n, J n := by
      intro n
      induction n with
      | zero => exact h0
      | succ n ih => exact hnext n ih (hQ n)
    exact fun n => (hiff n (hJ n)).mpr (hQ n)

/-! ## Countdowns -/

/-- A measure that every tick takes down by one, as long as it is not zero,
reaches zero after exactly as many ticks as it started with. The invariant `I`
is what the step needs to know about the tick. -/
theorem countdown {b : ℕ → ℕ} {I : ℕ → Prop} {m : ℕ} (hI : I m)
    (hdown : ∀ k, m ≤ k → I k → b k ≠ 0 → b (k + 1) + 1 = b k ∧ I (k + 1)) {d : ℕ}
    (hd : d ≤ b m) : b (m + d) + d = b m ∧ I (m + d) := by
  induction d with
  | zero => exact ⟨rfl, hI⟩
  | succ d ih =>
    obtain ⟨hb, hI⟩ := ih (by omega)
    obtain ⟨hb', hI'⟩ := hdown (m + d) (by omega) hI (by omega)
    rw [Nat.add_assoc] at hb' hI'
    exact ⟨by omega, hI'⟩

/-- A measure that every tick before the goal takes down brings the goal within as many
ticks as it started with. -/
theorem exists_goal {b : ℕ → ℕ} {I G : ℕ → Prop} (h0 : I 0)
    (hdown : ∀ k, I k → ¬ G k → b (k + 1) < b k ∧ I (k + 1)) : ∃ n ≤ b 0, G n ∧ I n := by
  by_contra hnone
  have hleft (n : ℕ) (hn : n ≤ b 0 + 1) : b n + n ≤ b 0 ∧ I n := by
    induction n with
    | zero => exact ⟨le_rfl, h0⟩
    | succ n ih =>
      obtain ⟨hle, hI⟩ := ih (by omega)
      obtain ⟨hlt, hI'⟩ := hdown n hI fun hgoal => hnone ⟨n, by omega, hgoal, hI⟩
      exact ⟨by omega, hI'⟩
  have hend := (hleft (b 0 + 1) le_rfl).1
  omega

/-! ## Feedback

A net that some combinational logic drives from the state is an input that the
machine feeds back to itself. -/

/-- The machine whose inputs pass through `wire`, which may read the state. -/
def feedback (step : σ → ι → σ) (wire : σ → ι → ι) (s : σ) (i : ι) : σ :=
  step s (wire s i)

/-- A run with feedback is a run of the open machine, on the fed-back inputs. -/
theorem run_feedback (wire : σ → ι → ι) (n : ℕ) :
    run (feedback step wire) s ins n =
      run step s (fun k => wire (run (feedback step wire) s ins k) (ins k)) n := by
  induction n with
  | zero => rfl
  | succ n ih => rw [run_succ, run_succ, ← ih]; rfl

end Driven
