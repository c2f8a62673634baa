-- SUMMARY: What the inputs of a driven machine can bring about: scripts that lead from one predicate to another, with rules for one tick, a number of ticks, a measure, and paths.
import PokemonSVE.Basis.Run
import Mathlib.Logic.Relation

/-!
# Leading a machine

A predicate leads to another if whoever chooses the inputs can take the machine from
every state of the one to a state of the other.
-/

namespace Driven

variable {σ ι : Type*} {step : σ → ι → σ} {Ok : ι → Prop} {P Q R : σ → Prop}

/-- From every state of `P` a script of permitted inputs leads to a state of `Q`. -/
def Leads (step : σ → ι → σ) (Ok : ι → Prop) (P Q : σ → Prop) : Prop :=
  ∀ s, P s → ∃ entries : List (ℕ × ι), (∀ entry ∈ entries, Ok entry.2) ∧ Q (play step entries s)

theorem play_append (entries rest : List (ℕ × ι)) (s : σ) :
    play step (entries ++ rest) s = play step rest (play step entries s) := by
  induction entries generalizing s with
  | nil => rfl
  | cons entry entries ih => exact ih _

theorem leads_of_imp (h : ∀ s, P s → Q s) : Leads step Ok P Q :=
  fun s hs => ⟨[], fun _ hmem => absurd hmem List.not_mem_nil, h s hs⟩

theorem Leads.trans (h : Leads step Ok P Q) (h' : Leads step Ok Q R) : Leads step Ok P R := by
  intro s hs
  obtain ⟨entries, hok, hq⟩ := h s hs
  obtain ⟨rest, hok', hr⟩ := h' _ hq
  refine ⟨entries ++ rest, fun entry hmem => ?_, by rwa [play_append]⟩
  rcases List.mem_append.mp hmem with hmem | hmem
  · exact hok entry hmem
  · exact hok' entry hmem

/-- More inputs lead at least as far. -/
theorem Leads.mono {Ok' : ι → Prop} (h : Leads step Ok P Q) (hok : ∀ i, Ok i → Ok' i) :
    Leads step Ok' P Q := by
  intro s hs
  obtain ⟨entries, hentries, hq⟩ := h s hs
  exact ⟨entries, fun entry hmem => hok _ (hentries entry hmem), hq⟩

/-- What leads from each of two predicates leads from either. -/
theorem Leads.or (h : Leads step Ok P R) (h' : Leads step Ok Q R) :
    Leads step Ok (fun s => P s ∨ Q s) R := by
  rintro s (hs | hs)
  · exact h s hs
  · exact h' s hs

/-- One tick. -/
theorem leads_of_tick (h : ∀ s, P s → ∃ i, Ok i ∧ Q (step s i)) : Leads step Ok P Q := by
  intro s hs
  obtain ⟨i, hi, hq⟩ := h s hs
  exact ⟨[(1, i)], by simpa using hi, hq⟩

/-- As many ticks as there are stages. -/
theorem leads_of_stages {S : ℕ → σ → Prop} {n : ℕ}
    (h : ∀ k < n, ∀ s, S k s → ∃ i, Ok i ∧ S (k + 1) (step s i)) : Leads step Ok (S 0) (S n) := by
  induction n with
  | zero => exact leads_of_imp fun _ hs => hs
  | succ n ih => exact (ih fun k hk => h k (by omega)).trans (leads_of_tick (h n (by omega)))

/-- Ticks that take a measure down until the goal holds. -/
theorem leads_of_measure (b : σ → ℕ)
    (h : ∀ s, P s → Q s ∨ ∃ i, Ok i ∧ P (step s i) ∧ b (step s i) < b s) :
    Leads step Ok P Q := by
  intro s hs
  induction hb : b s using Nat.strong_induction_on generalizing s with
  | h n ih =>
    rcases h s hs with hq | ⟨i, hi, hp, hlt⟩
    · exact ⟨[], fun _ hmem => absurd hmem List.not_mem_nil, hq⟩
    · obtain ⟨entries, hok, hq⟩ := ih _ (hb ▸ hlt) _ hp rfl
      exact ⟨(1, i) :: entries, List.forall_mem_cons.mpr ⟨hi, hok⟩, hq⟩

/-- Along a path whose edges can be followed. -/
theorem leads_of_path {α : Type*} {E : α → α → Prop} {S : α → σ → Prop}
    (h : ∀ a b, E a b → Leads step Ok (S a) (S b)) {a b : α}
    (hpath : Relation.ReflTransGen E a b) : Leads step Ok (S a) (S b) := by
  induction hpath with
  | refl => exact leads_of_imp fun _ hs => hs
  | tail _ hedge ih => exact ih.trans (h _ _ hedge)

end Driven
