-- SUMMARY: Liveness: what recurs under strong fairness, a ranking rule for places that a run passes through, and the replies that a program hears.
import PokemonSVE.Basis.Monitor

/-!
# Progress

A run stands at a place now and then. From one place to the next it comes closer to a
target, or it waits: it stays as far away, has asked on the channel for which it waits,
and has had no good reply. If a channel on which it asks again and again gives a good
reply again and again, the target is reached.
-/

namespace Progress

/-! ## Fairness -/

/-- It happens again and again. -/
def Recurs (P : ℕ → Prop) : Prop := ∀ n, ∃ k ≥ n, P k

/-- Nothing goes on for ever in stretches that ask and have no good reply. -/
theorem not_of_stretches {P asked good : ℕ → Prop} (hfair : Recurs asked → Recurs good)
    (hnext : ∀ m, P m → ∃ m' > m, P m' ∧ (∃ k, m ≤ k ∧ k < m' ∧ asked k) ∧
      ∀ k, m ≤ k → k < m' → ¬ good k) (m : ℕ) : ¬ P m := by
  intro hm
  have hlater (n : ℕ) : ∃ m' ≥ n, P m' := by
    induction n with
    | zero => exact ⟨m, Nat.zero_le m, hm⟩
    | succ n ih =>
      obtain ⟨m', hge, hP⟩ := ih
      obtain ⟨m'', hgt, hP', -⟩ := hnext m' hP
      exact ⟨m'', by omega, hP'⟩
  have hasked : Recurs asked := by
    intro n
    obtain ⟨m', hge, hP⟩ := hlater n
    obtain ⟨m'', -, -, ⟨k, hk, -, hask⟩, -⟩ := hnext m' hP
    exact ⟨k, by omega, hask⟩
  obtain ⟨k, hk, hgood⟩ := hfair hasked m
  -- The stretch in which the good reply would be.
  have hbefore (d : ℕ) : ∀ m', P m' → m' ≤ k → k ≤ m' + d → False := by
    induction d using Nat.strong_induction_on with
    | _ d ih =>
      intro m' hP hle hd
      obtain ⟨m'', hgt, hP', -, hnone⟩ := hnext m' hP
      rcases Nat.lt_or_ge k m'' with hlt | hge
      · exact hnone k hle hlt hgood
      · exact ih (k - m'') (by omega) m'' hP' hge (by omega)
  exact hbefore (k - m) m hm hk (by omega)

/-! ## Ranking -/

/-- How a run goes on from the place `l` at time `m` to the next one. -/
def Advances {Λ χ : Type} (rank : Λ → ℕ) (wait : Λ → Option χ) (stands : ℕ → Λ → Prop)
    (asked good : χ → ℕ → Prop) (m : ℕ) (l : Λ) : Prop :=
  ∃ m' > m, ∃ l', stands m' l' ∧
    (rank l' < rank l ∨ rank l' = rank l ∧ ∃ x, wait l = some x ∧ wait l' = some x ∧
      (∃ k, m ≤ k ∧ k < m' ∧ asked x k) ∧ ∀ k, m ≤ k → k < m' → ¬ good x k)

/-- The rule: a run that advances from every place which is not a target comes to one. -/
theorem exists_target {Λ χ : Type} {rank : Λ → ℕ} {wait : Λ → Option χ} {stands : ℕ → Λ → Prop}
    {asked good : χ → ℕ → Prop} {T : Λ → Prop} (hfair : ∀ x, Recurs (asked x) → Recurs (good x))
    (hadvances : ∀ m l, stands m l → ¬ T l → Advances rank wait stands asked good m l) {m : ℕ}
    {l : Λ} (hl : stands m l) : ∃ m' ≥ m, ∃ l', stands m' l' ∧ T l' := by
  induction hrank : rank l using Nat.strong_induction_on generalizing m l with
  | _ n ih =>
    subst hrank
    by_contra hnone
    -- What stands there later is neither a target nor closer to one.
    have hfar {m' : ℕ} {l' : Λ} (hge : m ≤ m') (hl' : stands m' l') :
        ¬ T l' ∧ ¬ rank l' < rank l := by
      refine ⟨fun hT => hnone ⟨m', hge, l', hl', hT⟩, fun hlt => ?_⟩
      obtain ⟨m'', hge', l'', hl'', hT⟩ := ih _ hlt hl' rfl
      exact hnone ⟨m'', by omega, l'', hl'', hT⟩
    obtain ⟨m₁, hgt, l₁, hl₁, hlt | ⟨-, x, hx, -⟩⟩ := hadvances m l hl (hfar le_rfl hl).1
    · exact (hfar (by omega) hl₁).2 hlt
    refine not_of_stretches (P := fun m' => m ≤ m' ∧ ∃ l', stands m' l' ∧
      rank l' = rank l ∧ wait l' = some x) (hfair x) ?_ m ⟨le_rfl, l, hl, rfl, hx⟩
    rintro m' ⟨hge, l', hl', hrank, hx'⟩
    obtain ⟨m'', hgt, l'', hl'', hlt | ⟨hrank', y, hy, hy', hasked, hnogood⟩⟩ :=
      hadvances m' l' hl' (hfar hge hl').1
    · exact absurd (hrank ▸ hlt) (hfar (by omega) hl'').2
    · obtain rfl : x = y := Option.some.inj (hx'.symm.trans hy)
      exact ⟨m'', hgt, ⟨by omega, l'', hl'', hrank'.trans hrank, hy'⟩, hasked, hnogood⟩

end Progress

/-! ## Replies -/

namespace Prog

variable {Cmd Query Ans α β σ ι Λ : Type}

/-- The program asks nothing. -/
def Silent : Prog Cmd Query Ans α → Prop
  | .ret _ => True
  | .emit _ rest => rest.Silent
  | .ask _ _ => False

theorem Silent.bind {p : Prog Cmd Query Ans α} {f : α → Prog Cmd Query Ans β} (hp : p.Silent)
    (hf : ∀ a, (f a).Silent) : (p >>= f).Silent := by
  induction p with
  | ret a => exact hf a
  | emit c rest ih => exact ih hp
  | ask q rest ih => exact hp.elim

/-- The event is a reply. -/
def Event.IsReply : Event Cmd Query Ans σ → Prop
  | .hears _ _ _ => True
  | _ => False

/-- The monitor that keeps the replies. -/
def hear (t : List (Event Cmd Query Ans σ)) : Event Cmd Query Ans σ → List (Event Cmd Query Ans σ)
  | .hears s q v => .hears s q v :: t
  | _ => t

theorem mem_hear {t : List (Event Cmd Query Ans σ)} {e e' : Event Cmd Query Ans σ} :
    e ∈ hear t e' ↔ e ∈ t ∨ e.IsReply ∧ e' = e := by
  cases e' with
  | hears s q v =>
    simp only [hear, List.mem_cons]
    constructor
    · rintro (rfl | h)
      · exact .inr ⟨trivial, rfl⟩
      · exact .inl h
    · rintro (h | ⟨-, rfl⟩)
      · exact .inr h
      · exact .inl rfl
  | _ =>
    refine ⟨.inl, ?_⟩
    rintro (h | ⟨h, rfl⟩)
    · exact h
    · exact h.elim

/-- What is kept are the replies among the events. -/
theorem mem_run_hear {ev : ℕ → Event Cmd Query Ans σ} {d : ℕ} {e : Event Cmd Query Ans σ} :
    e ∈ Driven.run hear [] ev d ↔ e.IsReply ∧ ∃ k < d, ev k = e := by
  induction d with
  | zero => simp
  | succ d ih =>
    rw [Driven.run_succ, mem_hear, ih, ← and_or_left, Nat.exists_lt_succ_right]

/-- Code that asks nothing hears nothing. -/
theorem Silent.assures {env : Env Cmd Query Ans σ ι} {A : Event Cmd Query Ans σ → Prop}
    {Ok : List (Event Cmd Query Ans σ) → Event Cmd Query Ans σ → Prop} (hOk : ∀ t e, Ok t e)
    {t : List (Event Cmd Query Ans σ)} {p : Prog Cmd Query Ans α} (hp : p.Silent) (s : σ) :
    Assures env hear A Ok (fun _ _ t' => t' = t) p s t := by
  induction p generalizing s with
  | ret a => rfl
  | emit c rest ih => exact fun i _ => ⟨hOk _ _, ih hp _⟩
  | ask q rest ih => exact hp.elim

end Prog
