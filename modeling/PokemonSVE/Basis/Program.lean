-- SUMMARY: Interactive programs with labels, the machine that runs one against an environment, and the rule for what holds of every run.
import PokemonSVE.Basis.Run

/-!
# Interactive programs

A program issues commands and asks queries, and ends at the label where it goes on.
The environment answers the queries, and may act by itself before every step. An
environment that reads one input per step makes a driven machine of the two, so that
"for every behaviour of the environment" is "for every stream of inputs".
-/

/-- A program over commands `Cmd` and queries `Query`, which are answered in `Ans`. -/
inductive Prog (Cmd Query Ans α : Type) where
  | ret (a : α)
  | emit (c : Cmd) (rest : Prog Cmd Query Ans α)
  | ask (q : Query) (rest : Ans → Prog Cmd Query Ans α)

namespace Prog

variable {Cmd Query Ans α β σ ι Λ : Type}

def bind : Prog Cmd Query Ans α → (α → Prog Cmd Query Ans β) → Prog Cmd Query Ans β
  | .ret a, f => f a
  | .emit c rest, f => .emit c (rest.bind f)
  | .ask q rest, f => .ask q fun v => (rest v).bind f

instance : Monad (Prog Cmd Query Ans) where
  pure := .ret
  bind := bind

@[simp] theorem pure_eq (a : α) : (pure a : Prog Cmd Query Ans α) = .ret a := rfl

@[simp] theorem ret_bind (a : α) (f : α → Prog Cmd Query Ans β) : .ret a >>= f = f a := rfl

@[simp] theorem emit_bind (c : Cmd) (rest : Prog Cmd Query Ans α)
    (f : α → Prog Cmd Query Ans β) : .emit c rest >>= f = .emit c (rest >>= f) := rfl

@[simp] theorem ask_bind (q : Query) (rest : Ans → Prog Cmd Query Ans α)
    (f : α → Prog Cmd Query Ans β) : .ask q rest >>= f = .ask q fun v => rest v >>= f := rfl

/-! ## How a program ends -/

/-- Whatever the answers are, the program ends with `P`. -/
def Ends (P : α → Prop) : Prog Cmd Query Ans α → Prop
  | .ret a => P a
  | .emit _ rest => rest.Ends P
  | .ask _ rest => ∀ v, (rest v).Ends P

theorem ends_of_forall {P : α → Prop} (h : ∀ a, P a) (p : Prog Cmd Query Ans α) : p.Ends P := by
  induction p with
  | ret a => exact h a
  | emit _ _ ih => exact ih
  | ask _ _ ih => exact ih

theorem Ends.mono {P P' : α → Prop} {p : Prog Cmd Query Ans α} (h : p.Ends P)
    (hP : ∀ a, P a → P' a) : p.Ends P' := by
  induction p with
  | ret a => exact hP a h
  | emit _ _ ih => exact ih h
  | ask _ _ ih => exact fun v => ih v (h v)

theorem ends_bind {P : β → Prop} (p : Prog Cmd Query Ans α) (f : α → Prog Cmd Query Ans β) :
    (p >>= f).Ends P ↔ p.Ends fun a => (f a).Ends P := by
  induction p with
  | ret a => rfl
  | emit _ _ ih => exact ih
  | ask _ _ ih => exact forall_congr' ih

/-- Sequencing, if the second program is in order after any result of the first. -/
theorem Ends.bind {P : β → Prop} {p : Prog Cmd Query Ans α} {f : α → Prog Cmd Query Ans β}
    (h : ∀ a, (f a).Ends P) : (p >>= f).Ends P :=
  (ends_bind p f).mpr (ends_of_forall h p)

/-! ## What a program issues -/

/-- Whatever the answers are, every command of the program has `P`. -/
def Issues (P : Cmd → Prop) : Prog Cmd Query Ans α → Prop
  | .ret _ => True
  | .emit c rest => P c ∧ rest.Issues P
  | .ask _ rest => ∀ v, (rest v).Issues P

theorem issues_ret {P : Cmd → Prop} (a : α) : (.ret a : Prog Cmd Query Ans α).Issues P := trivial

theorem Issues.bind {P : Cmd → Prop} {p : Prog Cmd Query Ans α} {f : α → Prog Cmd Query Ans β}
    (hp : p.Issues P) (hf : ∀ a, (f a).Issues P) : (p >>= f).Issues P := by
  induction p with
  | ret a => exact hf a
  | emit _ _ ih => exact ⟨hp.1, ih hp.2⟩
  | ask _ _ ih => exact fun v => ih v (hp v)

/-- The label at which a program stands. -/
def label? : Prog Cmd Query Ans α → Option α
  | .ret a => some a
  | _ => none

theorem eq_ret_of_label? {p : Prog Cmd Query Ans α} {a : α} (h : p.label? = some a) :
    p = .ret a := by
  cases p with
  | ret b => exact congrArg Prog.ret (Option.some.inj h)
  | emit _ _ => cases h
  | ask _ _ => cases h

/-! ## Running -/

/-- An environment with states `σ` that reads an input in `ι` at every step. -/
structure Env (Cmd Query Ans σ ι : Type) where
  /-- What it does by itself before the step. -/
  acts : σ → ι → σ
  /-- The effect of a command. -/
  emitted : σ → Cmd → σ
  answer : σ → ι → Query → Ans
  /-- The effect of a query. -/
  asked : σ → Query → σ

/-- A program in the middle of a run, which goes on at labels in `Λ`. -/
structure Config (Cmd Query Ans σ Λ : Type) where
  prog : Prog Cmd Query Ans Λ
  state : σ

/-- One step: a command, a query, or the way to the next label. -/
def step (body : Λ → Prog Cmd Query Ans Λ) (env : Env Cmd Query Ans σ ι)
    (c : Config Cmd Query Ans σ Λ) (i : ι) : Config Cmd Query Ans σ Λ :=
  let s := env.acts c.state i
  match c.prog with
  | .ret l => ⟨body l, s⟩
  | .emit cmd rest => ⟨rest, env.emitted s cmd⟩
  | .ask q rest => ⟨rest (env.answer s i q), env.asked s q⟩

/-- The run from a label. -/
def run (body : Λ → Prog Cmd Query Ans Λ) (env : Env Cmd Query Ans σ ι) (l : Λ) (s : σ)
    (ins : ℕ → ι) (n : ℕ) : Config Cmd Query Ans σ Λ :=
  Driven.run (step body env) ⟨.ret l, s⟩ ins n

/-- From a label a run goes on as if it began there. -/
theorem run_add_of_ret {body : Λ → Prog Cmd Query Ans Λ} {env : Env Cmd Query Ans σ ι} {l l' : Λ}
    {s : σ} {ins : ℕ → ι} {n : ℕ} (h : (run body env l s ins n).prog = .ret l') (k : ℕ) :
    run body env l s ins (n + k) =
      run body env l' (run body env l s ins n).state (fun j => ins (n + j)) k := by
  have hlabel : run body env l s ins n = ⟨.ret l', (run body env l s ins n).state⟩ := by rw [← h]
  calc run body env l s ins (n + k)
      = Driven.run (step body env) (run body env l s ins n) (fun j => ins (n + j)) k :=
        Driven.run_add n k
    _ = run body env l' (run body env l s ins n).state (fun j => ins (n + j)) k := by
        rw [hlabel]
        rfl

/-- The rule for what programs leave alone: a condition that the environment keeps, also
on commands with `P`, holds for as long as the run comes only to labels whose programs
issue no other commands. -/
theorem run_keeps_of_issues {body : Λ → Prog Cmd Query Ans Λ} {env : Env Cmd Query Ans σ ι}
    {P : Cmd → Prop} {J : σ → Prop} (hacts : ∀ s i, J s → J (env.acts s i))
    (hemitted : ∀ s c, P c → J s → J (env.emitted s c))
    (hasked : ∀ s q, J s → J (env.asked s q)) {l : Λ} {s : σ} {ins : ℕ → ι} (h0 : J s) (n : ℕ)
    (hbody : ∀ k < n, ∀ l', (run body env l s ins k).prog = .ret l' → (body l').Issues P) :
    (run body env l s ins n).prog.Issues P ∧ J (run body env l s ins n).state := by
  induction n with
  | zero => exact ⟨trivial, h0⟩
  | succ n ih =>
    obtain ⟨hprog, hJ⟩ := ih fun k hk => hbody k (Nat.lt_succ_of_lt hk)
    have hlabel := hbody n (Nat.lt_succ_self n)
    have hstep : run body env l s ins (n + 1) = step body env (run body env l s ins n) (ins n) :=
      Driven.run_succ n
    rw [hstep]
    generalize run body env l s ins n = c at hprog hJ hlabel
    obtain ⟨prog, s'⟩ := c
    cases prog with
    | ret l' => exact ⟨hlabel l' rfl, hacts _ _ hJ⟩
    | emit cmd rest => exact ⟨hprog.2, hemitted _ _ hprog.1 (hacts _ _ hJ)⟩
    | ask q rest => exact ⟨hprog _, hasked _ _ (hacts _ _ hJ)⟩

/-! ## What holds of every run -/

section Holds

variable (env : Env Cmd Query Ans σ ι) (Ok : σ → Cmd → Prop)

/-- From state `s`, whatever the environment does, every command of the program is
issued in a state where it is permitted, and the program ends with `Q`. -/
def Holds (Q : α → σ → Prop) : Prog Cmd Query Ans α → σ → Prop
  | .ret a, s => Q a s
  | .emit c rest, s =>
    ∀ i, Ok (env.acts s i) c ∧ Holds Q rest (env.emitted (env.acts s i) c)
  | .ask q rest, s =>
    ∀ i, Holds Q (rest (env.answer (env.acts s i) i q)) (env.asked (env.acts s i) q)

variable {env Ok}

theorem Holds.of_ret {Q : α → σ → Prop} {p : Prog Cmd Query Ans α} {a : α} {s : σ}
    (h : Holds env Ok Q p s) (hp : p = .ret a) : Q a s := by
  rw [hp] at h
  exact h

theorem Holds.of_emit {Q : α → σ → Prop} {p rest : Prog Cmd Query Ans α} {c : Cmd} {s : σ}
    (h : Holds env Ok Q p s) (hp : p = .emit c rest) (i : ι) : Ok (env.acts s i) c := by
  rw [hp] at h
  exact (h i).1

theorem Holds.mono {Q Q' : α → σ → Prop} (hQ : ∀ a s, Q a s → Q' a s)
    {p : Prog Cmd Query Ans α} {s : σ} (h : Holds env Ok Q p s) : Holds env Ok Q' p s := by
  induction p generalizing s with
  | ret a => exact hQ a s h
  | emit c rest ih => exact fun i => ⟨(h i).1, ih (h i).2⟩
  | ask q rest ih => exact fun i => ih _ (h i)

theorem Holds.mono_ok {Ok' : σ → Cmd → Prop} (hOk : ∀ s c, Ok s c → Ok' s c) {Q : α → σ → Prop}
    {p : Prog Cmd Query Ans α} {s : σ} (h : Holds env Ok Q p s) : Holds env Ok' Q p s := by
  induction p generalizing s with
  | ret a => exact h
  | emit c rest ih => exact fun i => ⟨hOk _ c (h i).1, ih (h i).2⟩
  | ask q rest ih => exact fun i => ih _ (h i)

theorem holds_bind {Q : β → σ → Prop} (p : Prog Cmd Query Ans α)
    (f : α → Prog Cmd Query Ans β) (s : σ) :
    Holds env Ok Q (p >>= f) s ↔ Holds env Ok (fun a => Holds env Ok Q (f a)) p s := by
  induction p generalizing s with
  | ret a => rfl
  | emit c rest ih => exact forall_congr' fun i => and_congr Iff.rfl (ih _)
  | ask q rest ih => exact forall_congr' fun i => ih _ _

/-- Sequencing through an intermediate condition. -/
theorem Holds.bind {P : α → σ → Prop} {Q : β → σ → Prop} {p : Prog Cmd Query Ans α}
    {f : α → Prog Cmd Query Ans β} {s : σ} (hp : Holds env Ok P p s)
    (hf : ∀ a s, P a s → Holds env Ok Q (f a) s) : Holds env Ok Q (p >>= f) s :=
  (holds_bind p f s).mpr (hp.mono hf)

theorem Holds.and {Q Q' : α → σ → Prop} {p : Prog Cmd Query Ans α} {s : σ}
    (h : Holds env Ok Q p s) (h' : Holds env Ok Q' p s) :
    Holds env Ok (fun a s => Q a s ∧ Q' a s) p s := by
  induction p generalizing s with
  | ret a => exact ⟨h, h'⟩
  | emit c rest ih => exact fun i => ⟨(h i).1, ih (h i).2 (h' i).2⟩
  | ask q rest ih => exact fun i => ih _ (h i) (h' i)

theorem Holds.and_ends {Q : α → σ → Prop} {P : α → Prop} {p : Prog Cmd Query Ans α} {s : σ}
    (h : Holds env Ok Q p s) (hp : p.Ends P) : Holds env Ok (fun a s => Q a s ∧ P a) p s := by
  induction p generalizing s with
  | ret a => exact ⟨h, hp⟩
  | emit c rest ih => exact fun i => ⟨(h i).1, ih (h i).2 hp⟩
  | ask q rest ih => exact fun i => ih _ (h i) (hp _)

/-- How a program ends, where everything is permitted. -/
theorem Ends.holds {P : α → Prop} {p : Prog Cmd Query Ans α} (h : p.Ends P) (s : σ) :
    Holds env (fun _ _ => True) (fun a _ => P a) p s := by
  induction p generalizing s with
  | ret a => exact h
  | emit c rest ih => exact fun i => ⟨trivial, ih h _⟩
  | ask q rest ih => exact fun i => ih _ (h _) _

/-- From any state with `J` the program is in order, and keeps `J`. -/
def Keeps (env : Env Cmd Query Ans σ ι) (Ok : σ → Cmd → Prop) (J : σ → Prop)
    (p : Prog Cmd Query Ans α) : Prop :=
  ∀ s, J s → Holds env Ok (fun _ => J) p s

theorem keeps_ret {J : σ → Prop} (a : α) : Keeps env Ok J (.ret a : Prog Cmd Query Ans α) :=
  fun _ h => h

theorem Keeps.bind {J : σ → Prop} {p : Prog Cmd Query Ans α} {f : α → Prog Cmd Query Ans β}
    (hp : Keeps env Ok J p) (hf : ∀ a, Keeps env Ok J (f a)) : Keeps env Ok J (p >>= f) :=
  fun s h => (hp s h).bind fun a s h => hf a s h

variable {body : Λ → Prog Cmd Query Ans Λ} {I : Λ → σ → Prop}

/-- One step, from a configuration in which the rest of the program is in order. -/
theorem Holds.step {c : Config Cmd Query Ans σ Λ} {i : ι}
    (hbody : ∀ l s, c = ⟨.ret l, s⟩ → I l s → Holds env Ok I (body l) (env.acts s i))
    (h : Holds env Ok I c.prog c.state) :
    Holds env Ok I (step body env c i).prog (step body env c i).state := by
  obtain ⟨prog, s⟩ := c
  cases prog with
  | ret l => exact hbody l s rfl h
  | emit cmd rest => exact (h i).2
  | ask q rest => exact h i

/-- The rule for runs: if the program of every label, started under the invariant of
the label, is in order and ends under the invariant of the next label, then the rest
of the program is in order at every moment of a run. The run may be assumed to meet
a condition `A` at its labels. -/
theorem run_holds_of {A : Λ → σ → Prop}
    (hbody : ∀ l s i, A l s → I l s → Holds env Ok I (body l) (env.acts s i)) {l : Λ} {s : σ}
    {ins : ℕ → ι} (hA : ∀ n l' s', run body env l s ins n = ⟨.ret l', s'⟩ → A l' s')
    (h0 : I l s) (n : ℕ) :
    Holds env Ok I (run body env l s ins n).prog (run body env l s ins n).state := by
  induction n with
  | zero => exact h0
  | succ n ih => exact ih.step fun l' s' hc hI => hbody l' s' (ins n) (hA n l' s' hc) hI

theorem run_holds (hbody : ∀ l s i, I l s → Holds env Ok I (body l) (env.acts s i)) {l : Λ}
    {s : σ} (h0 : I l s) (ins : ℕ → ι) (n : ℕ) :
    Holds env Ok I (run body env l s ins n).prog (run body env l s ins n).state :=
  run_holds_of (A := fun _ _ => True) (fun l s i _ => hbody l s i) (fun _ _ _ _ => trivial) h0 n

end Holds

end Prog
