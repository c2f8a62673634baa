-- SUMMARY: The events of a run, monitors that watch them, and the judgement that a program keeps to its side of a contract about the events.
import PokemonSVE.Basis.Program

/-!
# Monitors

A monitor is a machine that reads the events of a run and has no effect on it. What a
program owes to its environment can then be said about the state of a monitor, and
what it may rely on about the events.
-/

namespace Prog

variable {Cmd Query Ans α β σ ι Λ μ : Type}

/-- What happens at a step, with the state in which it happens. -/
inductive Event (Cmd Query Ans σ : Type) where
  | arrives
  | issues (s : σ) (c : Cmd)
  | hears (s : σ) (q : Query) (v : Ans)

def Config.event (env : Env Cmd Query Ans σ ι) (c : Config Cmd Query Ans σ Λ) (i : ι) :
    Event Cmd Query Ans σ :=
  let s := env.acts c.state i
  match c.prog with
  | .ret _ => .arrives
  | .emit cmd _ => .issues s cmd
  | .ask q _ => .hears s q (env.answer s i q)

/-- The run from a configuration. -/
abbrev runFrom (body : Λ → Prog Cmd Query Ans Λ) (env : Env Cmd Query Ans σ ι)
    (c : Config Cmd Query Ans σ Λ) (ins : ℕ → ι) : ℕ → Config Cmd Query Ans σ Λ :=
  Driven.run (step body env) c ins

/-- The events of the run from a configuration. -/
def events (body : Λ → Prog Cmd Query Ans Λ) (env : Env Cmd Query Ans σ ι)
    (c : Config Cmd Query Ans σ Λ) (ins : ℕ → ι) (n : ℕ) : Event Cmd Query Ans σ :=
  (runFrom body env c ins n).event env (ins n)

section Suffix

variable {body : Λ → Prog Cmd Query Ans Λ} {env : Env Cmd Query Ans σ ι}
  {c : Config Cmd Query Ans σ Λ} {ins : ℕ → ι}

theorem runFrom_add (m n : ℕ) :
    runFrom body env c ins (m + n) =
      runFrom body env (runFrom body env c ins m) (fun k => ins (m + k)) n :=
  Driven.run_add m n

/-- The events from the middle of a run on are those of the run from there. -/
theorem events_add (m n : ℕ) :
    events body env c ins (m + n) =
      events body env (runFrom body env c ins m) (fun k => ins (m + k)) n := by
  rw [events, events, runFrom_add]

theorem watch_add {watch : μ → Event Cmd Query Ans σ → μ} {w : μ} (m n : ℕ) :
    Driven.run watch w (events body env c ins) (m + n) =
      Driven.run watch (Driven.run watch w (events body env c ins) m)
        (events body env (runFrom body env c ins m) fun k => ins (m + k)) n := by
  have hevents : (fun k => events body env c ins (m + k)) =
      events body env (runFrom body env c ins m) fun k => ins (m + k) :=
    funext fun k => events_add m k
  rw [Driven.run_add, hevents]

end Suffix

/-! ## Two environments -/

/-- The event without the state. -/
def Event.said : Event Cmd Query Ans σ → Event Cmd Query Ans Unit
  | .arrives => .arrives
  | .issues _ c => .issues () c
  | .hears _ q v => .hears () q v

theorem Event.eq_issues_of_said {e : Event Cmd Query Ans σ} {c : Cmd}
    (h : e.said = .issues () c) : ∃ s, e = .issues s c := by
  cases e with
  | issues s c' =>
    obtain rfl : c' = c := (Event.issues.inj h).2
    exact ⟨s, rfl⟩
  | _ => cases h

theorem Event.eq_hears_of_said {e : Event Cmd Query Ans σ} {q : Query} {v : Ans}
    (h : e.said = .hears () q v) : ∃ s, e = .hears s q v := by
  cases e with
  | hears s q' v' =>
    obtain ⟨-, rfl, rfl⟩ := Event.hears.inj h
    exact ⟨s, rfl⟩
  | _ => cases h

section Answers

variable {σ' ι' : Type} {body : Λ → Prog Cmd Query Ans Λ} {env : Env Cmd Query Ans σ ι}
  {env' : Env Cmd Query Ans σ' ι'}

variable (body) in
/-- One step of a program in two environments that give the same answer. -/
theorem step_of_answers {c : Config Cmd Query Ans σ Λ} {c' : Config Cmd Query Ans σ' Λ} {i : ι}
    {i' : ι'} (hprog : c.prog = c'.prog)
    (hanswer : ∀ s q v, c.event env i = .hears s q v →
      env'.answer (env'.acts c'.state i') i' q = v) :
    (c.event env i).said = (c'.event env' i').said ∧
      (step body env c i).prog = (step body env' c' i').prog := by
  obtain ⟨prog, s⟩ := c
  obtain ⟨prog', s'⟩ := c'
  obtain rfl : prog = prog' := hprog
  cases prog with
  | ret l => exact ⟨rfl, rfl⟩
  | emit cmd rest => exact ⟨rfl, rfl⟩
  | ask q rest =>
    have hsame := hanswer _ q _ rfl
    exact ⟨congrArg (Event.hears () q) hsame.symm, congrArg rest hsame.symm⟩

/-- What a program says depends on the environment only through the answers. -/
theorem said_of_answers {c : Config Cmd Query Ans σ Λ} {c' : Config Cmd Query Ans σ' Λ}
    {ins : ℕ → ι} {ins' : ℕ → ι'} (hprog : c.prog = c'.prog)
    (hanswer : ∀ n s q v, events body env c ins n = .hears s q v →
      env'.answer (env'.acts (runFrom body env' c' ins' n).state (ins' n)) (ins' n) q = v)
    (n : ℕ) : (events body env c ins n).said = (events body env' c' ins' n).said := by
  have hrun (n : ℕ) : (runFrom body env c ins n).prog = (runFrom body env' c' ins' n).prog := by
    induction n with
    | zero => exact hprog
    | succ n ih => exact (step_of_answers body ih (hanswer n)).2
  exact (step_of_answers body (hrun n) (hanswer n)).1

end Answers

/-! ## The judgement -/

section Assures

variable (env : Env Cmd Query Ans σ ι) (watch : μ → Event Cmd Query Ans σ → μ)
  (A : Event Cmd Query Ans σ → Prop) (Ok : μ → Event Cmd Query Ans σ → Prop)

/-- From state `s` and monitor `m`, as long as the events are as assumed in `A`, every
event is permitted by `Ok`, and the program ends with `Q`. -/
def Assures (Q : α → σ → μ → Prop) : Prog Cmd Query Ans α → σ → μ → Prop
  | .ret a, s, m => Q a s m
  | .emit c rest, s, m => ∀ i, A (.issues (env.acts s i) c) →
    Ok m (.issues (env.acts s i) c) ∧
      Assures Q rest (env.emitted (env.acts s i) c) (watch m (.issues (env.acts s i) c))
  | .ask q rest, s, m => ∀ i, A (.hears (env.acts s i) q (env.answer (env.acts s i) i q)) →
    Ok m (.hears (env.acts s i) q (env.answer (env.acts s i) i q)) ∧
      Assures Q (rest (env.answer (env.acts s i) i q)) (env.asked (env.acts s i) q)
        (watch m (.hears (env.acts s i) q (env.answer (env.acts s i) i q)))

variable {env watch A Ok}

theorem Assures.mono {Q Q' : α → σ → μ → Prop} (hQ : ∀ a s m, Q a s m → Q' a s m)
    {p : Prog Cmd Query Ans α} {s : σ} {m : μ} (h : Assures env watch A Ok Q p s m) :
    Assures env watch A Ok Q' p s m := by
  induction p generalizing s m with
  | ret a => exact hQ a s m h
  | emit c rest ih => exact fun i hA => ⟨(h i hA).1, ih (h i hA).2⟩
  | ask q rest ih => exact fun i hA => ⟨(h i hA).1, ih _ (h i hA).2⟩

theorem assures_bind {Q : β → σ → μ → Prop} (p : Prog Cmd Query Ans α)
    (f : α → Prog Cmd Query Ans β) (s : σ) (m : μ) :
    Assures env watch A Ok Q (p >>= f) s m ↔
      Assures env watch A Ok (fun a => Assures env watch A Ok Q (f a)) p s m := by
  induction p generalizing s m with
  | ret a => rfl
  | emit c rest ih =>
    exact forall_congr' fun i => imp_congr_right fun _ => and_congr Iff.rfl (ih _ _)
  | ask q rest ih =>
    exact forall_congr' fun i => imp_congr_right fun _ => and_congr Iff.rfl (ih _ _ _)

/-- Sequencing through an intermediate condition. -/
theorem Assures.bind {P : α → σ → μ → Prop} {Q : β → σ → μ → Prop} {p : Prog Cmd Query Ans α}
    {f : α → Prog Cmd Query Ans β} {s : σ} {m : μ} (hp : Assures env watch A Ok P p s m)
    (hf : ∀ a s m, P a s m → Assures env watch A Ok Q (f a) s m) :
    Assures env watch A Ok Q (p >>= f) s m :=
  (assures_bind p f s m).mpr (hp.mono hf)

/-- How a program ends, where everything is permitted. -/
theorem assures_of_forall {Q : α → σ → μ → Prop} (hOk : ∀ m e, Ok m e) (hQ : ∀ a s m, Q a s m)
    (p : Prog Cmd Query Ans α) (s : σ) (m : μ) : Assures env watch A Ok Q p s m := by
  induction p generalizing s m with
  | ret a => exact hQ a s m
  | emit c rest ih => exact fun i _ => ⟨hOk _ _, ih _ _⟩
  | ask q rest ih => exact fun i _ => ⟨hOk _ _, ih _ _ _⟩

theorem Ends.assures {P : α → Prop} {p : Prog Cmd Query Ans α} (hOk : ∀ m e, Ok m e)
    (h : p.Ends P) (s : σ) (m : μ) : Assures env watch A Ok (fun a _ _ => P a) p s m := by
  induction p generalizing s m with
  | ret a => exact h
  | emit c rest ih => exact fun i _ => ⟨hOk _ _, ih h _ _⟩
  | ask q rest ih => exact fun i _ => ⟨hOk _ _, ih _ (h _) _ _⟩

/-- Code that issues only what is permitted in any case. -/
theorem Issues.assures {P : Cmd → Prop} {p : Prog Cmd Query Ans α} (hp : p.Issues P)
    (hissues : ∀ m s c, P c → Ok m (.issues s c)) (hhears : ∀ m s q v, Ok m (.hears s q v)) (s : σ)
    (m : μ) : Assures env watch A Ok (fun _ _ _ => True) p s m := by
  induction p generalizing s m with
  | ret a => trivial
  | emit c rest ih => exact fun i _ => ⟨hissues _ _ _ hp.1, ih hp.2 _ _⟩
  | ask q rest ih => exact fun i _ => ⟨hhears _ _ _ _, ih _ (hp _) _ _⟩

theorem Assures.and_ends {Q : α → σ → μ → Prop} {P : α → Prop} {p : Prog Cmd Query Ans α} {s : σ}
    {m : μ} (h : Assures env watch A Ok Q p s m) (hp : p.Ends P) :
    Assures env watch A Ok (fun a s m => Q a s m ∧ P a) p s m := by
  induction p generalizing s m with
  | ret a => exact ⟨h, hp⟩
  | emit c rest ih => exact fun i hA => ⟨(h i hA).1, ih (h i hA).2 hp⟩
  | ask q rest ih => exact fun i hA => ⟨(h i hA).1, ih _ (h i hA).2 (hp _)⟩

/-! ## Runs -/

variable {body : Λ → Prog Cmd Query Ans Λ} {I : Λ → σ → μ → Prop}

theorem Assures.step {c : Config Cmd Query Ans σ Λ} {m : μ} {i : ι}
    (hbody : ∀ l s, I l s m →
      Assures env watch A Ok I (body l) (env.acts s i) (watch m .arrives))
    (hA : A (c.event env i)) (h : Assures env watch A Ok I c.prog c.state m) :
    Assures env watch A Ok I (step body env c i).prog (step body env c i).state
      (watch m (c.event env i)) := by
  obtain ⟨prog, s⟩ := c
  cases prog with
  | ret l => exact hbody l s h
  | emit cmd rest => exact (h i hA).2
  | ask q rest => exact (h i hA).2

theorem Assures.ok {c : Config Cmd Query Ans σ Λ} {m : μ} {i : ι} (hOk : Ok m .arrives)
    (hA : A (c.event env i)) (h : Assures env watch A Ok I c.prog c.state m) :
    Ok m (c.event env i) := by
  obtain ⟨prog, s⟩ := c
  cases prog with
  | ret l => exact hOk
  | emit cmd rest => exact (h i hA).1
  | ask q rest => exact (h i hA).1

/-- The rule for runs: if the program of every label, started under the invariant of the
label, assures the invariant of the next label, then every event of a run is
permitted. -/
theorem run_assures (hOk : ∀ m, Ok m .arrives)
    (hbody : ∀ l s m i, I l s m →
      Assures env watch A Ok I (body l) (env.acts s i) (watch m .arrives))
    {c : Config Cmd Query Ans σ Λ} {m : μ} (h0 : Assures env watch A Ok I c.prog c.state m)
    {ins : ℕ → ι} (hA : ∀ n, A (events body env c ins n)) (n : ℕ) :
    Ok (Driven.run watch m (events body env c ins) n) (events body env c ins n) := by
  have hrun (n : ℕ) : Assures env watch A Ok I (runFrom body env c ins n).prog
      (runFrom body env c ins n).state (Driven.run watch m (events body env c ins) n) := by
    induction n with
    | zero => exact h0
    | succ n ih => exact ih.step (fun l s => hbody l s _ (ins n)) (hA n)
  exact (hrun n).ok (hOk _) (hA n)

/-- Every program comes to an end: the run arrives at a label. -/
theorem exists_arrival {Q : Λ → σ → μ → Prop} {c : Config Cmd Query Ans σ Λ} {m : μ}
    (h : Assures env watch A Ok Q c.prog c.state m) {ins : ℕ → ι}
    (hA : ∀ n, A (events body env c ins n)) :
    ∃ d l, (runFrom body env c ins d).prog = .ret l ∧
      Q l (runFrom body env c ins d).state (Driven.run watch m (events body env c ins) d) := by
  obtain ⟨prog, s⟩ := c
  have hgo {c : Config Cmd Query Ans σ Λ} {ins : ℕ → ι} {m : μ}
      (hA : ∀ n, A (events body env c ins n))
      (hrest : (∀ n, A (events body env (Prog.step body env c (ins 0)) (fun k => ins (1 + k)) n)) →
        ∃ d l, (runFrom body env (Prog.step body env c (ins 0)) (fun k => ins (1 + k)) d).prog =
            .ret l ∧
          Q l (runFrom body env (Prog.step body env c (ins 0)) (fun k => ins (1 + k)) d).state
            (Driven.run watch (watch m (c.event env (ins 0)))
              (events body env (Prog.step body env c (ins 0)) fun k => ins (1 + k)) d)) :
      ∃ d l, (runFrom body env c ins d).prog = .ret l ∧
        Q l (runFrom body env c ins d).state (Driven.run watch m (events body env c ins) d) := by
    obtain ⟨d, l, hprog, hQ⟩ := hrest fun n => by
      have hnext := hA (1 + n)
      rwa [events_add] at hnext
    refine ⟨1 + d, l, ?_⟩
    rw [watch_add, runFrom_add]
    exact ⟨hprog, hQ⟩
  induction prog generalizing s m ins with
  | ret l => exact ⟨0, l, rfl, h⟩
  | emit cmd rest ih => exact hgo hA (ih _ (h _ (hA 0)).2)
  | ask q rest ih => exact hgo hA (ih _ _ (h _ (hA 0)).2)

theorem exists_label (body : Λ → Prog Cmd Query Ans Λ) (env : Env Cmd Query Ans σ ι)
    (c : Config Cmd Query Ans σ Λ) (ins : ℕ → ι) :
    ∃ d l, (runFrom body env c ins d).prog = .ret l := by
  have hany : Assures env (fun (_ : Unit) _ => ()) (fun _ => True) (fun _ _ => True)
      (fun _ _ _ => True) c.prog c.state () :=
    assures_of_forall (fun _ _ => trivial) (fun _ _ _ => trivial) _ _ _
  have hA (n : ℕ) : (fun _ => True) (events body env c ins n) := trivial
  obtain ⟨d, l, hl, -⟩ := exists_arrival hany hA
  exact ⟨d, l, hl⟩

end Assures

end Prog
