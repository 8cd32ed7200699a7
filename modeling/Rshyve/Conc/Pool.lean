/-
# Pools of threads over one shared state

A `System` gives operations their meaning: `exec t c o s` is what happens
when thread `t` issues `o` in shared state `s` and the outside world makes
choice `c` (which call is refused, which message is lost, which bytes a race
leaves). It answers `none` when the operation is blocked there, or when the
choice does not fit it. `env` is what happens with no thread asking for it:
a guest writing its memory, a connection being cut, a client starting a new
thread.

A run schedules one thread at a time, one operation at a time. `Reach ok`
are the states reached by runs all of whose steps meet `ok`, a condition on
the step and on the state before it; `Reach` with the trivial condition is
plain reachability, and `runAll` is its executable spine.

# Outlines

An `Outline` is a discipline for the threads together with an invariant
that ties the shared state to every thread's local state. Its two
obligations are about single operations and single moves of the
environment. `Outline.sound` turns them into a fact about every reachable
state: the invariant holds, and every thread keeps the discipline from
there on. Local states are the outline's own bookkeeping. They are not part
of the system: `sound` produces them.

# Census

Counters that the code keeps (operations in flight, readers, holds) are tied
to the threads by a `Census`: the number of threads whose local state
satisfies a predicate, with the three ways one thread's move can change it.
-/
import Rshyve.Conc.Proc
import Rshyve.Conc.Trace

namespace Conc

open Function

variable {Op : Type} {Ans : Op → Type} {σ χ ε : Type}

-- ==== the system

/-- A shared state and the programs its threads have left to run. -/
structure Pool (Op : Type) (Ans : Op → Type) (σ : Type) where
  sh : σ
  thr : Nat → Proc Op Ans Unit

/-- One scheduling decision: a thread moves, or the environment does. -/
inductive Act (χ ε : Type) where
  | run (t : Nat) (c : χ)
  | env (e : ε)

/-- The meaning of the operations, and the moves of the environment. -/
structure System (Op : Type) (Ans : Op → Type) (σ χ ε : Type) where
  exec : Nat → χ → (o : Op) → σ → Option (Ans o × σ)
  env : ε → Pool Op Ans σ → Option (Pool Op Ans σ)

namespace System

/-- The thread's next move: its operation, or a round of its loop. A thread
that has returned has none. -/
def runThread (M : System Op Ans σ χ ε) (t : Nat) (c : χ)
    (s : Pool Op Ans σ) : Option (Pool Op Ans σ) :=
  match s.thr t with
  | .ret _ => none
  | .op o k =>
    (M.exec t c o s.sh).map fun (a, sh) =>
      ⟨sh, update s.thr t (k a)⟩
  | .iter body i k =>
    some ⟨s.sh, update s.thr t (Proc.unroll body i k)⟩

/-- One step of the system. -/
def step (M : System Op Ans σ χ ε) : Act χ ε → Pool Op Ans σ → Option (Pool Op Ans σ)
  | .run t c, s => M.runThread t c s
  | .env e, s => M.env e s

/-- The states reached from `s₀` by steps that all meet `ok`. -/
inductive Reach (M : System Op Ans σ χ ε)
    (ok : Act χ ε → Pool Op Ans σ → Prop) (s₀ : Pool Op Ans σ) :
    Pool Op Ans σ → Prop
  | init : Reach M ok s₀ s₀
  | step {s s' : Pool Op Ans σ} (a : Act χ ε) :
      Reach M ok s₀ s → ok a s → M.step a s = some s' → Reach M ok s₀ s'

/-- No condition on the steps of a run. -/
def anyStep : Act χ ε → Pool Op Ans σ → Prop := fun _ _ => True

instance : ∀ (a : Act χ ε) (s : Pool Op Ans σ), Decidable (anyStep a s) :=
  fun _ _ => isTrue trivial

variable {M : System Op Ans σ χ ε} {ok : Act χ ε → Pool Op Ans σ → Prop} {s₀ s : Pool Op Ans σ}

/-- A run that meets a condition is a run. -/
theorem Reach.any (h : M.Reach ok s₀ s) : M.Reach anyStep s₀ s := by
  induction h with
  | init => exact .init
  | step a _ _ hstep ih => exact .step a ih trivial hstep

section

variable (M : System Op Ans σ χ ε) (ok : Act χ ε → Pool Op Ans σ → Prop) [∀ a s, Decidable (ok a s)]

/-- Run a list of scheduling decisions, as long as they meet `ok`. -/
def runAll : List (Act χ ε) → Pool Op Ans σ → Option (Pool Op Ans σ)
  | [], s => some s
  | a :: as, s => if ok a s then (M.step a s).bind (runAll as) else none

variable {M ok}

/-- A completed `runAll` is a run. -/
theorem reach_of_runAll {s₀ s s' : Pool Op Ans σ} {as : List (Act χ ε)}
    (hs : M.Reach ok s₀ s) (h : M.runAll ok as s = some s') :
    M.Reach ok s₀ s' := by
  induction as generalizing s with
  | nil =>
    obtain rfl : s = s' := Option.some.inj h
    exact hs
  | cons a as ih =>
    unfold runAll at h
    split at h
    next hok =>
      obtain ⟨m, hm, hrest⟩ := Option.bind_eq_some_iff.mp h
      exact ih (.step a hs hok hm) hrest
    · cases h

/-- What an evaluation of `runAll` finds at its end is reachable. -/
theorem exists_reach {s₀ : Pool Op Ans σ} {P : Pool Op Ans σ → Prop}
    (as : List (Act χ ε)) (h : ∃ s, M.runAll ok as s₀ = some s ∧ P s) :
    ∃ s, M.Reach ok s₀ s ∧ P s := by
  obtain ⟨s, hrun, hp⟩ := h
  exact ⟨s, reach_of_runAll .init hrun, hp⟩

end

theorem step_cases {a : Act χ ε} {s' : Pool Op Ans σ} (h : M.step a s = some s') :
    (∃ t c o k r sh, a = .run t c ∧ s.thr t = .op o k ∧ M.exec t c o s.sh = some (r, sh) ∧
      s' = ⟨sh, update s.thr t (k r)⟩) ∨
    (∃ t c, ∃ S T : Type, ∃ (body : S → Proc Op Ans (S ⊕ T)) (i : S) (k : T → Proc Op Ans Unit),
      a = .run t c ∧ s.thr t = .iter body i k ∧
      s' = ⟨s.sh, update s.thr t (Proc.unroll body i k)⟩) ∨
    (∃ e, a = .env e ∧ M.env e s = some s') := by
  cases a with
  | env e => exact .inr (.inr ⟨e, rfl, h⟩)
  | run t c =>
    simp only [step, runThread] at h
    split at h
    · cases h
    next o k hthr =>
      obtain ⟨⟨r, sh⟩, hex, rfl⟩ := Option.map_eq_some_iff.mp h
      exact .inl ⟨t, c, o, k, r, sh, rfl, hthr, hex, rfl⟩
    next S T body i k hthr =>
      obtain rfl := Option.some.inj h
      exact .inr (.inl ⟨t, c, S, T, body, i, k, rfl, hthr, rfl⟩)

section

variable {M : System Op Ans σ χ ε} {s₀ : Pool Op Ans σ} {x : σ} {t : Nat}
  {thr : Nat → Proc Op Ans Unit} {q : Proc Op Ans Unit}

theorem Reach.next {p : Pool Op Ans σ} {o : Op}
    {k : Ans o → Proc Op Ans Unit} {c : χ} {a : Ans o} {x' : σ}
    (h : M.Reach anyStep s₀ p) (ht : p.thr t = .op o k)
    (hex : M.exec t c o p.sh = some (a, x')) :
    M.Reach anyStep s₀ ⟨x', update p.thr t (k a)⟩ := by
  refine .step (.run t c) h trivial ?_
  simp only [System.step, runThread, ht, hex, Option.map_some]

/-- Thread `t`, about to run `q`, takes its next operation. -/
theorem Reach.op {o : Op} {k : Ans o → Proc Op Ans Unit} {c : χ} {a : Ans o}
    {x' : σ} (h : M.Reach anyStep s₀ ⟨x, update thr t q⟩)
    (hq : q = .op o k) (hex : M.exec t c o x = some (a, x')) :
    M.Reach anyStep s₀ ⟨x', update thr t (k a)⟩ := by
  have hnext := h.next ((update_self t q thr).trans hq) hex
  rwa [update_idem] at hnext

/-- Thread `t` goes round its loop. -/
theorem Reach.round {S T : Type} {body : S → Proc Op Ans (S ⊕ T)} {i : S}
    {k : T → Proc Op Ans Unit} (c : χ)
    (h : M.Reach anyStep s₀ ⟨x, update thr t q⟩)
    (hq : q = .iter body i k) :
    M.Reach anyStep s₀ ⟨x, update thr t (Proc.unroll body i k)⟩ := by
  refine .step (.run t c) h trivial ?_
  simp only [System.step, runThread, update_self, hq, update_idem]

end

variable {I : σ → Prop}

/-- What every operation that meets the condition and every move of the
environment keeps holds in every reachable state. -/
theorem Reach.kept (h : M.Reach ok s₀ s) (h₀ : I s₀.sh)
    (hop : ∀ {p : Pool Op Ans σ} {t c o k a x'}, p.thr t = .op o k →
      ok (.run t c) p → I p.sh → M.exec t c o p.sh = some (a, x') → I x')
    (henv : ∀ {e} {p p' : Pool Op Ans σ}, I p.sh → M.env e p = some p' → I p'.sh) : I s.sh := by
  induction h with
  | init => exact h₀
  | step a _ hok hstep ih =>
    rcases step_cases hstep with
      ⟨t, c, o, k, r, sh, rfl, ht, hex, rfl⟩ |
      ⟨t, c, S, T, body, i, k, rfl, ht, rfl⟩ | ⟨e, rfl, he⟩
    · exact hop ht hok ih hex
    · exact ih
    · exact henv ih he

/-- The same for what every operation keeps. -/
theorem Reach.shared (h : M.Reach ok s₀ s) (h₀ : I s₀.sh)
    (hop : ∀ {t c o a x x'}, I x → M.exec t c o x = some (a, x') → I x')
    (henv : ∀ {e} {p p' : Pool Op Ans σ}, I p.sh → M.env e p = some p' → I p'.sh) : I s.sh :=
  h.kept h₀ (fun _ _ hx hex => hop hx hex) henv

end System

-- ==== the outlines

/-- A discipline, an invariant, and the proof that single operations and
single moves of the environment keep both. `post` is what a thread's local
state satisfies once its program has returned. -/
structure Outline (M : System Op Ans σ χ ε)
    (ok : Act χ ε → Pool Op Ans σ → Prop) (L : Type)
    extends Discipline Op Ans L where
  post : L → Prop
  inv : σ → (Nat → L) → Prop
  op_step : ∀ {s : Pool Op Ans σ} {t : Nat} {c : χ} {o : Op}
      {k : Ans o → Proc Op Ans Unit} {a : Ans o} {sh : σ} {gh : Nat → L},
      s.thr t = .op o k → ok (.run t c) s → inv s.sh gh →
      allow (gh t) o → M.exec t c o s.sh = some (a, sh) →
      can (gh t) o a ∧ inv sh (update gh t (next (gh t) o a))
  env_step : ∀ {s s' : Pool Op Ans σ} {e : ε} {gh : Nat → L}, ok (.env e) s → inv s.sh gh →
      (∀ t, toDiscipline.Keeps (s.thr t) (fun l _ => post l) (gh t)) →
      M.env e s = some s' →
      ∃ gh', inv s'.sh gh' ∧ ∀ t, toDiscipline.Keeps (s'.thr t) (fun l _ => post l) (gh' t)

namespace Outline

variable {M : System Op Ans σ χ ε} {ok : Act χ ε → Pool Op Ans σ → Prop} {L : Type}

/-- Every thread keeps the discipline from the given local states, which
satisfy the invariant. -/
def Holds (O : Outline M ok L) (s : Pool Op Ans σ) (gh : Nat → L) : Prop :=
  O.inv s.sh gh ∧ ∀ t, O.toDiscipline.Keeps (s.thr t) (fun l _ => O.post l) (gh t)

/-- One step carries an outline over. -/
theorem holds_step (O : Outline M ok L) {a : Act χ ε} {s s' : Pool Op Ans σ}
    {gh : Nat → L} (h : O.Holds s gh) (hok : ok a s)
    (hstep : M.step a s = some s') : ∃ gh', O.Holds s' gh' := by
  obtain ⟨hinv, hthr⟩ := h
  rcases System.step_cases hstep with
    ⟨t, c, o, k, r, sh, rfl, ht, hex, rfl⟩ |
    ⟨t, c, S, T, body, i, k, rfl, ht, rfl⟩ | ⟨e, rfl, henv⟩
  · have hkeep := hthr t
    rw [ht, Discipline.keeps_op] at hkeep
    obtain ⟨hcan, hinv'⟩ := O.op_step ht hok hinv hkeep.1 hex
    refine ⟨_, hinv', fun u => ?_⟩
    by_cases hu : u = t
    · subst hu
      simpa using hkeep.2 r hcan
    · simpa [hu] using hthr u
  · -- a silent round: no local state moves
    refine ⟨gh, hinv, fun u => ?_⟩
    by_cases hu : u = t
    · subst hu
      have hkeep := hthr u
      rw [ht] at hkeep
      simpa using hkeep.unroll
    · simpa [hu] using hthr u
  · exact O.env_step hok hinv hthr henv

/-- An outline that holds at the start holds in every reachable state. -/
theorem sound (O : Outline M ok L) {s₀ s : Pool Op Ans σ} {gh₀ : Nat → L}
    (h₀ : O.Holds s₀ gh₀) (h : M.Reach ok s₀ s) : ∃ gh, O.Holds s gh := by
  induction h with
  | init => exact ⟨gh₀, h₀⟩
  | step a _ hok hstep ih =>
    obtain ⟨gh, hgh⟩ := ih
    exact O.holds_step hgh hok hstep

/-- The operation a thread is about to issue is one its local state allows. -/
theorem Holds.allow {O : Outline M ok L} {s : Pool Op Ans σ} {gh : Nat → L}
    (h : O.Holds s gh) {t : Nat} {o : Op} {k : Ans o → Proc Op Ans Unit}
    (ht : s.thr t = .op o k) : O.allow (gh t) o := by
  have hkeep := h.2 t
  rw [ht, Discipline.keeps_op] at hkeep
  exact hkeep.1

end Outline

-- ==== census

/-- Exactly `n` threads have a local state in `P`. -/
def Census {L : Type} (P : L → Prop) (gh : Nat → L) (n : Nat) : Prop :=
  ∃ S : Finset Nat, (∀ t, t ∈ S ↔ P (gh t)) ∧ S.card = n

namespace Census

variable {L : Type} {P : L → Prop} {gh : Nat → L} {n t : Nat} {l : L}

theorem zero (h : ∀ t, ¬ P (gh t)) : Census P gh 0 :=
  ⟨∅, fun t => by simp [h t], rfl⟩

theorem same (h : Census P gh n) (hl : P l ↔ P (gh t)) : Census P (update gh t l) n := by
  obtain ⟨S, hS, hn⟩ := h
  refine ⟨S, fun u => ?_, hn⟩
  by_cases hu : u = t
  · subst hu
    simp [hS u, hl]
  · simp [hu, hS u]

theorem enter (h : Census P gh n) (hl : P l) (ht : ¬ P (gh t)) :
    Census P (update gh t l) (n + 1) := by
  obtain ⟨S, hS, rfl⟩ := h
  refine ⟨insert t S, fun u => ?_, ?_⟩
  · by_cases hu : u = t
    · subst hu
      simp [hl]
    · simp [hu, hS u]
  · exact Finset.card_insert_of_notMem fun hm => ht ((hS t).mp hm)

theorem leave (h : Census P gh n) (hl : ¬ P l) (ht : P (gh t)) :
    0 < n ∧ Census P (update gh t l) (n - 1) := by
  obtain ⟨S, hS, rfl⟩ := h
  have hmem : t ∈ S := (hS t).mpr ht
  refine ⟨Finset.card_pos.mpr ⟨t, hmem⟩, S.erase t, fun u => ?_, ?_⟩
  · by_cases hu : u = t
    · subst hu
      simp [hl]
    · simp [hu, hS u]
  · exact Finset.card_erase_of_mem hmem

/-- A count of zero counts nobody. -/
theorem not_of_zero (h : Census P gh 0) (t : Nat) : ¬ P (gh t) := by
  obtain ⟨S, hS, h0⟩ := h
  intro ht
  have hmem := (hS t).mpr ht
  rw [Finset.card_eq_zero.mp h0] at hmem
  simp at hmem

/-- A positive count counts somebody. -/
theorem exists_of_pos (h : Census P gh n) (hn : 0 < n) : ∃ t, P (gh t) := by
  obtain ⟨S, hS, rfl⟩ := h
  obtain ⟨t, ht⟩ := Finset.card_pos.mp hn
  exact ⟨t, (hS t).mp ht⟩

end Census

end Conc
