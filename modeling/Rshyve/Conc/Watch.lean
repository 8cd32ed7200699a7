/-
# A ledger beside a run

Some properties of a run are about its past: how much was sent since a
connection was opened, what a thread has already done about a request. A
*ledger* holds that past. An observer brings it up to date after every
operation, from the operation, its answer and the state before it.

No thread reads the ledger: a step of the watched system is a step of the
plain one with the ledger brought up to date (`watch_exec_eq_some`).
-/
import Rshyve.Conc.Pool

namespace Conc

variable {Op : Type} {Ans : Op → Type} {σ χ ε H : Type}

namespace Pool

/-- The pool without its ledger. -/
def plain (p : Pool Op Ans (σ × H)) : Pool Op Ans σ := ⟨p.sh.1, p.thr⟩

/-- The pool with a ledger beside it. -/
def beside (p : Pool Op Ans σ) (l : H) : Pool Op Ans (σ × H) :=
  ⟨(p.sh, l), p.thr⟩

end Pool

namespace System

/-- The system with an observer that writes a ledger. -/
def watch (M : System Op Ans σ χ ε) (note : Nat → (o : Op) → Ans o → σ → H → H) :
    System Op Ans (σ × H) χ ε where
  exec t c o s :=
    (M.exec t c o s.1).map fun r => (r.1, (r.2, note t o r.1 s.1 s.2))
  env e p := (M.env e p.plain).map fun p' => p'.beside p.sh.2

variable {M : System Op Ans σ χ ε} {note : Nat → (o : Op) → Ans o → σ → H → H}
  {ok : Act χ ε → Pool Op Ans σ → Prop}

/-- One operation of the watched system. -/
theorem watch_exec_eq_some {t : Nat} {c : χ} {o : Op} {s s' : σ × H} {a : Ans o} :
    (M.watch note).exec t c o s = some (a, s') ↔
      M.exec t c o s.1 = some (a, s'.1) ∧ s'.2 = note t o a s.1 s.2 := by
  unfold watch
  rw [Option.map_eq_some_iff]
  constructor
  · rintro ⟨r, hr, heq⟩
    cases heq
    exact ⟨hr, rfl⟩
  · rintro ⟨hr, hl⟩
    exact ⟨_, hr, by rw [← hl]⟩

/-- What happens to the surroundings leaves the ledger as it is. -/
theorem watch_env_eq_some {e : ε} {p p' : Pool Op Ans (σ × H)} :
    (M.watch note).env e p = some p' ↔
      ∃ q, M.env e p.plain = some q ∧ p' = q.beside p.sh.2 := by
  unfold watch
  rw [Option.map_eq_some_iff]
  exact exists_congr fun q => and_congr_right fun _ => eq_comm

end System

end Conc
