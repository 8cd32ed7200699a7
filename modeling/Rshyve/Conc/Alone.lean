/-
# A program that runs alone

The other reading of a program (`Conc.Proc`): one thread, and a handler that
answers every operation out of the state and moves the state. What the
surroundings decide is part of the state, as a supply of answers, so a run
is a function of its start and every possible run is the run of some start.

`eval` runs a program for a number of steps; nothing comes back from one
that needs more. Two ways to reason about it:

- `alone` is the handler as a discipline over the whole state, so the rules
  for `Keeps` speak about runs that return (`Keeps.eval`);
- `Returns` also says that the program returns. Its loop rule asks for a
  variant.
-/
import Rshyve.Conc.Proc

namespace Conc

/-- The answer to an operation, and the state after it. -/
abbrev Handler (Op : Type) (Ans : Op → Type) (σ : Type) : Type :=
  (o : Op) → σ → Ans o × σ

namespace Proc

variable {Op : Type} {Ans : Op → Type} {σ R R' S T : Type}

/-- Run a program for at most `n` steps. -/
def eval (f : Handler Op Ans σ) : Nat → Proc Op Ans R → σ → Option (R × σ)
  | _, .ret r, s => some (r, s)
  | 0, .op _ _, _ => none
  | 0, .iter _ _ _, _ => none
  | n + 1, .op o k, s => eval f n (k (f o s).1) (f o s).2
  | n + 1, .iter body i k, s => eval f n (unroll body i k) s

variable {f : Handler Op Ans σ}

@[simp] theorem eval_ret (n : Nat) (r : R) (s : σ) :
    (ret r : Proc Op Ans R).eval f n s = some (r, s) := by
  cases n <;> rfl

variable {n m : Nat} {p : Proc Op Ans R}

theorem eval_mono {s : σ} {x : R × σ}
    (h : p.eval f n s = some x) (hm : n ≤ m) : p.eval f m s = some x := by
  induction n generalizing p s m with
  | zero =>
    cases p with
    | ret r => exact (eval_ret m r s).trans h
    | op o k => cases h
    | iter body i k => cases h
  | succ n ih =>
    obtain ⟨m, rfl⟩ : ∃ m', m = m' + 1 := ⟨m - 1, by omega⟩
    cases p with
    | ret r => exact h
    | op o k => exact ih (p := k (f o s).1) h (by omega)
    | iter body i k => exact ih (p := unroll body i k) h (by omega)

theorem bind_assoc {R'' : Type} (p : Proc Op Ans R) (g : R → Proc Op Ans R')
    (h : R' → Proc Op Ans R'') :
    (p.bind g).bind h = p.bind fun r => (g r).bind h := by
  induction p with
  | ret r => rfl
  | op o k ih => simp only [bind, ih]
  | iter body i k _ ih => simp only [bind, ih]

theorem unroll_bind (body : S → Proc Op Ans (S ⊕ T)) (i : S)
    (k : T → Proc Op Ans R) (g : R → Proc Op Ans R') :
    (unroll body i k).bind g = unroll body i fun t => (k t).bind g := by
  unfold unroll
  rw [bind_assoc]
  congr 1
  funext x
  cases x with
  | inl i' => rfl
  | inr t => rfl

theorem eval_bind {g : R → Proc Op Ans R'}
    {s t : σ} {r : R} {x : R' × σ} (hp : p.eval f n s = some (r, t))
    (hg : (g r).eval f m t = some x) :
    (p.bind g).eval f (n + m) s = some x := by
  induction n generalizing p s with
  | zero =>
    cases p with
    | ret r =>
      cases hp
      exact eval_mono hg (by omega)
    | op o k => cases hp
    | iter body i k => cases hp
  | succ n ih =>
    cases p with
    | ret r' =>
      cases hp
      exact eval_mono hg (by omega)
    | op o k =>
      rw [Nat.succ_add]
      exact ih hp
    | iter body i k =>
      rw [Nat.succ_add]
      show eval f (n + m) (unroll body i fun t => (k t).bind g) s = some x
      rw [← unroll_bind]
      exact ih hp

/-- The program returns from `s`, and `Q` holds then. -/
def Returns (f : Handler Op Ans σ) (p : Proc Op Ans R) (Q : σ → R → Prop) (s : σ) : Prop :=
  ∃ n r s', p.eval f n s = some (r, s') ∧ Q s' r

section Returns

variable {s : σ}

variable {p : Proc Op Ans R} {Q : σ → R → Prop}

/-- What holds at the end of a program that returns holds however many steps
it is given. -/
theorem Returns.eval {n : Nat} {r : R}
    {s' : σ} (h : Returns f p Q s) (he : p.eval f n s = some (r, s')) :
    Q s' r := by
  obtain ⟨m, r', t, hm, hQ⟩ := h
  have hsame : (r, s') = (r', t) := by
    have hr := eval_mono he (Nat.le_add_right n m)
    have hl := eval_mono hm (Nat.le_add_left m n)
    exact Option.some.inj (hr.symm.trans hl)
  cases hsame
  exact hQ

theorem Returns.mono {Q' : σ → R → Prop}
    (h : Returns f p Q s) (hQ : ∀ s r, Q s r → Q' s r) : Returns f p Q' s := by
  obtain ⟨n, r, s', he, hq⟩ := h
  exact ⟨n, r, s', he, hQ s' r hq⟩

theorem returns_ret {r : R} (h : Q s r) : Returns f (ret r) Q s := ⟨0, r, s, rfl, h⟩

theorem returns_op {o : Op} {k : Ans o → Proc Op Ans R}
    (h : Returns f (k (f o s).1) Q (f o s).2) : Returns f (.op o k) Q s := by
  obtain ⟨n, r, s', he, hQ⟩ := h
  exact ⟨n + 1, r, s', he, hQ⟩

theorem returns_call {o : Op} {Q : σ → Ans o → Prop}
    (h : Q (f o s).2 (f o s).1) : Returns f (.call o) Q s :=
  returns_op (returns_ret h)

theorem Returns.seq {g : R → Proc Op Ans R'}
    {Q : σ → R' → Prop} (h : Returns f p (fun s r => Returns f (g r) Q s) s) :
    Returns f (p >>= g) Q s := by
  obtain ⟨n, r, t, hn, m, r', t', hm, hQ⟩ := h
  exact ⟨n + m, r', t', eval_bind hn hm, hQ⟩

theorem Returns.tryThen {ε : Type} {x : ExceptT ε (Proc Op Ans) R}
    {g : R → ExceptT ε (Proc Op Ans) R'} {Q : σ → Except ε R' → Prop}
    (h : Returns f x.run (fun s r =>
      match r with
      | .ok a => Returns f (g a).run Q s
      | .error e => Q s (.error e)) s) : Returns f (x >>= g).run Q s := by
  refine Returns.seq (p := x.run) (h.mono ?_)
  intro s r hr
  cases r with
  | ok a => exact hr
  | error e => exact returns_ret hr

/-- The rule of unbounded loops: an invariant, and a variant that every
round that goes on makes smaller. -/
theorem returns_loop {body : S → Proc Op Ans (S ⊕ T)} {i : S}
    {Q : σ → T → Prop} (J : S → σ → Prop) (μ : S → σ → Nat) (h0 : J i s)
    (hround : ∀ i s, J i s → Returns f (body i) (fun s' x =>
      match x with
      | .inl i' => J i' s' ∧ μ i' s' < μ i s
      | .inr t => Q s' t) s) :
    Returns f (.loop body i) Q s := by
  induction hμ : μ i s using Nat.strong_induction_on generalizing i s with
  | h v ih =>
    obtain ⟨n, x, s', he, hx⟩ := hround i s h0
    cases x with
    | inl i' =>
      obtain ⟨m, t, s'', hm, hQ⟩ :=
        ih (μ i' s') (hμ ▸ hx.2) hx.1 rfl
      exact ⟨n + m + 1, t, s'', eval_bind he hm, hQ⟩
    | inr t => exact ⟨n + 0 + 1, t, s', eval_bind he rfl, hx⟩

/-- A loop over a list, with what is left of it in the invariant. -/
theorem returns_forM {α : Type} {g : α → Proc Op Ans PUnit} {xs : List α}
    (J : List α → σ → Prop) {Q : σ → PUnit → Prop} (h0 : J xs s)
    (hround : ∀ x xs s, J (x :: xs) s → Returns f (g x) (fun s' _ => J xs s') s)
    (hend : ∀ s, J [] s → Q s ⟨⟩) : Returns f (xs.forM g) Q s := by
  induction xs generalizing s with
  | nil => exact returns_ret (hend s h0)
  | cons x xs ih => exact Returns.seq ((hround x xs s h0).mono fun _ _ h => ih h)

end Returns

end Proc

-- ==== runs that may not return

namespace Discipline

variable {Op : Type} {Ans : Op → Type} {σ R : Type}

/-- The handler as a discipline on the whole state: every operation is
allowed, and the answer is the handler's. -/
def alone (f : Handler Op Ans σ) : Discipline Op Ans σ where
  allow _ _ := True
  can s o a := a = (f o s).1
  next s o _ := (f o s).2

variable {f : Handler Op Ans σ} {s s' : σ}

theorem keeps_alone {o : Op} {Q : σ → Ans o → Prop}
    (h : Q (f o s).2 (f o s).1) : (alone f).Keeps (.call o) Q s :=
  ⟨trivial, fun _ ha => ha ▸ h⟩

/-- A run that returns ends as the program was shown to. -/
theorem Keeps.eval {n : Nat} {p : Proc Op Ans R} {Q : σ → R → Prop} {r : R}
    (h : (alone f).Keeps p Q s) (he : p.eval f n s = some (r, s')) :
    Q s' r := by
  induction n generalizing p s with
  | zero =>
    cases p with
    | ret r =>
      cases he
      exact h
    | op o k => cases he
    | iter body i k => cases he
  | succ n ih =>
    cases p with
    | ret r =>
      cases he
      exact h
    | op o k => exact ih (h.2 _ rfl) he
    | iter body i k => exact ih h.unroll he

end Discipline

end Conc
