/-
# Programs as trees of atomic operations

Concurrent code is modelled as a *program*: a tree whose nodes are atomic
operations (one critical section, one atomic load or store, one system call)
and whose branches are the answers the operation can come back with. A
program fixes no meaning for its operations. A system (`Conc.Pool`) does: it
says which answers an operation can get in a shared state, and what the
state is afterwards. Everything between two operations is local to the
thread and is ordinary Lean code, so a source function embeds as a `do`
block that reads like the source.

Loops whose length the code does not bound are a node of their own (`iter`):
an inductive tree could not hold their unrolling. Unrolling one round is a
silent step of the system.

# Disciplines

A `Discipline` is a local protocol: from a thread's local state it says
which operations the thread may issue (`allow`), which answers it has to be
ready for (`can`), and what the local state is after an answer (`next`).
`Keeps D p Q l` says that program `p`, started in local state `l`, only ever
issues allowed operations, whatever the answers, and ends with `Q`. It is a
weakest precondition over the tree, so it is proved function by function:
`Keeps.bind` composes, `keeps_loop` asks a loop for an invariant. What the
discipline buys is in `Conc.Pool`: a shared invariant has to be checked once
per operation, never once per program point.

Much code asks for no invariant: it has no loops, or every round of a loop
comes back to where the loop began. `Steady` is `Keeps` for such code. It is
a fold over the tree with an equation for every combinator, so `simp` runs a
given program. `Only F p` is the case without local states: `p` issues
operations in `F` alone, and so it stays wherever each of these does
(`stays_only`).
-/
import Mathlib

namespace Conc

-- ==== the programs

/-- A program: return, one operation and a continuation on its answer, or an
unbounded loop with a continuation on its result. The body of a loop ends
in `.inl s` to go round again with state `s` and in `.inr t` to leave. -/
inductive Proc (Op : Type) (Ans : Op → Type) : Type → Type 1
  | ret {R : Type} (r : R) : Proc Op Ans R
  | op {R : Type} (o : Op) (k : Ans o → Proc Op Ans R) : Proc Op Ans R
  | iter {S T R : Type} (body : S → Proc Op Ans (S ⊕ T)) (s : S)
      (k : T → Proc Op Ans R) : Proc Op Ans R

namespace Proc

variable {Op : Type} {Ans : Op → Type} {R R' S T : Type}

/-- Sequencing: the continuation is grafted at every leaf. -/
def bind {R R' : Type} : Proc Op Ans R → (R → Proc Op Ans R') → Proc Op Ans R'
  | .ret r, f => f r
  | .op o k, f => .op o fun a => (k a).bind f
  | .iter body s k, f => .iter body s fun t => (k t).bind f

instance : Monad (Proc Op Ans) where
  pure := .ret
  bind := .bind

/-- One operation, returning its answer. -/
def call (o : Op) : Proc Op Ans (Ans o) := .op o .ret

/-- An unbounded loop, returning its result. -/
def loop (body : S → Proc Op Ans (S ⊕ T)) (s : S) : Proc Op Ans T :=
  .iter body s .ret

/-- An unbounded loop of rounds that can fail. -/
def loopE {ε : Type} (round : S → ExceptT ε (Proc Op Ans) (S ⊕ T)) (s : S) :
    ExceptT ε (Proc Op Ans) T :=
  ExceptT.mk (loop (fun s => do
    match ← (round s).run with
    | .error e => pure (.inr (.error e))
    | .ok (.inl s') => pure (.inl s')
    | .ok (.inr t) => pure (.inr (.ok t))) s)

/-- One round of a loop, followed by the loop again or by what comes after
it. -/
def unroll (body : S → Proc Op Ans (S ⊕ T)) (s : S) (k : T → Proc Op Ans R) : Proc Op Ans R :=
  (body s).bind fun
    | .inl s' => .iter body s' k
    | .inr t => k t

/-- The operation a program is about to issue, if its head is one. -/
def head? {R : Type} : Proc Op Ans R → Option Op
  | .op o _ => some o
  | _ => none

theorem op_of_head? {p : Proc Op Ans R} {o : Op} (h : p.head? = some o) : ∃ k, p = .op o k := by
  cases p with
  | ret _ => cases h
  | iter body i k => cases h
  | op o' k =>
    obtain rfl : o' = o := Option.some.inj h
    exact ⟨k, rfl⟩

/-- The program has returned. -/
def isDone {R : Type} : Proc Op Ans R → Bool
  | .ret _ => true
  | _ => false

end Proc

-- ==== disciplines

/-- A thread-local protocol on operations and answers. -/
structure Discipline (Op : Type) (Ans : Op → Type) (L : Type) where
  /-- the operations a thread may issue from a local state -/
  allow : L → Op → Prop
  /-- the answers the system can give it there -/
  can : L → (o : Op) → Ans o → Prop
  /-- the local state once the answer is in -/
  next : L → (o : Op) → Ans o → L

namespace Discipline

variable {Op : Type} {Ans : Op → Type} {L : Type}

/-- `p` keeps the discipline from local state `l` and ends in `Q`. A loop
keeps it when some invariant on its state and the local state does. -/
def Keeps (D : Discipline Op Ans L) {R : Type} : Proc Op Ans R → (L → R → Prop) → L → Prop
  | .ret r, Q, l => Q l r
  | .op o k, Q, l =>
    D.allow l o ∧ ∀ a, D.can l o a → D.Keeps (k a) Q (D.next l o a)
  | .iter (S := S) body s k, Q, l =>
    ∃ J : S → L → Prop, J s l ∧ ∀ s l, J s l → D.Keeps (body s) (fun l x =>
        match x with
        | .inl s' => J s' l
        | .inr t => D.Keeps (k t) Q l) l

variable {D : Discipline Op Ans L} {R R' S T : Type} {l : L}

@[simp] theorem keeps_ret {r : R} {Q : L → R → Prop} :
    D.Keeps (.ret r) Q l ↔ Q l r := Iff.rfl

@[simp] theorem keeps_op {o : Op} {k : Ans o → Proc Op Ans R}
    {Q : L → R → Prop} :
    D.Keeps (.op o k) Q l ↔ D.allow l o ∧ ∀ a, D.can l o a → D.Keeps (k a) Q (D.next l o a) :=
  Iff.rfl

@[simp] theorem keeps_call {o : Op} {Q : L → Ans o → Prop} :
    D.Keeps (.call o) Q l ↔ D.allow l o ∧ ∀ a, D.can l o a → Q (D.next l o a) a := Iff.rfl

variable {p : Proc Op Ans R}

theorem Keeps.mono {Q Q' : L → R → Prop} (h : D.Keeps p Q l) (hQ : ∀ l r, Q l r → Q' l r) :
    D.Keeps p Q' l := by
  induction p generalizing l with
  | ret r => exact hQ _ _ h
  | op o k ih => exact ⟨h.1, fun a ha => ih a (h.2 a ha) hQ⟩
  | iter body s k ihb ihk =>
    obtain ⟨J, hJ, hb⟩ := h
    refine ⟨J, hJ, fun s l hs => ihb s (hb s l hs) ?_⟩
    intro l x hx
    cases x with
    | inl s' => exact hx
    | inr t => exact ihk t hx hQ

theorem keeps_ite {c : Prop} [Decidable c] {q : Proc Op Ans R}
    {Q : L → R → Prop} (hp : c → D.Keeps p Q l) (hq : ¬ c → D.Keeps q Q l) :
    D.Keeps (if c then p else q) Q l := by
  split
  · exact hp ‹_›
  · exact hq ‹_›

theorem Keeps.bind {f : R → Proc Op Ans R'} {Q : L → R' → Prop}
    (h : D.Keeps p (fun l r => D.Keeps (f r) Q l) l) :
    D.Keeps (p.bind f) Q l := by
  induction p generalizing l with
  | ret r => exact h
  | op o k ih => exact ⟨h.1, fun a ha => ih a (h.2 a ha)⟩
  | iter body s k ihb ihk =>
    obtain ⟨J, hJ, hb⟩ := h
    refine ⟨J, hJ, fun s l hs => (hb s l hs).mono ?_⟩
    intro l x hx
    cases x with
    | inl s' => exact hx
    | inr t => exact ihk t hx

theorem Keeps.seq {f : R → Proc Op Ans R'} {Q : L → R' → Prop}
    (h : D.Keeps p (fun l r => D.Keeps (f r) Q l) l) :
    D.Keeps (p >>= f) Q l := Keeps.bind h

/-- The rule of sequencing after a part with a rule of its own. -/
theorem Keeps.comp {f : R → Proc Op Ans R'} {P : L → R → Prop}
    {Q : L → R' → Prop} (h : D.Keeps p P l)
    (hf : ∀ l r, P l r → D.Keeps (f r) Q l) : D.Keeps (p >>= f) Q l :=
  Keeps.seq (h.mono hf)

variable {body : S → Proc Op Ans (S ⊕ T)} {s : S}

/-- The rule of unbounded loops: an invariant that one round keeps. -/
theorem keeps_loop {Q : L → T → Prop} (J : S → L → Prop) (h0 : J s l)
    (hround : ∀ s l, J s l →
      D.Keeps (body s) (fun l x => match x with | .inl s' => J s' l | .inr t => Q l t) l) :
    D.Keeps (.loop body s) Q l := ⟨J, h0, hround⟩

/-- Unrolling a loop by one round keeps what the loop keeps. -/
theorem Keeps.unroll {k : T → Proc Op Ans R} {Q : L → R → Prop} (h : D.Keeps (.iter body s k) Q l) :
    D.Keeps (Proc.unroll body s k) Q l := by
  obtain ⟨J, hJ, hb⟩ := h
  refine Keeps.bind ((hb s l hJ).mono ?_)
  intro l x hx
  cases x with
  | inl s' => exact ⟨J, hx, hb⟩
  | inr t => exact hx

-- ==== steady code

/-- `p` keeps the discipline and ends in `Q`, and every round of a loop comes
back to where the loop began. There is no invariant to find: `simp` runs a
given program. -/
def Steady (D : Discipline Op Ans L) {R : Type} :
    Proc Op Ans R → (L → R → Prop) → L → Prop
  | .ret r, Q, l => Q l r
  | .op o k, Q, l =>
    D.allow l o ∧ ∀ a, D.can l o a → D.Steady (k a) Q (D.next l o a)
  | .iter body _ k, Q, l => ∀ s, D.Steady (body s) (fun l' x =>
      match x with
      | .inl _ => l' = l
      | .inr t => D.Steady (k t) Q l') l

section Steady

variable {Q : L → R → Prop}

@[simp] theorem steady_pure {r : R} :
    D.Steady (pure r) Q l ↔ Q l r := Iff.rfl

theorem steady_call {o : Op} {Q : L → Ans o → Prop} :
    D.Steady (.call o) Q l ↔
      D.allow l o ∧ ∀ a, D.can l o a → Q (D.next l o a) a := Iff.rfl

@[simp] theorem steady_loop {Q : L → T → Prop} :
    D.Steady (.loop body s) Q l ↔ ∀ s, D.Steady (body s) (fun l' x =>
      match x with
      | .inl _ => l' = l
      | .inr t => Q l' t) l := Iff.rfl

@[simp] theorem steady_bind {f : R → Proc Op Ans R'} {Q : L → R' → Prop} :
    D.Steady (p >>= f) Q l ↔ D.Steady p (fun l r => D.Steady (f r) Q l) l := by
  show D.Steady (p.bind f) Q l ↔ _
  induction p generalizing l with
  | ret r => exact Iff.rfl
  | op o k ih => simp [Proc.bind, Steady, ih]
  | iter body s k _ ih => simp [Proc.bind, Steady, ih]

@[simp] theorem steady_discard {Q : L → Unit → Prop} :
    D.Steady (discard p) Q l ↔ D.Steady p (fun l _ => Q l ()) l :=
  steady_bind

@[simp] theorem steady_map {f : R → R'} {Q : L → R' → Prop} :
    D.Steady (f <$> p) Q l ↔ D.Steady p (fun l r => Q l (f r)) l :=
  steady_bind

@[simp] theorem steady_ite {c : Prop} [Decidable c] {q : Proc Op Ans R} :
    D.Steady (if c then p else q) Q l ↔
      if c then D.Steady p Q l else D.Steady q Q l := by
  split <;> rfl

theorem Steady.mono {Q' : L → R → Prop} (h : D.Steady p Q l)
    (hQ : ∀ l r, Q l r → Q' l r) : D.Steady p Q' l := by
  induction p generalizing l with
  | ret r => exact hQ _ _ h
  | op o k ih => exact ⟨h.1, fun a ha => ih a (h.2 a ha) hQ⟩
  | iter body s k ihb ihk =>
    refine fun s => ihb s (h s) fun l x hx => ?_
    cases x with
    | inl s' => exact hx
    | inr t => exact ihk t hx hQ

theorem Steady.keeps (h : D.Steady p Q l) : D.Keeps p Q l := by
  induction p generalizing l with
  | ret r => exact h
  | op o k ih => exact ⟨h.1, fun a ha => ih a (h.2 a ha)⟩
  | iter body s k ihb ihk =>
    refine ⟨fun _ l' => l' = l, rfl, ?_⟩
    rintro s _ rfl
    refine (ihb s (h s)).mono fun l x hx => ?_
    cases x with
    | inl s' => exact hx
    | inr t => exact ihk t hx

/-- The operations in `F`, and no local state. -/
def of (F : Op → Prop) : Discipline Op Ans Unit :=
  ⟨fun _ => F, fun _ _ _ => True, fun _ _ _ => ()⟩

@[simp] theorem steady_of {F : Op → Prop} {o : Op} {Q : Unit → Ans o → Prop} :
    (of F).Steady (.call o) Q () ↔ F o ∧ ∀ a, Q () a := by
  simp [steady_call, of]

/-- Every operation the program can come to is in `F`, and what it returns is
in `Q`. -/
abbrev Only (F : Op → Prop) (p : Proc Op Ans R) (Q : R → Prop) : Prop :=
  (of F).Steady p (fun _ r => Q r) ()

/-- Code that can fail goes on with either outcome. -/
theorem forall_except {ε α : Type} {P : Except ε α → Prop} :
    (∀ r, P r) ↔ (∀ a, P (.ok a)) ∧ ∀ e, P (.error e) :=
  ⟨fun h => ⟨fun a => h (.ok a), fun e => h (.error e)⟩,
    fun h r => r.casesOn h.2 h.1⟩

/-- A part whose result does not matter. -/
theorem only_of {F : Op → Prop} {Q : Unit → R → Prop} {u : Unit}
    (h : Only F p fun _ => True) (hQ : ∀ r, Q () r) : (of F).Steady p Q u :=
  h.mono fun _ r _ => hQ r

end Steady

-- ==== fallible code

variable {ε α β : Type}

/-- What is left to do after a fallible part: continue with its value, or
leave with its error. -/
def Try (Q : L → Except ε β → Prop) (K : L → α → Prop) : L → Except ε α → Prop
  | l, .ok a => K l a
  | l, .error e => Q l (.error e)

variable {Q : L → Except ε β → Prop}

variable {K : L → α → Prop}

@[simp] theorem try_ok {a : α} :
    Try Q K l (.ok a) ↔ K l a := Iff.rfl

@[simp] theorem try_error {e : ε} :
    Try Q K l (.error e) ↔ Q l (.error e) := Iff.rfl

theorem try_iff {r : Except ε α} : Try Q K l r ↔
    (∀ a, r = .ok a → K l a) ∧ ∀ e, r = .error e → Q l (.error e) := by
  cases r <;> simp

variable {f : α → ExceptT ε (Proc Op Ans) β}

/-- `simp` comes to this one without `ExceptT.run_bind`. -/
@[simp] theorem steady_andThen {p : ExceptT ε (Proc Op Ans) α} :
    D.Steady (p >>= f).run Q l ↔
      D.Steady p.run (Try Q fun l a => D.Steady (f a).run Q l) l := by
  refine steady_bind.trans (iff_of_eq (congrArg (D.Steady p.run · l) ?_))
  funext l r
  cases r <;> rfl

@[simp] theorem steady_run_ite {c : Prop} [Decidable c]
    {p q : ExceptT ε (Proc Op Ans) β} :
    D.Steady (if c then p else q).run Q l ↔
      if c then D.Steady p.run Q l else D.Steady q.run Q l := by
  split <;> rfl

/-- The rule of sequencing for code that can leave early with an error. -/
theorem Keeps.andThen {p : ExceptT ε (Proc Op Ans) α}
    (h : D.Keeps p.run (Try Q fun l a => D.Keeps (f a).run Q l) l) :
    D.Keeps (p >>= f).run Q l := by
  refine Keeps.bind (h.mono ?_)
  intro l r hr
  cases r with
  | ok a => exact hr
  | error e => exact hr

/-- The sequencing rule with both exits spelled out. -/
theorem Keeps.tryThen {p : ExceptT ε (Proc Op Ans) α}
    {P : L → Except ε α → Prop} (h : D.Keeps p.run P l)
    (herr : ∀ l e, P l (.error e) → Q l (.error e))
    (hok : ∀ l a, P l (.ok a) → D.Keeps (f a).run Q l) :
    D.Keeps (p >>= f).run Q l := by
  refine Keeps.andThen (h.mono ?_)
  intro l r hr
  cases r with
  | ok a => exact hok l a hr
  | error e => exact herr l e hr

/-- A check in the middle of code that can leave early. -/
theorem Keeps.ofExcept {r : Except ε α} (herr : ∀ e, r = .error e → Q l (.error e))
    (hok : ∀ a, r = .ok a → D.Keeps (f a).run Q l) :
    D.Keeps (ExceptT.mk (pure r : Proc Op Ans (Except ε α)) >>= f).run Q l := by
  cases r with
  | ok a => exact hok a rfl
  | error e => exact herr e rfl

/-- A part that cannot fail, inside code that can. -/
theorem Keeps.lift {p : Proc Op Ans α} {Q : L → Except ε α → Prop}
    (h : D.Keeps p (fun l a => Q l (.ok a)) l) :
    D.Keeps (ExceptT.lift p).run Q l :=
  Keeps.bind h

/-- The rule of unbounded loops for rounds that can fail. -/
theorem keeps_loopE {round : S → ExceptT ε (Proc Op Ans) (S ⊕ T)}
    {Q : L → Except ε T → Prop} (J : S → L → Prop) (h0 : J s l)
    (hround : ∀ s l, J s l → D.Keeps (round s).run (fun l x =>
      match x with
      | .error e => Q l (.error e)
      | .ok (.inl s') => J s' l
      | .ok (.inr t) => Q l (.ok t)) l) :
    D.Keeps (Proc.loopE round s).run Q l := by
  refine keeps_loop J h0 fun s l hJ => (hround s l hJ).comp ?_
  intro l x hx
  cases x with
  | error e => exact hx
  | ok x =>
    cases x with
    | inl s' => exact hx
    | inr t => exact hx

-- ==== code that stays put

/-- From every local state in `J` the program keeps the discipline and comes
back to `J`, whatever it returns. Code that only moves data stays at
every single local state. -/
def Stays (D : Discipline Op Ans L) (J : L → Prop) (p : Proc Op Ans R) :
    Prop := ∀ l, J l → D.Keeps p (fun l _ => J l) l

variable {J : L → Prop}

theorem Stays.keeps {Q : L → R → Prop} (h : D.Stays J p) (hl : J l) (hQ : ∀ l r, J l → Q l r) :
    D.Keeps p Q l := (h l hl).mono hQ

theorem stays_ret {r : R} : D.Stays J (.ret r) := fun _ h => h

theorem stays_call {o : Op} (hallow : ∀ l, J l → D.allow l o)
    (hnext : ∀ l a, J l → D.can l o a → J (D.next l o a)) :
    D.Stays J (.call o) :=
  fun l hl => ⟨hallow l hl, fun a ha => hnext l a hl ha⟩

theorem Stays.seq {f : R → Proc Op Ans R'} (hp : D.Stays J p)
    (hf : ∀ r, D.Stays J (f r)) : D.Stays J (p >>= f) :=
  fun l hl => (hp l hl).comp fun l r hl => hf r l hl

theorem stays_ite {c : Prop} [Decidable c] {q : Proc Op Ans R}
    (hp : D.Stays J p) (hq : D.Stays J q) :
    D.Stays J (if c then p else q) :=
  fun l hl => keeps_ite (fun _ => hp l hl) fun _ => hq l hl

/-- A program of operations in `F` stays where each of these does. -/
theorem keeps_only {F : Op → Prop} {Q : Unit → R → Prop} {u : Unit}
    (h : (of F).Steady p Q u) (hF : ∀ o, F o → D.Stays J (.call o))
    (hl : J l) : D.Keeps p (fun l r => J l ∧ Q () r) l := by
  induction p generalizing l u with
  | ret r => exact ⟨hl, h⟩
  | op o k ih =>
    have ho := hF o h.1 l hl
    exact ⟨ho.1, fun a ha => ih a (h.2 a trivial) (ho.2 a ha)⟩
  | iter body s k ihb ihk =>
    refine ⟨fun _ l => J l, hl, fun s l hl => (ihb s (h s) hl).mono ?_⟩
    intro l x hx
    cases x with
    | inl s' => exact hx.1
    | inr t => exact ihk t hx.2 hx.1

theorem stays_only {F : Op → Prop} (h : Only F p fun _ => True)
    (hF : ∀ o, F o → D.Stays J (.call o)) : D.Stays J p :=
  fun _ hl => (keeps_only h hF hl).mono fun _ _ h => h.1

/-- Code that stays at one local state, and what follows it. -/
theorem Stays.followed {f : R → Proc Op Ans R'} {Q : L → R' → Prop} (hp : D.Stays (· = l) p)
    (hf : ∀ r, D.Keeps (f r) Q l) : D.Keeps (p >>= f) Q l := by
  refine (hp l rfl).comp fun l' r hl => ?_
  rw [hl]
  exact hf r

theorem Stays.andThen {p : ExceptT ε (Proc Op Ans) α} (hp : D.Stays J p.run)
    (hf : ∀ a, D.Stays J (f a).run) : D.Stays J (p >>= f).run := by
  intro l hl
  exact (hp l hl).tryThen (fun _ _ h => h) fun l a h => hf a l h

/-- Code that stays at one local state, then the rest. -/
theorem Keeps.after {p : ExceptT ε (Proc Op Ans) α} (hp : D.Stays (· = l) p.run)
    (herr : ∀ e, Q l (.error e)) (hf : ∀ a, D.Keeps (f a).run Q l) :
    D.Keeps (p >>= f).run Q l := by
  refine (hp l rfl).tryThen ?_ ?_
  · intro l' e hl
    rw [hl]
    exact herr e
  · intro l' a hl
    rw [hl]
    exact hf a

theorem stays_of (r : Except ε α) :
    D.Stays J (ExceptT.mk (pure r : Proc Op Ans (Except ε α))).run :=
  fun _ h => h

theorem Stays.lift {p : Proc Op Ans α} (hp : D.Stays J p) :
    D.Stays J (ExceptT.lift p : ExceptT ε (Proc Op Ans) α).run :=
  fun l hl => Keeps.lift (hp l hl)

/-- A loop over a list stays where every round does. -/
theorem stays_forM {xs : List α} {f : α → ExceptT ε (Proc Op Ans) PUnit}
    (hf : ∀ x ∈ xs, D.Stays J (f x).run) : D.Stays J (xs.forM f).run := by
  induction xs with
  | nil => exact fun _ h => h
  | cons x xs ih =>
    refine Stays.andThen (hf x List.mem_cons_self) fun _ => ?_
    exact ih fun y hy => hf y (List.mem_cons_of_mem x hy)

/-- An unbounded loop stays where every round does. -/
theorem stays_loop (hbody : ∀ s, D.Stays J (body s)) : D.Stays J (.loop body s) := by
  intro l hl
  refine keeps_loop (fun _ l => J l) hl fun s l h => ?_
  refine (hbody s l h).mono fun l x h => ?_
  cases x with
  | inl s' => exact h
  | inr t => exact h

end Discipline

end Conc
