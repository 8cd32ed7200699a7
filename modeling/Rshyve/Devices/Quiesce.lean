/-
# The quiesce gate

`QuiesceGate` of `vmm-devices/src/quiesce.rs`. Workers come by the gate before
each piece of work and park there while a pause or a drain holds it. Anybody
else can pause, resume, open or drop a drain scope, and ask whether the
workers are parked.

# What stands for what

- Every load and store is an operation, and the lock is a table of one lock.
  A wait on the condition variable gives the lock up and takes it back. It
  can end at any time, so notifying is left out. The count of drains ever
  started is for tests and is left out.
- `Atomic` is the condition that a locked section is not interrupted: while a
  thread has the lock, only that thread moves.

# The window

`pause` and `is_quiesced` do not take the lock. Between a worker's last look
at the gate and the moment it counts itself in, the count is too low by one.
`Atomic` closes this window to queries, and `query_in_window` is a run
without it.
-/
import Rshyve.Conc.Pool
import Rshyve.Conc.Locks

namespace Rshyve.Devices

open Conc Discipline Function
open Keeps (seq)

namespace QuiesceGate

-- ==== the gate

/-- The calls of everybody but the workers. -/
inductive Call where
  | pause
  | resume
  | drainScope
  | dropScope
  | isQuiesced
  | waitQuiesced
  deriving DecidableEq, Repr

inductive Op where
  | lock
  | unlock
  | loadPaused
  | storePaused (b : Bool)
  | loadDrains
  | addDrain
  | subDrain
  | loadActive
  | addActive
  | subActive
  /-- a piece of work -/
  | work
  | nextCall
  /-- whether the budget of a wait is used up -/
  | timedOut
  deriving DecidableEq, Repr

abbrev Ans : Op → Type
  | .loadPaused | .timedOut => Bool
  | .loadDrains => BitVec 64
  | .loadActive => Nat
  | .nextCall => Call
  | _ => Unit

abbrev Prog := Proc Op Ans

abbrev step (o : Op) : Prog (Ans o) := Proc.call o

def isPaused : Prog Bool := do
  if ← step .loadPaused then pure true
  else
    let drains ← step .loadDrains
    pure (drains != 0)

def parkIfPaused : Prog Unit := do
  if ← isPaused then
    step .lock
    step .subActive
    Proc.loop (fun _ : Unit => do
      if ← isPaused then
        step .unlock
        step .lock
        pure (.inl ())
      else pure (.inr ())) ()
    step .addActive
    step .unlock
  else pure ()

def worker : Prog Unit :=
  Proc.loop (fun _ : Unit => do
    parkIfPaused
    step .work
    pure (.inl ())) ()

def isQuiesced : Prog Bool := do
  let active ← step .loadActive
  pure (active == 0)

def waitQuiesced : Prog Bool := do
  step .lock
  Proc.loop (fun _ : Unit => do
    let active ← step .loadActive
    if active > 0 then
      if ← step .timedOut then pure (.inr ())
      else
        step .unlock
        step .lock
        pure (.inl ())
    else pure (.inr ())) ()
  let active ← step .loadActive
  step .unlock
  pure (active == 0)

def run : Call → Prog Unit
  | .pause => step (.storePaused true)
  | .resume => do
    step .lock
    step (.storePaused false)
    step .unlock
  | .drainScope => step .addDrain
  | .dropScope => do
    step .lock
    step .subDrain
    step .unlock
  | .isQuiesced => discard isQuiesced
  | .waitQuiesced => discard waitQuiesced

def client : Prog Unit :=
  Proc.loop (fun _ : Unit => do
    let c ← step .nextCall
    run c
    pure (.inl ())) ()

-- ==== the machine

structure Shared where
  paused : Bool
  /-- a `usize`, which wraps -/
  drains : BitVec 64
  active : Nat
  locks : Owners Unit

/-- Something holds the workers. -/
def Shared.held (s : Shared) : Prop := s.paused = true ∨ s.drains ≠ 0

structure Choice where
  call : Call
  timedOut : Bool

def Shared.withLocks (s : Shared) (o : Option (Owners Unit)) : Option (Unit × Shared) :=
  o.map fun locks => ((), { s with locks := locks })

def exec (t : Nat) (c : Choice) : (o : Op) → Shared → Option (Ans o × Shared)
  | .lock, s => s.withLocks (s.locks.acquire t ())
  | .unlock, s => s.withLocks (s.locks.release t ())
  | .loadPaused, s => some (s.paused, s)
  | .storePaused b, s => some ((), { s with paused := b })
  | .loadDrains, s => some (s.drains, s)
  | .addDrain, s => some ((), { s with drains := s.drains + 1 })
  | .subDrain, s => some ((), { s with drains := s.drains - 1 })
  | .loadActive, s => some (s.active, s)
  | .addActive, s => some ((), { s with active := s.active + 1 })
  | .subActive, s => some ((), { s with active := s.active - 1 })
  | .work, s => some ((), s)
  | .nextCall, s => some (c.call, s)
  | .timedOut, s => some (c.timedOut, s)

def machine : System Op Ans Shared Choice Empty := ⟨exec, nofun⟩

/-- `QuiesceGate::new(workers)`: the workers are the first threads. -/
def start (workers : Nat) : Pool Op Ans Shared where
  sh := ⟨false, 0, workers, fun _ => none⟩
  thr t := if t < workers then worker else client

/-- A locked section is one step. -/
def Atomic (a : Act Choice Empty) (p : Pool Op Ans Shared) : Prop :=
  match a with
  | .run t _ => p.sh.locks () = none ∨ p.sh.locks () = some t
  | .env e => e.elim

/-- The same, as long as something holds the gate. -/
def Held (a : Act Choice Empty) (p : Pool Op Ans Shared) : Prop :=
  Atomic a p ∧ p.sh.held

-- ==== the places

/-- Where a thread is, as far as the count and the lock go. -/
inductive Loc where
  /-- a worker that is counted, without and with the lock -/
  | counted
  | inside
  /-- a worker in the wait, which has given the lock up -/
  | parked
  /-- a worker that looks at the gate, and one that has found no pause -/
  | looking
  | unpaused
  /-- a worker that has found the gate open, and is not counted yet -/
  | passed
  /-- anybody else, without and with the lock -/
  | outside
  | holder
  deriving DecidableEq, Repr

namespace Loc

def isCounted : Loc → Bool
  | counted | inside => true
  | _ => false

def hasLock : Loc → Bool
  | inside | looking | unpaused | passed | holder => true
  | _ => false

def allow : Loc → Op → Bool
  | counted, .lock | counted, .loadPaused | counted, .loadDrains
  | counted, .work => true
  | inside, .subActive | inside, .unlock => true
  | parked, .lock => true
  | looking, .loadPaused | looking, .unlock => true
  | unpaused, .loadDrains => true
  | passed, .addActive => true
  | outside, .lock | outside, .loadActive | outside, .storePaused _
  | outside, .addDrain | outside, .nextCall => true
  | holder, .unlock | holder, .loadActive | holder, .storePaused _
  | holder, .subDrain | holder, .timedOut => true
  | _, _ => false

def next : Loc → (o : Op) → Ans o → Loc
  | counted, .lock, _ => inside
  | inside, .unlock, _ => counted
  | inside, .subActive, _ => looking
  | parked, .lock, _ => looking
  | looking, .unlock, _ => parked
  | looking, .loadPaused, paused => if paused then looking else unpaused
  | unpaused, .loadDrains, drains => if drains = 0 then passed else looking
  | passed, .addActive, _ => inside
  | outside, .lock, _ => holder
  | holder, .unlock, _ => outside
  | l, _, _ => l

end Loc

def rules : Discipline Op Ans Loc where
  allow l o := l.allow o = true
  can _ _ _ := True
  next := Loc.next

variable {Q : Loc → Bool → Prop}

theorem keeps_isPaused_counted (h : ∀ b, Q .counted b) : rules.Keeps isPaused Q .counted := by
  refine seq ⟨rfl, fun paused _ => ?_⟩
  cases paused with
  | true => exact h true
  | false => exact seq ⟨rfl, fun drains _ => h (drains != 0)⟩

theorem keeps_isPaused_looking (hheld : Q .looking true) (hopen : Q .passed false) :
    rules.Keeps isPaused Q .looking := by
  refine seq ⟨rfl, fun paused _ => ?_⟩
  cases paused with
  | true => exact hheld
  | false =>
    refine seq ⟨rfl, fun drains _ => ?_⟩
    by_cases h : drains = 0
    · subst h
      exact hopen
    · have hne : (drains != 0) = true := bne_iff_ne.mpr h
      show Q (if drains = 0 then .passed else .looking) (drains != 0)
      rw [if_neg h, hne]
      exact hheld

theorem keeps_parkIfPaused : rules.Keeps parkIfPaused (fun l _ => l = .counted) .counted := by
  refine seq (keeps_isPaused_counted fun paused => ?_)
  cases paused with
  | false => exact rfl
  | true =>
    refine seq ⟨rfl, fun _ _ => ?_⟩
    refine seq ⟨rfl, fun _ _ => ?_⟩
    refine seq (keeps_loop (fun _ l => l = .looking) rfl ?_)
    rintro _ _ rfl
    refine seq (keeps_isPaused_looking ?_ ?_)
    · refine seq ⟨rfl, fun _ _ => ?_⟩
      exact seq ⟨rfl, fun _ _ => rfl⟩
    · refine seq ⟨rfl, fun _ _ => ?_⟩
      exact ⟨rfl, fun _ _ => rfl⟩

theorem keeps_worker : rules.Keeps worker (fun _ _ => False) .counted := by
  refine keeps_loop (fun _ l => l = .counted) rfl ?_
  rintro _ _ rfl
  refine seq (keeps_parkIfPaused.mono ?_)
  rintro _ _ rfl
  exact seq ⟨rfl, fun _ _ => rfl⟩

theorem keeps_waitQuiesced : rules.Keeps waitQuiesced (fun l _ => l = .outside) .outside := by
  refine seq ⟨rfl, fun _ _ => ?_⟩
  refine seq (keeps_loop (fun _ l => l = .holder) rfl ?_)
  rintro _ _ rfl
  -- the last look at the count, from every way out of the wait
  have hlast : rules.Keeps (do
      let active ← step .loadActive
      step .unlock
      pure (active == 0)) (fun l _ => l = .outside) .holder := by
    refine seq ⟨rfl, fun _ _ => ?_⟩
    exact seq ⟨rfl, fun _ _ => rfl⟩
  refine seq ⟨rfl, fun active _ => ?_⟩
  rw [keeps_ret]
  split
  · refine seq ⟨rfl, fun out _ => ?_⟩
    cases out with
    | true => exact hlast
    | false =>
      refine seq ⟨rfl, fun _ _ => ?_⟩
      exact seq ⟨rfl, fun _ _ => rfl⟩
  · exact hlast

theorem keeps_run (c : Call) : rules.Keeps (run c) (fun l _ => l = .outside) .outside := by
  cases c with
  | pause => exact ⟨rfl, fun _ _ => rfl⟩
  | drainScope => exact ⟨rfl, fun _ _ => rfl⟩
  | resume =>
    refine seq ⟨rfl, fun _ _ => ?_⟩
    refine seq ⟨rfl, fun _ _ => ?_⟩
    exact ⟨rfl, fun _ _ => rfl⟩
  | dropScope =>
    refine seq ⟨rfl, fun _ _ => ?_⟩
    refine seq ⟨rfl, fun _ _ => ?_⟩
    exact ⟨rfl, fun _ _ => rfl⟩
  | isQuiesced =>
    refine Keeps.bind ?_
    exact seq ⟨rfl, fun _ _ => rfl⟩
  | waitQuiesced =>
    exact Keeps.bind (keeps_waitQuiesced.mono fun _ _ h => h)

theorem keeps_client : rules.Keeps client (fun _ _ => False) .outside := by
  refine keeps_loop (fun _ l => l = .outside) rfl ?_
  rintro _ _ rfl
  refine seq ⟨rfl, fun c _ => ?_⟩
  exact (keeps_run c).comp fun _ _ h => h

-- ==== the invariant

/-- The lock and the count are what the places say, and no pause comes while a
worker has found none and looks at the drains. -/
structure Inv (s : Shared) (gh : Nat → Loc) : Prop where
  tied : Tied s.locks (fun l _ => l.hasLock = true) gh
  count : Census (fun l => l.isCounted = true) gh s.active
  clear : ∀ t, gh t = .unpaused → s.paused = false

section

variable {s s' : Shared} {gh : Nat → Loc} {t : Nat} {c : Choice} {o : Op} {a : Ans o}

theorem Inv.hasLock_iff (h : Inv s gh) : s.locks () = some t ↔ (gh t).hasLock = true := h.tied () t

/-- Nobody is counted or about to be. -/
def Quiet (gh : Nat → Loc) : Prop :=
  ∀ t, (gh t).isCounted = false ∧ gh t ≠ .passed

variable (hallow : (gh t).allow o = true) (hex : exec t c o s = some (a, s'))
include hallow hex

/-- A thread is on its way to the drains only after it has found no pause. -/
theorem paused_of_next (hnext : (gh t).next o a = .unpaused) : s'.paused = false := by
  cases hl : gh t <;> rw [hl] at hallow hnext <;> cases o <;> first
      | cases hallow; done
      | cases hnext
      | skip
  case looking.loadPaused =>
    cases hex
    cases hp : s.paused with
    | false => rfl
    | true =>
      simp [Loc.next, hp] at hnext
  case unpaused.loadDrains =>
    simp only [Loc.next] at hnext
    split at hnext <;> cases hnext

variable (h : Inv s gh)
include h

theorem Inv.step_tied : Tied s'.locks (fun l _ => l.hasLock = true)
      (update gh t ((gh t).next o a)) := by
  cases o
  case lock =>
    obtain ⟨locks, hacq, heq⟩ := Option.map_eq_some_iff.mp hex
    cases heq
    obtain ⟨hfree, rfl⟩ := Owners.acquire_eq_some.mp hacq
    refine h.tied.acquire hfree fun _ => ?_
    cases hl : gh t <;> rw [hl] at hallow <;> simp_all [Loc.allow, Loc.next, Loc.hasLock]
  case unlock =>
    obtain ⟨locks, hrel, heq⟩ := Option.map_eq_some_iff.mp hex
    cases heq
    obtain ⟨hown, rfl⟩ := Owners.release_eq_some.mp hrel
    refine h.tied.release hown fun _ => ?_
    cases hl : gh t <;> rw [hl] at hallow <;> simp_all [Loc.allow, Loc.next, Loc.hasLock]
  all_goals
    cases hex
    refine h.tied.same fun _ => ?_
    cases hl : gh t <;> rw [hl] at hallow <;> first
        | cases hallow; done
        | rfl
        | (simp only [Loc.next]; split <;> rfl)

theorem Inv.step_count : Census (fun l => l.isCounted = true)
      (update gh t ((gh t).next o a)) s'.active := by
  cases o
  case addActive =>
    cases hex
    cases hl : gh t <;> rw [hl] at hallow <;> cases hallow
    exact h.count.enter rfl (by rw [hl]; exact Bool.false_ne_true)
  case subActive =>
    cases hex
    cases hl : gh t <;> rw [hl] at hallow <;> cases hallow
    have hlooking : ¬ Loc.looking.isCounted = true := Bool.false_ne_true
    exact (h.count.leave hlooking (by rw [hl]; rfl)).2
  case lock | unlock =>
    obtain ⟨locks, -, heq⟩ := Option.map_eq_some_iff.mp hex
    cases heq
    refine h.count.same ?_
    cases hl : gh t <;> rw [hl] at hallow <;> first | cases hallow; done | rfl
  all_goals
    cases hex
    refine h.count.same ?_
    cases hl : gh t <;> rw [hl] at hallow <;> first
        | cases hallow; done
        | rfl
        | (simp only [Loc.next]; split <;> rfl)

/-- One operation keeps the invariant, when no other thread has the lock. -/
theorem Inv.step (hok : s.locks () = none ∨ s.locks () = some t) :
    Inv s' (update gh t ((gh t).next o a)) := by
  refine ⟨h.step_tied hallow hex, h.step_count hallow hex, fun u hu => ?_⟩
  by_cases hut : u = t
  · subst hut
    rw [update_self] at hu
    exact paused_of_next hallow hex hu
  · rw [update_of_ne hut] at hu
    have howner : s.locks () = some u := h.hasLock_iff.mpr (by rw [hu]; rfl)
    rw [howner] at hok
    rcases hok with hok | hok
    · cases hok
    · exact absurd (Option.some.inj hok) hut

/-- A held gate lets nobody pass. -/
theorem Inv.step_quiet (hq : Quiet gh) (hheld : s.held) :
    Quiet (update gh t ((gh t).next o a)) := by
  intro u
  by_cases hut : u = t
  · subst hut
    rw [update_self]
    obtain ⟨hcount, hpass⟩ := hq u
    have hclear := h.clear u
    cases hl : gh u <;> rw [hl] at hallow hcount hpass hclear <;> cases o <;> first
        | cases hallow; done
        | cases hcount; done
        | exact absurd rfl hpass
        | exact ⟨rfl, nofun⟩
        | skip
    case looking.loadPaused =>
      simp only [Loc.next]
      split <;> exact ⟨rfl, nofun⟩
    case unpaused.loadDrains =>
      -- there is no pause, so there is a drain
      cases hex
      have hdrains : s.drains ≠ 0 := hheld.resolve_left (by simp [hclear rfl])
      simp only [Loc.next]
      rw [if_neg hdrains]
      exact ⟨rfl, nofun⟩
  · rw [update_of_ne hut]
    exact hq u

end

def outline : Outline machine Atomic Loc where
  toDiscipline := rules
  post _ := False
  inv := Inv
  op_step _ hok hinv hallow hex := ⟨trivial, hinv.step hallow hex hok⟩
  env_step {_ _ e} := nomatch e

/-- From a quiet state on, while something holds the gate. -/
def quietOutline : Outline machine Held Loc where
  toDiscipline := rules
  post _ := False
  inv s gh := Inv s gh ∧ Quiet gh
  op_step _ hok hinv hallow hex :=
    ⟨trivial, hinv.1.step hallow hex hok.1, hinv.1.step_quiet hallow hex hinv.2 hok.2⟩
  env_step {_ _ e} := nomatch e

theorem outline_start (n : Nat) :
    outline.Holds (start n) fun t => if t < n then .counted else .outside := by
  refine ⟨⟨fun l t => ?_, ⟨Finset.range n, fun t => ?_, Finset.card_range n⟩,
    fun t ht => rfl⟩, fun t => ?_⟩
  all_goals by_cases h : t < n
  · simp [start, h, Loc.hasLock]
  · simp [start, h, Loc.hasLock]
  · simp [h, Loc.isCounted]
  · simp [h, Loc.isCounted]
  · simp only [start, if_pos h]
    exact keeps_worker
  · simp only [start, if_neg h]
    exact keeps_client

-- ==== the query

/-- Thread `t` is about to find that no worker is active, by `is_quiesced` or
at the end of `wait_quiesced`. -/
def Observes (t : Nat) (p : Pool Op Ans Shared) : Prop :=
  (p.thr t).head? = some .loadActive ∧ p.sh.active = 0

/-- A worker is past its check, and works. -/
def Works (t : Nat) (p : Pool Op Ans Shared) : Prop :=
  (p.thr t).head? = some .work

variable {p : Pool Op Ans Shared} {gh : Nat → Loc}

/-- Nobody works in a quiet state. -/
theorem not_works (h : quietOutline.Holds p gh) (t : Nat) : ¬ Works t p := by
  intro hw
  obtain ⟨k, hk⟩ := Proc.op_of_head? hw
  have hallow : (gh t).allow .work = true := h.allow hk
  obtain ⟨hcount, -⟩ := h.1.2 t
  cases hl : gh t <;> rw [hl] at hallow hcount
  case counted => cases hcount
  all_goals cases hallow

/-- Whoever observes the gate quiesced finds every worker at rest. -/
theorem quiet_of_observes {t : Nat} (h : outline.Holds p gh)
    (hok : p.sh.locks () = none ∨ p.sh.locks () = some t)
    (hobs : Observes t p) : Quiet gh := by
  obtain ⟨k, hk⟩ := Proc.op_of_head? hobs.1
  have hallow : (gh t).allow .loadActive = true := h.allow hk
  intro u
  refine ⟨?_, fun hu => ?_⟩
  · exact Bool.eq_false_iff.mpr ((hobs.2 ▸ h.1.count).not_of_zero u)
  · -- one that has passed has the lock, so it would be the observer
    have howner : p.sh.locks () = some u :=
      h.1.hasLock_iff.mpr (by rw [hu]; rfl)
    rw [howner] at hok
    rcases hok with hok | hok
    · cases hok
    · rw [← Option.some.inj hok, hu] at hallow
      cases hallow

/-- In every run whose locked sections are single steps: when a thread finds
the gate quiesced, no worker works, and none does before the gate has been
released. -/
theorem quiesced_until_released (workers t : Nat) (c : Choice)
    {p p' : Pool Op Ans Shared}
    (h : machine.Reach Atomic (start workers) p)
    (hstep : Atomic (.run t c) p) (hobs : Observes t p)
    (hrun : machine.Reach Held p p') (w : Nat) :
    ¬ Works w p ∧ ¬ Works w p' := by
  obtain ⟨gh, hgh⟩ := outline.sound (outline_start workers) h
  have hquiet : quietOutline.Holds p gh :=
    ⟨⟨hgh.1, quiet_of_observes hgh hstep hobs⟩, hgh.2⟩
  obtain ⟨gh', hgh'⟩ := quietOutline.sound hquiet hrun
  exact ⟨not_works hquiet w, not_works hgh' w⟩

instance : ∀ a p, Decidable (Atomic a p)
  | .run _ _, _ => inferInstanceAs (Decidable (_ ∨ _))

instance (s : Shared) : Decidable s.held :=
  inferInstanceAs (Decidable (_ ∨ _))

instance (t : Nat) (p : Pool Op Ans Shared) : Decidable (Observes t p) :=
  inferInstanceAs (Decidable (_ ∧ _))

instance (t : Nat) (p : Pool Op Ans Shared) : Decidable (Works t p) :=
  inferInstanceAs (Decidable (_ = _))

/-- `n` moves of thread `t`, in `call` if it begins one. -/
def moves (t n : Nat) (call : Call) : List (Act Choice Empty) :=
  List.replicate n (.run t ⟨call, false⟩)

/-- A pause parks the one worker, and the thread that paused asks. -/
def pauseAndAsk : List (Act Choice Empty) :=
  moves 1 3 .pause ++ moves 0 7 .pause ++ moves 1 2 .isQuiesced

theorem quiesced_until_released_one_worker :
    ∃ p, machine.Reach Atomic (start 1) p ∧ Observes 1 p ∧ p.sh.held ∧
      ∀ w, ¬ Works w p := by
  obtain ⟨p, hp, hobs, hheld, hlock⟩ : ∃ p, machine.Reach Atomic (start 1) p ∧
      Observes 1 p ∧ p.sh.held ∧ p.sh.locks () = none :=
    System.exists_reach pauseAndAsk (by decide)
  exact ⟨p, hp, hobs, hheld, fun w =>
    (quiesced_until_released 1 1 ⟨.pause, false⟩ hp (.inl hlock) hobs .init
      w).1⟩

/-- Without the condition on locked sections: a resume wakes the worker, and a
second pause comes after its last look at the gate. The query is answered
before the worker has counted itself in, and the worker goes on to work while
the pause stands. -/
theorem query_in_window : ∃ p p', machine.Reach System.anyStep (start 1) p ∧ Observes 1 p ∧
      machine.Reach (fun _ p => p.sh.held) p p' ∧ Works 0 p' := by
  obtain ⟨p, hp, hobs, hrest⟩ : ∃ p, machine.Reach System.anyStep (start 1) p ∧
      Observes 1 p ∧ ∃ p', machine.runAll (fun _ p => p.sh.held)
        (moves 0 2 .pause) p = some p' ∧ Works 0 p' :=
    System.exists_reach (moves 1 3 .pause ++ moves 0 7 .pause ++
      moves 1 5 .resume ++ moves 0 4 .pause ++ moves 1 3 .pause ++
      moves 1 2 .isQuiesced) (by decide)
  obtain ⟨p', hp', hworks⟩ := System.exists_reach _ hrest
  exact ⟨p, p', hp, hobs, hp', hworks⟩

end QuiesceGate

end Rshyve.Devices
