/-
# The shutdown watchdog

`watchdog` of `vmm-machine/src/signal.rs`: it waits for a SIGTERM or for a
teardown, asks the VM to stop, and ends a process that outlives its budgets
or the deadline its teardown armed.

Times are nanoseconds, and the watchdog starts at 0. A round of one of its
loops is a step of `State`. Only waits take time, and a wait may take longer
than it asks for (`World.wait`). The calls that arm the deadline come at any
time, and a SIGTERM after the end is one that never comes. Whether a request
to stop reached the VM is only logged.

# How late the end can be

`waitForTeardown` counts down what it asked for and does not look at the
clock, so what the waits run over adds up: waits that are 10 ms late end the
process a whole second late (`late_waits_add_up`).
-/
import Rshyve.Machine.Teardown

namespace Rshyve.Machine.Watchdog

def pollInterval : Nat := millis 500
def gracefulBudget : Nat := secs 30
def hardBudget : Nat := secs 20

/-- The last `Instant` of the monotonic clock. -/
def instantMax : Nat := 9223372036854775807999999999

/-- `arm_teardown_deadline`, called at `now`. -/
def armTeardownDeadline (armed : Option Nat) (now budget : Nat) : Option Nat :=
  let deadline := now + budget
  if instantMax < deadline then armed
  else if armed.all (· < deadline) then some deadline else armed

/-- A call that arms the deadline: its time and its budget. -/
abbrev Arming := Nat × Nat

structure World where
  calls : List Arming
  sigterm : Nat
  /-- the time after a wait, from its start and what it asks for -/
  wait : Nat → Nat → Nat
  wait_ge : ∀ t d, t + d ≤ wait t d
  poweroffSent : Bool
  haltSent : Bool

def World.teardownDeadline (w : World) (now : Nat) : Option Nat :=
  (w.calls.filter (·.1 ≤ now)).foldl (fun armed c => armTeardownDeadline armed c.1 c.2) none

inductive Phase where
  | shutdown
  | graceful (left : Nat)
  | hard (left : Nat)
  | teardown (armed : Nat)
  /-- the process is ended, by the deadline of a teardown if there was one -/
  | ended (deadline : Option Nat)
  deriving DecidableEq, Repr

inductive Note where
  | poweroffNotSent
  | guestNotStopped
  | haltNotSent
  deriving DecidableEq, Repr

structure State where
  now : Nat
  phase : Phase
  log : List Note
  deriving DecidableEq, Repr

-- ==== the rounds

def waitForShutdown (w : World) (s : State) : State :=
  match w.teardownDeadline s.now with
  | some deadline => { s with phase := .teardown deadline }
  | none =>
    if w.sigterm ≤ s.now then
      -- `shutdown_sequence` starts with its first request
      { s with
        phase := .graceful gracefulBudget
        log := s.log ++ if w.poweroffSent then [] else [.poweroffNotSent] }
    else { s with now := w.wait s.now pollInterval }

/-- A round of `wait_for_teardown`, in the phase `again`. -/
def waitForTeardown (w : World) (again : Nat → Phase)
    (timeout : State → State) (left : Nat) (s : State) : State :=
  match w.teardownDeadline s.now with
  | some deadline => { s with phase := .teardown deadline }
  | none =>
    if left = 0 then timeout s
    else
      let slice := min left pollInterval
      { s with now := w.wait s.now slice, phase := again (left - slice) }

/-- The guest did not stop: `shutdown_sequence` halts it. -/
def haltGuest (w : World) (s : State) : State :=
  { s with
    phase := .hard hardBudget
    log := s.log ++ .guestNotStopped :: if w.haltSent then [] else [.haltNotSent] }

def endProcess (deadline : Option Nat) (s : State) : State :=
  { s with phase := .ended deadline }

def watchTeardown (w : World) (armed : Nat) (s : State) : State :=
  let deadline := (w.teardownDeadline s.now).getD armed
  let left := deadline - s.now
  if left = 0 then endProcess (some deadline) s
  else { s with now := w.wait s.now (min left pollInterval) }

def step (w : World) (s : State) : State :=
  match s.phase with
  | .shutdown => waitForShutdown w s
  | .graceful left => waitForTeardown w .graceful (haltGuest w) left s
  | .hard left => waitForTeardown w .hard (endProcess none) left s
  | .teardown armed => watchTeardown w armed s
  | .ended _ => s

/-- The watchdog after `n` rounds. -/
def run (w : World) (n : Nat) : State := (step w)^[n] ⟨0, .shutdown, []⟩

-- ==== the deadline

/-- A deadline is as late as `x` exactly if some call asked for one so late
that the clock has room for. -/
theorem foldl_arm_iff (x : Nat) (calls : List Arming) (armed : Option Nat) :
    (∃ d, calls.foldl (fun a c => armTeardownDeadline a c.1 c.2) armed = some d ∧ x ≤ d) ↔
      (∃ d, armed = some d ∧ x ≤ d) ∨ ∃ c ∈ calls, c.1 + c.2 ≤ instantMax ∧ x ≤ c.1 + c.2 := by
  induction calls generalizing armed with
  | nil => simp
  | cons c calls ih =>
    rw [List.foldl_cons, ih, List.exists_mem_cons_iff, ← or_assoc]
    refine or_congr_left ?_
    unfold armTeardownDeadline
    cases armed <;> grind

section Deadline

variable {w : World} {t u d : Nat}

theorem deadline_iff (w : World) (t x : Nat) : (∃ d, w.teardownDeadline t = some d ∧ x ≤ d) ↔
      ∃ c ∈ w.calls, c.1 ≤ t ∧ c.1 + c.2 ≤ instantMax ∧ x ≤ c.1 + c.2 := by
  unfold World.teardownDeadline
  rw [foldl_arm_iff]
  simp [and_assoc]

/-- The deadline is only pushed out. -/
theorem deadline_mono (h : w.teardownDeadline u = some d) (hut : u ≤ t) :
    ∃ d', w.teardownDeadline t = some d' ∧ d ≤ d' := by
  obtain ⟨c, hc, hu, hask⟩ := (deadline_iff w u d).mp ⟨d, h, Nat.le_refl d⟩
  exact (deadline_iff w t d).mpr ⟨c, hc, Nat.le_trans hu hut, hask⟩

theorem unarmed_mono (h : w.teardownDeadline t = none) (hut : u ≤ t) :
    w.teardownDeadline u = none := by
  cases hu : w.teardownDeadline u with
  | none => rfl
  | some d =>
    obtain ⟨d', hd', -⟩ := deadline_mono hu hut
    cases h.symm.trans hd'

/-- A deadline that was not armed at `u` is after `u`. -/
theorem lt_deadline (hu : w.teardownDeadline u = none)
    (h : w.teardownDeadline t = some d) : u < d := by
  obtain ⟨c, hc, ht, hmax, -⟩ := (deadline_iff w t d).mp ⟨d, h, Nat.le_refl d⟩
  obtain ⟨d', hd', hle⟩ := (deadline_iff w t _).mpr ⟨c, hc, ht, hmax, Nat.le_refl _⟩
  cases h.symm.trans hd'
  by_contra hge
  obtain ⟨e, he, -⟩ := (deadline_iff w u 0).mpr ⟨c, hc, by omega, hmax, Nat.zero_le _⟩
  cases hu.symm.trans he

end Deadline

-- ==== the end

/-- No wait is late by more than `ε`. -/
def World.Late (w : World) (ε : Nat) : Prop := ∀ t d, w.wait t d ≤ t + d + ε

/-- When the process is due to end. -/
def World.due (w : World) (deadline : Option Nat) : Nat :=
  deadline.getD (w.sigterm + gracefulBudget + hardBudget)

/-- The process is ended at `t` by the latest deadline there is, or in its
place by both budgets: after it is due, and not much later. -/
structure Ended (w : World) (d : Option Nat) (t : Nat) : Prop where
  deadline : w.teardownDeadline t = d
  after : w.due d ≤ t
  within : ∀ ε, w.Late ε → t ≤ w.due d + pollInterval + 101 * ε

/-- After `k` waits for a teardown: nothing was armed one poll interval ago,
and the signal came that much before the waits. -/
def Timely (w : World) (k t : Nat) : Prop :=
  ∀ ε, w.Late ε → (∀ u, u + (pollInterval + ε) < t → w.teardownDeadline u = none) ∧
    t ≤ w.sigterm + (k + 1) * (pollInterval + ε)

/-- In a wait that is over `n` slices after the signal was seen. -/
def Waiting (w : World) (n left t : Nat) : Prop :=
  ∃ k, left + k * pollInterval = n * pollInterval ∧ w.sigterm + k * pollInterval ≤ t ∧ Timely w k t

def Inv (w : World) (s : State) : Prop :=
  match s.phase with
  | .shutdown => Timely w 0 s.now
  | .graceful left => Waiting w 60 left s.now
  | .hard left => Waiting w 100 left s.now
  | .teardown _ => ∃ d, w.teardownDeadline s.now = some d ∧
      ∀ ε, w.Late ε → s.now ≤ d + (pollInterval + ε)
  | .ended d => Ended w d s.now

section Steps

theorem pollInterval_pos : 0 < pollInterval := by decide

variable {w : World} {s : State} {k left t d : Nat}

theorem timely_wait (hnone : w.teardownDeadline t = none)
    (ht : ∀ ε, w.Late ε → t ≤ w.sigterm + k * (pollInterval + ε)) :
    Timely w k (w.wait t pollInterval) := by
  intro ε hε
  have hwait := hε t pollInterval
  have hle := ht ε hε
  refine ⟨fun u hu => unarmed_mono hnone (by omega), ?_⟩
  rw [Nat.succ_mul]
  omega

/-- A deadline that is seen now was armed at most one poll interval ago. -/
theorem Timely.seen (h : Timely w k t) (hd : w.teardownDeadline t = some d)
    (ε : Nat) (hε : w.Late ε) : t ≤ d + (pollInterval + ε) := by
  by_contra hlt
  have hnone := (h ε hε).1 d (Nat.lt_of_not_le hlt)
  exact Nat.lt_irrefl d (lt_deadline hnone hd)

/-- Whole slices are left until the last one is used up. -/
theorem le_left {n p : Nat} (h : left + k * p = n * p) (hleft : left ≠ 0) : p ≤ left := by
  have hk : k < n := Nat.lt_of_mul_lt_mul_right (a := p) (by omega)
  have hmul := Nat.mul_le_mul_right p hk
  rw [Nat.succ_mul] at hmul
  omega

theorem inv_waitForTeardown {n : Nat} {again : Nat → Phase}
    {timeout : State → State} (h : Waiting w n left s.now)
    (hagain : ∀ s left, s.phase = again left → Waiting w n left s.now → Inv w s)
    (htimeout : w.teardownDeadline s.now = none →
      w.sigterm + n * pollInterval ≤ s.now → Timely w n s.now →
      Inv w (timeout s)) :
    Inv w (waitForTeardown w again timeout left s) := by
  obtain ⟨k, hleft, hlow, htime⟩ := h
  unfold waitForTeardown
  cases hd : w.teardownDeadline s.now with
  | some d => exact ⟨d, hd, htime.seen hd⟩
  | none =>
    dsimp only
    split
    next hzero =>
      rw [hzero, Nat.zero_add] at hleft
      obtain rfl := Nat.eq_of_mul_eq_mul_right pollInterval_pos hleft
      exact htimeout hd hlow htime
    next hzero =>
      have hle := le_left hleft hzero
      have hwait := w.wait_ge s.now pollInterval
      rw [Nat.min_eq_right hle]
      refine hagain _ _ rfl ⟨k + 1, ?_, ?_, ?_⟩
      · rw [Nat.succ_mul]
        omega
      · rw [Nat.succ_mul]
        dsimp only
        omega
      · exact timely_wait hd fun ε hε => (htime ε hε).2

theorem inv_watchTeardown {armed : Nat} (hphase : s.phase = .teardown armed)
    (hd : w.teardownDeadline s.now = some d)
    (h : ∀ ε, w.Late ε → s.now ≤ d + (pollInterval + ε)) :
    Inv w (watchTeardown w armed s) := by
  unfold watchTeardown
  simp only [hd, Option.getD_some]
  split
  next hzero =>
    refine ⟨hd, Nat.le_of_sub_eq_zero hzero, fun ε hε => ?_⟩
    have hle := h ε hε
    simp only [World.due, Option.getD_some, endProcess]
    omega
  next hzero =>
    have hge := w.wait_ge s.now (min (d - s.now) pollInterval)
    obtain ⟨d', hd', hle⟩ := deadline_mono hd (Nat.le_of_add_right_le hge)
    simp only [Inv, hphase]
    refine ⟨d', hd', fun ε hε => ?_⟩
    have hwait := hε s.now (min (d - s.now) pollInterval)
    omega

theorem Inv.step (h : Inv w s) : Inv w (step w s) := by
  have hgraceful : gracefulBudget = 60 * pollInterval := by decide
  have hhard : hardBudget = 40 * pollInterval := by decide
  obtain ⟨now, phase, log⟩ := s
  cases phase with
  | shutdown =>
    simp only [Watchdog.step, waitForShutdown]
    cases hd : w.teardownDeadline now with
    | some d => exact ⟨d, hd, h.seen hd⟩
    | none =>
      dsimp only
      split
      next hsig =>
        refine ⟨0, ?_, ?_, h⟩
        · rw [Nat.zero_mul, hgraceful, Nat.add_zero]
        · rwa [Nat.zero_mul]
      next hsig =>
        refine timely_wait hd fun _ _ => ?_
        rw [Nat.zero_mul]
        omega
  | graceful left =>
    refine inv_waitForTeardown h (fun s left hs hw => ?_) fun _ hlow htime => ?_
    · simpa only [Inv, hs] using hw
    · refine ⟨60, ?_, hlow, htime⟩
      rw [hhard, ← Nat.add_mul]
  | hard left =>
    refine inv_waitForTeardown h (fun s left hs hw => ?_) fun hnone hlow htime => ?_
    · simpa only [Inv, hs] using hw
    · have hdue : w.due none = w.sigterm + 100 * pollInterval := by
        simp only [World.due, Option.getD_none, hgraceful, hhard]
        omega
      refine ⟨hnone, by rwa [hdue], fun ε hε => ?_⟩
      have hle := (htime ε hε).2
      simp only [hdue, endProcess] at hle ⊢
      omega
  | teardown armed =>
    obtain ⟨d, hd, htime⟩ := h
    exact inv_watchTeardown rfl hd htime
  | ended d => exact h

theorem run_succ (w : World) (n : Nat) : run w (n + 1) = step w (run w n) :=
  Function.iterate_succ_apply' _ _ _

theorem inv_run (w : World) (n : Nat) : Inv w (run w n) := by
  induction n with
  | zero => exact fun ε _ => ⟨nofun, Nat.zero_le _⟩
  | succ n ih =>
    rw [run_succ]
    exact ih.step

-- ==== it ends

/-- What the watchdog can still wait for, with a step for each change of its
phase. No deadline is beyond the clock, so a teardown has a last one. -/
def World.remaining (w : World) (s : State) : Nat :=
  match s.phase with
  | .shutdown =>
    w.sigterm - s.now + gracefulBudget + hardBudget + instantMax + 4
  | .graceful left => left + (hardBudget + (instantMax + 2) + 1)
  | .hard left => left + (instantMax + 2)
  | .teardown _ => instantMax - s.now + 1
  | .ended _ => 0

theorem remaining_waitForTeardown {again : Nat → Phase}
    {timeout : State → State} {n : Nat} (hn : instantMax < n)
    (hs : s.phase = again left)
    (hagain : ∀ t left, w.remaining ⟨t, again left, s.log⟩ = left + (n + 1))
    (htimeout : w.remaining (timeout s) ≤ n) :
    w.remaining (waitForTeardown w again timeout left s) < w.remaining s := by
  have hpos := pollInterval_pos
  have hleft : w.remaining s = left + (n + 1) := by
    rw [← hagain s.now left, ← hs]
  unfold waitForTeardown
  split
  · rw [hleft]
    simp only [World.remaining]
    omega
  · split
    · omega
    · dsimp only
      rw [hagain, hleft]
      omega

theorem Inv.remaining_step (h : Inv w s) (hs : ∀ d, s.phase ≠ .ended d) :
    w.remaining (Watchdog.step w s) < w.remaining s := by
  have hpos := pollInterval_pos
  obtain ⟨now, phase, log⟩ := s
  cases phase with
  | shutdown =>
    have hwait := w.wait_ge now pollInterval
    simp only [Watchdog.step, waitForShutdown]
    split
    · simp only [World.remaining]
      omega
    · split
      all_goals
        simp only [World.remaining]
        omega
  | graceful left =>
    refine remaining_waitForTeardown ?_ rfl (fun _ _ => rfl) (Nat.le_refl _)
    exact Nat.lt_add_left _ (Nat.lt_add_of_pos_right Nat.two_pos)
  | hard left =>
    exact remaining_waitForTeardown (Nat.lt_succ_self _) rfl (fun _ _ => rfl) (Nat.zero_le _)
  | teardown armed =>
    obtain ⟨d, hd, -⟩ := h
    obtain ⟨c, -, -, hmax, hle⟩ :=
      (deadline_iff w now d).mp ⟨d, hd, Nat.le_refl d⟩
    have hwait := w.wait_ge now (min (d - now) pollInterval)
    simp only [Watchdog.step, watchTeardown, hd, Option.getD_some]
    split
    · exact Nat.succ_pos _
    · simp only [World.remaining]
      omega
  | ended d => exact absurd rfl (hs d)

theorem ends (w : World) : ∃ n d, (run w n).phase = .ended d := by
  by_contra hno
  push Not at hno
  have hless (n : Nat) : w.remaining (run w n) + n ≤ w.remaining (run w 0) := by
    induction n with
    | zero => exact Nat.le_refl _
    | succ n ih =>
      have hstep := (inv_run w n).remaining_step (hno n)
      rw [run_succ]
      omega
  have hlast := hless (w.remaining (run w 0) + 1)
  omega

end Steps

/-- The watchdog ends the process, after it is due and with waits `ε` late at
most one poll interval and 101 times `ε` later. -/
theorem watchdog_ends (w : World) :
    (∀ n d, (run w n).phase = .ended d → Ended w d (run w n).now) ∧
      ∃ n d, (run w n).phase = .ended d := by
  refine ⟨fun n d hd => ?_, ends w⟩
  have hinv := inv_run w n
  simp only [Inv, hd] at hinv
  exact hinv

/-- Nothing is armed, and every wait is 10 ms late. -/
def lateWorld : World where
  calls := []
  sigterm := 0
  wait t d := t + d + millis 10
  wait_ge _ _ := Nat.le_add_right _ _
  poweroffSent := true
  haltSent := true

/-- The process is due after 50 s and is ended after 51 s. -/
theorem late_waits_add_up :
    (run lateWorld 103).phase = .ended none ∧
      lateWorld.due none + pollInterval < (run lateWorld 103).now := by
  decide +kernel

/-- The watchdog does not end the process under a teardown that armed it, but
for the pauses between refused requests for a halt thread. -/
theorem teardown_outlives_watchdog {w : World} {t n : Nat} {d : Option Nat} {vcpus : Vcpus}
    {devices : List Device} {destroy : Destroy}
    (hcall : (t, teardownBudget devices) ∈ w.calls)
    (hclock : t + teardownBudget devices ≤ instantMax)
    (hcut : computedBudget (deviceWork devices) ≤ teardownBudgetMax)
    (hflush : ∀ d ∈ devices, d.flush ≤ flushBudgetPerDevice)
    (hend : (run w n).phase = .ended d) (ht : t ≤ (run w n).now) :
    t + (shutdownAfterExit vcpus devices destroy).2 ≤
      (run w n).now + (devices.map Device.retries).sum := by
  have hinv := inv_run w n
  simp only [Inv, hend] at hinv
  have hwaited := @waited_le vcpus devices destroy hcut hflush
  -- the deadline is the latest one that was armed, so it is no earlier than this one
  obtain ⟨late, hlate, hle⟩ := (deadline_iff w (run w n).now (t + teardownBudget devices)).mpr
    ⟨_, hcall, ht, hclock, Nat.le_refl _⟩
  obtain rfl := hinv.deadline.symm.trans hlate
  have hafter := hinv.after
  simp only [World.due, Option.getD_some] at hafter
  omega

/-- A minute is armed for one disk; its teardown waits 33 s and 100 ms. -/
theorem teardown_outlives_watchdog_one_disk :
    let w := { lateWorld with calls := [(0, teardownBudget [slowDisk])] }
    (run w 120).phase = .ended (some (secs 60)) ∧
      (shutdownAfterExit ⟨false, true, none⟩ [slowDisk] ⟨true, none⟩).2 ≤
        (run w 120).now + millis 100 := by
  intro w
  have hend : (run w 120).phase = .ended (some (secs 60)) := by decide +kernel
  have hle := @teardown_outlives_watchdog w 0 120 _ ⟨false, true, none⟩ [slowDisk] ⟨true, none⟩
    List.mem_cons_self (by decide) (by decide) (by decide) hend
    (Nat.zero_le _)
  rw [Nat.zero_add] at hle
  exact ⟨hend, hle⟩

end Rshyve.Machine.Watchdog
