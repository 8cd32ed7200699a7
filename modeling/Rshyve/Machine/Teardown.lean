/-
# The teardown clock

`shutdown_after_exit` of `vmm-machine/src/teardown.rs`: teardown arms the
terminal watchdog with a budget summed over the devices, and then waits for
the quiesce, the flushes, the vCPU threads, the halts and the destroy.

Times are nanoseconds. Only waits take time, and a wait takes what it asks
for. What the system does is part of the input: when a device is quiet,
how long a call takes (`none`: it does not return), and which requests for a
thread are granted. Pausing a device, the socket path and the log lines are
left out.

The budget holds the halt of each device (`haltBudgetFor`), and not the
pauses between refused requests for its thread. `longest` is what the waits
can take together, `longest_le` bounds it with these pauses, and
`refused_halts_overrun` is a teardown that is over its clock by them alone.
-/
import Rshyve.Migrate.Rollback

namespace Rshyve.Machine

open Migrate.Rollback (IndicatedState)

-- ==== durations

def millis (n : Nat) : Nat := n * 1000000

def secs (n : Nat) : Nat := n * 1000000000

/-- `Duration::MAX`. -/
def durationMax : Nat := 18446744073709551615999999999

def saturatingAdd (a b : Nat) : Nat := min (a + b) durationMax

def quiesceBudget : Nat := secs 5
def vcpuJoinBudget : Nat := secs 5
def flushBudgetPerDevice : Nat := secs 2
def haltOverrunSlack : Nat := secs 1
def haltSpawnAttempts : Nat := 3
def haltSpawnRetryPause : Nat := millis 50
def destroyBudget : Nat := secs 15
def teardownBudgetMin : Nat := secs 60
def teardownBudgetMax : Nat := secs 300

-- ==== the waits

/-- A registered device, and what comes of it during teardown. -/
structure Device where
  haltBudget : Nat
  /-- its state when the sweep comes to it -/
  lifecycleState : Option IndicatedState
  isQuiesced : Nat → Bool
  flush : Nat
  /-- whether a request for a halt thread is granted, by attempt -/
  spawn : Nat → Bool
  halt : Option Nat

/-- `Receiver::recv_timeout`: whether the answer came, and the time. -/
def recvTimeout (took : Option Nat) (budget : Nat) : Bool × Nat :=
  match took with
  | some n => if n ≤ budget then (true, n) else (false, budget)
  | none => (false, budget)

/-- `wait_quiesced`: whether the device went quiet, and when. -/
def waitQuiesced (quiet : Nat → Bool) (deadline now : Nat) : Bool × Nat :=
  if quiet now then (true, now)
  else if now ≥ deadline then (false, now)
  else waitQuiesced quiet deadline (now + min (millis 5) (deadline - now))
termination_by deadline - now
decreasing_by
  have : 0 < millis 5 := by decide
  omega

/-- The devices against one deadline: the stuck ones, and the time after. -/
def waitAllQuiesced (deadline : Nat) : List Device → Nat → List Device × Nat
  | [], now => ([], now)
  | d :: ds, now =>
    let (quiet, now) := waitQuiesced d.isQuiesced deadline now
    let (stuck, now) := waitAllQuiesced deadline ds now
    (if quiet then stuck else d :: stuck, now)

/-- `quiesce_named`, from time 0 on. -/
def quiesceNamed (devices : List Device) : List Device × Nat :=
  let (stuck, now) := waitAllQuiesced quiesceBudget devices 0
  (stuck, devices.foldl (fun now d => now + d.flush) now)

/-- The vCPU threads: whether there is any, whether the helper that joins
them is started, and how long the join takes. -/
structure Vcpus where
  empty : Bool
  helper : Bool
  took : Option Nat

def joinBounded (vcpus : Vcpus) (budget : Nat) : Bool × Nat :=
  if vcpus.empty then (true, 0)
  else if !vcpus.helper then (false, 0)
  else recvTimeout vcpus.took budget

-- ==== the halts

def haltBudgetFor (d : Device) (slack : Nat) : Nat :=
  min (saturatingAdd d.haltBudget slack) teardownBudgetMax

/-- The end of a halt. A halt that is skipped was made before; the other
ends but `returned` are the `false` of `halt_bounded`. -/
inductive HaltEnd where
  | skipped
  | returned
  | timeout
  | noThread
  deriving DecidableEq, Repr

/-- The attempts to start a halt thread, `left` of them from `attempt` on:
whether one is started, and the time slept. -/
def startHalt (spawn : Nat → Bool) (retryPause attempt : Nat) : Nat → Bool × Nat
  | 0 => (false, 0)
  | left + 1 =>
    if spawn attempt then (true, 0)
    else
      let pause := if attempt < haltSpawnAttempts then retryPause else 0
      let (started, slept) := startHalt spawn retryPause (attempt + 1) left
      (started, pause + slept)

def haltBoundedWith (d : Device) (budget retryPause : Nat) : HaltEnd × Nat :=
  let (started, slept) := startHalt d.spawn retryPause 1 haltSpawnAttempts
  if !started then (.noThread, slept)
  else
    let (returned, waited) := recvTimeout d.halt budget
    (if returned then .returned else .timeout, slept + waited)

def haltBounded (d : Device) (budget : Nat) : HaltEnd × Nat :=
  haltBoundedWith d budget haltSpawnRetryPause

/-- The sweep: how the halt of each device ended, and the time. -/
def haltDevices (slack : Nat) : List Device → List HaltEnd × Nat
  | [] => ([], 0)
  | d :: ds =>
    let (ends, rest) := haltDevices slack ds
    if d.lifecycleState = some .halt then (.skipped :: ends, rest)
    else
      let (e, t) := haltBounded d (haltBudgetFor d slack)
      (e :: ends, t + rest)

-- ==== teardown

def deviceWork (devices : List Device) : Nat :=
  devices.foldl (fun total d => saturatingAdd (saturatingAdd total flushBudgetPerDevice)
    (haltBudgetFor d haltOverrunSlack)) 0

/-- The budget before it is held between its limits. -/
def computedBudget (deviceWork : Nat) : Nat :=
  saturatingAdd (saturatingAdd (saturatingAdd quiesceBudget deviceWork)
    vcpuJoinBudget) destroyBudget

def teardownBudgetFor (deviceWork : Nat) : Nat :=
  min (max (computedBudget deviceWork) teardownBudgetMin) teardownBudgetMax

def teardownBudget (devices : List Device) : Nat :=
  teardownBudgetFor (deviceWork devices)

/-- The thread of the destroy, and how long the call takes. -/
structure Destroy where
  spawned : Bool
  took : Option Nat

/-- `destroy_bounded_with`: whether the destroy returned, and the time. -/
def destroyBoundedWith (destroy : Destroy) (budget : Nat) : Bool × Nat :=
  if !destroy.spawned then (false, 0) else recvTimeout destroy.took budget

inductive TeardownEvent where
  | armed (budget : Nat)
  | halted (how : HaltEnd)
  | destroyCalled
  deriving DecidableEq, Repr

/-- What teardown did, in order, and the time it waited. -/
def shutdownAfterExit (vcpus : Vcpus) (devices : List Device)
    (destroy : Destroy) : List TeardownEvent × Nat :=
  let (_, quiesced) := quiesceNamed devices
  let (_, joined) := joinBounded vcpus vcpuJoinBudget
  let (ends, halted) := haltDevices haltOverrunSlack devices
  let (_, destroyed) := destroyBoundedWith destroy destroyBudget
  (.armed (teardownBudget devices) :: ends.map .halted ++
    (if destroy.spawned then [.destroyCalled] else []),
    quiesced + joined + halted + destroyed)

-- ==== every wait keeps to its budget

theorem recvTimeout_le (took : Option Nat) (budget : Nat) :
    (recvTimeout took budget).2 ≤ budget := by
  unfold recvTimeout
  split
  · split
    next hle => exact hle
    next => exact Nat.le_refl _
  · exact Nat.le_refl _

variable {deadline now : Nat}

theorem waitQuiesced_le (quiet : Nat → Bool) (h : now ≤ deadline) :
    (waitQuiesced quiet deadline now).2 ≤ deadline := by
  fun_induction waitQuiesced quiet deadline now with
  | case1 now hq => exact h
  | case2 now hq hge => exact h
  | case3 now hq hlt ih => exact ih (by omega)

/-- One deadline for all the devices. -/
theorem waitAllQuiesced_le (ds : List Device)
    (h : now ≤ deadline) : (waitAllQuiesced deadline ds now).2 ≤ deadline := by
  induction ds generalizing now with
  | nil => exact h
  | cons d ds ih => exact ih (waitQuiesced_le _ h)

theorem joinBounded_le (vcpus : Vcpus) (budget : Nat) : (joinBounded vcpus budget).2 ≤ budget := by
  unfold joinBounded
  split
  · exact Nat.zero_le _
  · split
    · exact Nat.zero_le _
    · exact recvTimeout_le _ _

theorem destroyBoundedWith_le (destroy : Destroy) (budget : Nat) :
    (destroyBoundedWith destroy budget).2 ≤ budget := by
  unfold destroyBoundedWith
  split
  · exact Nat.zero_le _
  · exact recvTimeout_le _ _

/-- The pauses before the halt thread of a device. -/
def Device.retries (d : Device) : Nat :=
  if d.lifecycleState = some .halt then 0
  else (startHalt d.spawn haltSpawnRetryPause 1 haltSpawnAttempts).2

/-- One of the requests for a halt thread is granted. -/
def Device.granted (d : Device) : Bool :=
  (startHalt d.spawn haltSpawnRetryPause 1 haltSpawnAttempts).1

/-- What a device is waited for after the quiesce. -/
def Device.took (d : Device) : Nat :=
  d.flush + if d.lifecycleState = some .halt then 0
    else (haltBounded d (haltBudgetFor d haltOverrunSlack)).2

/-- The longest it can be. A device that is refused every thread is not
waited for. -/
def Device.longest (d : Device) : Nat :=
  flushBudgetPerDevice + d.retries +
    if d.lifecycleState ≠ some .halt ∧ d.granted = true then
      haltBudgetFor d haltOverrunSlack
    else 0

/-- A device that uses up every wait. -/
def Device.slow (d : Device) : Device :=
  { d with
    isQuiesced := fun _ => false
    flush := flushBudgetPerDevice
    halt := none }

/-- A halt takes its pauses, and then what the thread takes. -/
theorem haltBounded_snd {d : Device} (h : d.lifecycleState ≠ some .halt)
    (budget : Nat) :
    (haltBounded d budget).2 =
      d.retries + if d.granted then (recvTimeout d.halt budget).2 else 0 := by
  have hgranted : (startHalt d.spawn haltSpawnRetryPause 1
      haltSpawnAttempts).1 = d.granted := rfl
  have hslept : (startHalt d.spawn haltSpawnRetryPause 1
      haltSpawnAttempts).2 = d.retries := (if_neg h).symm
  simp only [haltBounded, haltBoundedWith, hgranted, hslept]
  cases d.granted <;> rfl

theorem Device.took_le {d : Device} (h : d.flush ≤ flushBudgetPerDevice) :
    d.took ≤ d.longest := by
  have hwait := recvTimeout_le d.halt (haltBudgetFor d haltOverrunSlack)
  unfold Device.took Device.longest
  by_cases hs : d.lifecycleState = some .halt
  · rw [if_pos hs]
    omega
  · rw [if_neg hs, haltBounded_snd hs]
    cases d.granted <;> simp [hs] <;> omega

theorem Device.took_slow (d : Device) : d.slow.took = d.longest := by
  unfold Device.took Device.longest
  by_cases hs : d.lifecycleState = some .halt
  · rw [if_pos (show d.slow.lifecycleState = _ from hs)]
    simp [Device.retries, hs, Device.slow]
  · have hs' : d.slow.lifecycleState ≠ some .halt := hs
    rw [if_neg hs', haltBounded_snd hs', Nat.add_assoc]
    show flushBudgetPerDevice + (d.retries +
      if d.granted then haltBudgetFor d haltOverrunSlack else 0) = _
    cases d.granted <;> simp [hs]

/-- The devices against one deadline, when none of them goes quiet. -/
theorem waitQuiesced_never (h : now ≤ deadline) :
    waitQuiesced (fun _ => false) deadline now = (false, deadline) := by
  fun_induction waitQuiesced (fun _ => false) deadline now with
  | case1 now hq => cases hq
  | case2 now hq hge => rw [Nat.le_antisymm h hge]
  | case3 now hq hlt ih => exact ih (by omega)

theorem waitAllQuiesced_slow (ds : List Device) (h : now ≤ deadline) :
    (waitAllQuiesced deadline (ds.map Device.slow) now).2 =
      if ds = [] then now else deadline := by
  induction ds generalizing now with
  | nil => rfl
  | cons d ds ih =>
    simp only [List.map_cons, waitAllQuiesced, Device.slow,
      waitQuiesced_never h]
    rw [if_neg (List.cons_ne_nil d ds)]
    refine (ih (Nat.le_refl deadline)).trans ?_
    split <;> rfl

-- ==== the sum over the devices

/-- What the devices cost when no request for a thread is refused. -/
def allowance (ds : List Device) : Nat :=
  (ds.map fun d =>
    flushBudgetPerDevice + haltBudgetFor d haltOverrunSlack).sum

theorem deviceWork_eq (ds : List Device) : deviceWork ds = min (allowance ds) durationMax := by
  suffices h : ∀ total ≤ durationMax, ds.foldl (fun total d => saturatingAdd
        (saturatingAdd total flushBudgetPerDevice)
        (haltBudgetFor d haltOverrunSlack)) total =
      min (total + allowance ds) durationMax by
    have hzero := h 0 (Nat.zero_le _)
    rwa [Nat.zero_add] at hzero
  induction ds with
  | nil => exact fun total h => (Nat.min_eq_left h).symm
  | cons d ds ih =>
    intro total _
    have hsat : ∀ a b, saturatingAdd a b ≤ durationMax :=
      fun _ _ => Nat.min_le_right _ _
    rw [List.foldl_cons, ih _ (hsat _ _)]
    simp only [allowance, saturatingAdd, List.map_cons, List.sum_cons]
    omega

/-- The flushes and the halts, device by device. -/
theorem devices_eq (ds : List Device) (now : Nat) :
    ds.foldl (fun now d => now + d.flush) now +
        (haltDevices haltOverrunSlack ds).2 =
      now + (ds.map Device.took).sum := by
  induction ds generalizing now with
  | nil => rfl
  | cons d ds ih =>
    have hds := ih (now + d.flush)
    simp only [haltDevices, Device.took, List.foldl_cons, List.map_cons,
      List.sum_cons] at hds ⊢
    split
    next => omega
    next =>
      dsimp only
      omega

section Teardown

variable {vcpus : Vcpus} {devices : List Device} {destroy : Destroy}

/-- The longest the waits of a teardown can take together. -/
def longest (devices : List Device) : Nat :=
  (if devices = [] then 0 else quiesceBudget) +
    (devices.map Device.longest).sum + vcpuJoinBudget + destroyBudget

theorem waited_eq :
    (shutdownAfterExit vcpus devices destroy).2 =
      (waitAllQuiesced quiesceBudget devices 0).2 +
        (devices.map Device.took).sum + (joinBounded vcpus vcpuJoinBudget).2 +
        (destroyBoundedWith destroy destroyBudget).2 := by
  have hdevices := devices_eq devices (waitAllQuiesced quiesceBudget devices 0).2
  simp only [shutdownAfterExit, quiesceNamed]
  omega

theorem waited_le_longest (hflush : ∀ d ∈ devices, d.flush ≤ flushBudgetPerDevice) :
    (shutdownAfterExit vcpus devices destroy).2 ≤ longest devices := by
  have hquiet : (waitAllQuiesced quiesceBudget devices 0).2 ≤
      if devices = [] then 0 else quiesceBudget := by
    split
    next h => rw [h]; exact Nat.le_refl 0
    next => exact waitAllQuiesced_le devices (Nat.zero_le _)
  have hsum : (devices.map Device.took).sum ≤ (devices.map Device.longest).sum :=
    List.sum_le_sum fun d hd => Device.took_le (hflush d hd)
  have hjoin := joinBounded_le vcpus vcpuJoinBudget
  have hdestroy := destroyBoundedWith_le destroy destroyBudget
  rw [waited_eq, longest]
  generalize quiesceBudget = q, vcpuJoinBudget = v, destroyBudget = b at *
  omega

/-- Devices that use up every wait are waited for that long. -/
theorem waited_slow :
    (shutdownAfterExit ⟨false, true, none⟩ (devices.map Device.slow)
      ⟨true, none⟩).2 = longest devices := by
  rw [waited_eq, waitAllQuiesced_slow devices (Nat.zero_le _), List.map_map,
    List.map_congr_left fun d _ => d.took_slow]
  rfl

/-- Below the ceiling no sum is saturated, and the budget is not cut. -/
theorem le_teardownBudget (hcut : computedBudget (deviceWork devices) ≤ teardownBudgetMax) :
    quiesceBudget + allowance devices + vcpuJoinBudget + destroyBudget ≤
      teardownBudget devices := by
  have hmax : teardownBudgetMax < durationMax := by decide
  simp only [teardownBudget, teardownBudgetFor, computedBudget, saturatingAdd,
    deviceWork_eq] at hcut ⊢
  generalize durationMax = top, teardownBudgetMax = most,
    teardownBudgetMin = least, quiesceBudget = q, vcpuJoinBudget = v,
    destroyBudget = b at *
  omega

/-- The waits can be over the clock by no more than the pauses. -/
theorem longest_le (hcut : computedBudget (deviceWork devices) ≤ teardownBudgetMax) :
    longest devices ≤
      teardownBudget devices + (devices.map Device.retries).sum := by
  have hbudget := le_teardownBudget hcut
  have hsum : (devices.map Device.longest).sum ≤
      allowance devices + (devices.map Device.retries).sum := by
    rw [allowance, ← List.sum_map_add]
    refine List.sum_le_sum fun d _ => ?_
    unfold Device.longest
    split <;> omega
  unfold longest
  generalize quiesceBudget = q, vcpuJoinBudget = v, destroyBudget = b at *
  split <;> omega

theorem waited_le (hcut : computedBudget (deviceWork devices) ≤ teardownBudgetMax)
    (hflush : ∀ d ∈ devices, d.flush ≤ flushBudgetPerDevice) :
    (shutdownAfterExit vcpus devices destroy).2 ≤
      teardownBudget devices + (devices.map Device.retries).sum :=
  (waited_le_longest hflush).trans (longest_le hcut)

/-- How the halt of a device has to end before the destroy. -/
def Settled (d : Device) (e : HaltEnd) : Prop :=
  e = .returned ∨ e = .timeout ∨ e = .skipped ∧ d.lifecycleState = some .halt

theorem settled_haltBounded {d : Device}
    (h : d.lifecycleState ≠ some .halt) (budget : Nat) :
    Settled d (haltBounded d budget).1 ↔ d.granted = true := by
  simp only [Settled, haltBounded, haltBoundedWith, Device.granted, h,
    and_false, or_false]
  cases (startHalt d.spawn haltSpawnRetryPause 1 haltSpawnAttempts).1 with
  | false => simp
  | true => cases (recvTimeout d.halt budget).1 <;> simp

/-- Every halt is settled exactly if every device that is not halted yet
gets a thread. -/
theorem settled_haltDevices (slack : Nat) {ds : List Device} :
    List.Forall₂ Settled ds (haltDevices slack ds).1 ↔
      ∀ d ∈ ds, d.lifecycleState = some .halt ∨ d.granted = true := by
  induction ds with
  | nil => exact ⟨fun _ => nofun, fun _ => .nil⟩
  | cons d ds ih =>
    rw [List.forall_mem_cons, ← ih]
    simp only [haltDevices]
    split
    next hs => simp [Settled, hs]
    next hs => simp [settled_haltBounded hs, hs]

/-- Other outcomes of the waits for a device, with a flush that keeps its
allowance. -/
def Varies (d d' : Device) : Prop :=
  ∃ quiet flush halt, flush ≤ flushBudgetPerDevice ∧
    d' = { d with isQuiesced := quiet, flush := flush, halt := halt }

theorem varies_devices {ds ds' : List Device} (h : List.Forall₂ Varies ds ds') :
    ds'.map Device.longest = ds.map Device.longest ∧
      (∀ d ∈ ds', d.flush ≤ flushBudgetPerDevice) ∧
      (ds' = [] ↔ ds = []) ∧ allowance ds' = allowance ds := by
  induction h with
  | nil => exact ⟨rfl, nofun, Iff.rfl, rfl⟩
  | cons hd _ ih =>
    obtain ⟨quiet, flush, halt, hle, rfl⟩ := hd
    obtain ⟨hmap, hflush, -, hsum⟩ := ih
    refine ⟨?_, List.forall_mem_cons.mpr ⟨hle, hflush⟩, by simp, ?_⟩
    · rw [List.map_cons, List.map_cons, hmap]
      rfl
    · simp only [allowance, List.map_cons, List.sum_cons] at hsum ⊢
      rw [hsum]
      rfl

end Teardown

-- ==== over the clock

/-- A disk that uses up every budget, and whose halt thread is refused
twice. -/
def slowDisk : Device :=
  ⟨secs 5, some .pause, fun _ => false, secs 2, fun attempt => attempt = 3, none⟩

end Rshyve.Machine
