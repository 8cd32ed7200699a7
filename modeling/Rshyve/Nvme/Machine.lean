/-
# The NVMe controller as a machine

The meaning of the steps of `Nvme.Controller`: the state lock, the gate and
the workers' channel. Threads 0 to 7 are the workers, thread 8 is the
migration, and every other thread is a vCPU. What guest memory holds, which
access fails, how much a transfer moves and which deadline passes is a
choice.

The driver tells the controller how far it has read a completion queue by a
doorbell, at any time. Such a head doorbell is one short critical section of
its own, so it is a single move of the environment.

# History

`consumed` are the commands taken off submission queues, each with its
queue. `downs` are the vCPUs that have taken the queues away, up to the end
of their next section under the lock. No step reads either.
-/
import Rshyve.Conc.Pool
import Rshyve.Nvme.Controller

namespace Rshyve.Nvme

open Conc
open Mem (SubMapping)

-- ==== the state

/-- The gate that parks the workers: those that are not parked, and who has
its lock. -/
structure Gate where
  paused : Bool
  drains : Nat
  active : Nat
  owner : Option Nat

/-- All that the threads share. -/
structure Host where
  gate : Gate
  owner : Option Nat
  st : NvmeState
  rx : Option Nat
  chan : List IoRequest
  inCall : List Nat
  stopped : Bool
  consumed : List (Nat × Sqe)
  downs : List Nat

-- ==== the steps

/-- What the outside world decides about a step. -/
inductive Choice where
  | go
  | flag (b : Bool)
  | sqe (e : Option Sqe)
  | call (c : Call)
  | pinned (iov : Option (List SubMapping))
  | moved (n : Option Nat)

namespace Host

def mapGate (h : Host) (f : Gate → Gate) : Host := { h with gate := f h.gate }

/-- The answer to a step that can go either way. -/
def either (h : Host) : Choice → Option (Bool × Host)
  | .flag b => some (b, h)
  | _ => none

/-- One step of thread `t`. -/
def exec (t : Nat) (c : Choice) : (o : Op) → Host → Option (Ans o × Host)
  | .lock, h =>
    if h.owner = none then
      some (h.st, { h with owner := some t })
    else none
  | .unlock st note, h =>
    some ((), { h with
      owner := none, st
      downs := match note with
        | .down => t :: h.downs
        | .plain => h.downs.filter (· ≠ t) })
  | .readSqe _, h =>
    match c with
    | .sqe e => some (e, h)
    | _ => none
  | .prpToIovec .., h =>
    match c with
    | .pinned iov => some (iov, h)
    | _ => none
  | .readAt .., h | .writeAt .., h =>
    match c with
    | .moved n => some (n, h)
    | _ => none
  | .writeCqe .., h | .lookup .., h | .writeToPrp .., h | .expired, h
  | .sync, h => h.either c
  | .fire _, h | .clearPending, h | .fenced _, h => some ((), h)
  | .loadPaused, h => some (h.gate.paused, h)
  | .loadDrains, h => some (h.gate.drains, h)
  | .loadActive, h => some (h.gate.active, h)
  | .gateLock, h =>
    if h.gate.owner = none then
      some ((), h.mapGate fun g => { g with owner := some t })
    else none
  | .gateUnlock, h => some ((), h.mapGate fun g => { g with owner := none })
  | .park, h =>
    some ((), h.mapGate fun g => { g with active := g.active - 1 })
  | .unpark, h =>
    some ((), h.mapGate fun g => { g with active := g.active + 1 })
  | .addDrain, h =>
    some ((), h.mapGate fun g => { g with drains := g.drains + 1 })
  | .subDrain, h =>
    some ((), h.mapGate fun g => { g with drains := g.drains - 1 })
  | .setPaused b, h => some ((), h.mapGate fun g => { g with paused := b })
  | .rxLock, h =>
    if h.rx = none then some ((), { h with rx := some t }) else none
  | .rxUnlock, h => some ((), { h with rx := none })
  | .recv, h =>
    match h.chan with
    | [] => some (none, h)
    | r :: rest => some (some r, { h with chan := rest })
  | .send r, h => some ((), { h with chan := h.chan ++ [r] })
  | .begins, h =>
    match c with
    | .call call =>
      if h.stopped then none
      else some (call, { h with inCall := t :: h.inCall })
    | _ => none
  | .returns, h => some ((), { h with inCall := h.inCall.filter (· ≠ t) })
  | .pauseVcpus, h =>
    if h.inCall = [] then some ((), { h with stopped := true }) else none
  | .resumeVcpus, h => some ((), { h with stopped := false })
  | .consume qid e, h =>
    some ((), { h with consumed := h.consumed ++ [(qid, e)] })

end Host

-- ==== the driver

/-- A head doorbell of a completion queue. -/
structure CqRing where
  qid : Nat
  newHead : Nat

def Host.ring (h : Host) (r : CqRing) : Option Host :=
  if h.owner = none then some { h with st := cqDoorbell h.st r.qid r.newHead }
  else none

def system : System Op Ans Host Choice CqRing where
  exec := Host.exec
  env r s := (s.sh.ring r).map fun h => { s with sh := h }

def numWorkers : Nat := 8

/-- A controller that has just been built, with its workers running. -/
def Host.new : Host where
  gate := ⟨false, 0, numWorkers, none⟩
  owner := none
  st := .new
  rx := none
  chan := []
  inCall := []
  stopped := false
  consumed := []
  downs := []

def start (dev : Device) : Pool Op Ans Host where
  sh := .new
  thr t :=
    if t < numWorkers then ioWorker dev
    else if t = numWorkers then migration
    else vcpu

end Rshyve.Nvme
