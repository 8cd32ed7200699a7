/-
# The viona device

A virtio-net device whose rings the kernel runs. Userspace programs the ring
addresses, forwards kicks, and has to get every ring back out of the kernel
before the guest may reuse its pages. The functions here are those of
`viona.rs`, `viona/halt.rs`, `viona/migrate.rs` and `viona/poll.rs`, as
programs over single kernel requests.

# The device lock

`VionaInner` sits behind one lock. A critical section takes the record when
it locks (`lock` answers with it), works on its own copy, and puts the copy
back when it unlocks; nobody else can look in between. A kernel request made
under the lock is a step of its own, because the poll thread and a halt make
theirs without it.

# History

`begins`, `returns`, `retire` and `failing` are not in the source. They mark
where a guest call begins and ends, where the driver's ring ceases to be, and
where a migration is given up. So is `Inner.failed`: the rings a rollback
reports as paused for good. Nothing reads them.

Left out: the logger, the deferred start of the poll thread and the restore
on a migration destination, the config space, MSI-X routing.
-/
import Rshyve.Conc.Pool
import Rshyve.Virtio.Pci.Queue

namespace Rshyve.Virtio.Viona

open Conc

-- ==== the data

/-- Number of virtqueues: RX + TX. -/
abbrev netNumQueues : Nat := 2

abbrev Ring := Fin netNumQueues

/-- Attempts at a ring reset before its error is accepted. -/
def resetAttempts : Nat := 8

/-- An error of a kernel request. -/
structure IoError where
  interrupted : Bool
  text : String
  deriving DecidableEq, Repr

/-- `vioc_ring_state`. -/
structure VringState where
  index : Ring
  availIdx : BitVec 16
  usedIdx : BitVec 16
  size : BitVec 16
  desc : BitVec 64
  avail : BitVec 64
  used : BitVec 64
  deriving DecidableEq, Repr

inductive RingState where
  | init
  | ready
  | error
  deriving DecidableEq, Repr

/-- What a migration export left a kernel ring in. -/
inductive PausedRing where
  | running
  | saved (state : VringState)
  | lost
  deriving DecidableEq, Repr

/-- `VionaInner`. -/
structure Inner where
  negotiatedFeatures : BitVec 64
  ringState : Ring → RingState
  kickRefused : Ring → Bool
  pausedRings : Ring → PausedRing
  poller : Bool
  halted : Bool
  failed : Ring → Bool

namespace Inner

def new (poller : Bool) : Inner :=
  ⟨0, fun _ => .init, fun _ => false, fun _ => .running, poller, false, fun _ => false⟩

def setRing (i : Inner) (r : Ring) (st : RingState) : Inner :=
  { i with ringState := Function.update i.ringState r st }

def setKickRefused (i : Inner) (r : Ring) (b : Bool) : Inner :=
  { i with kickRefused := Function.update i.kickRefused r b }

def setPaused (i : Inner) (r : Ring) (p : PausedRing) : Inner :=
  { i with pausedRings := Function.update i.pausedRings r p }

def report (i : Inner) (r : Ring) : Inner :=
  { i with failed := Function.update i.failed r true }

/-- What `destroy_link` writes before it drops the lock. -/
def destroyed (i : Inner) : Inner :=
  { i with
    halted := true
    ringState := fun _ => .init
    negotiatedFeatures := 0
    poller := false }

end Inner

-- ==== the steps

/-- What a driver asks of the device. -/
inductive Call where
  | setFeatures (features : BitVec 64)
  | notify (queueIdx : Nat)
  | addrSet (queueIdx : Nat) (queue : Pci.VirtQueue)
  | reset
  deriving DecidableEq, Repr

/-- The rings a call hands back to the driver. -/
def Call.retires : Call → Ring → Bool
  | .addrSet idx _, r => r.val == idx
  | .reset, _ => true
  | _, _ => false

inductive IntrWait where
  | pending
  | stopped
  deriving DecidableEq, Repr

inductive Op where
  | begins (c : Call)
  | returns (c : Call)
  | retire (r : Ring)
  | failing
  | lock
  | unlock (i : Inner)
  | ringInit (r : Ring) (size : BitVec 16) (desc avail used : BitVec 64)
  | ringKick (r : Ring)
  | ringReset (r : Ring)
  | ringPause (r : Ring)
  | ringGetState (r : Ring)
  | ringSetState (st : VringState)
  | setFeatures (features : BitVec 64)
  | delete
  | intrStatus
  | ringIntrClr (r : Ring)
  | waitIntr
  | slot
  | raise (r : Ring)
  | closeWake
  | join
  | pollExit
  | abort

abbrev Ans : Op → Type
  | .lock => Inner
  | .ringInit .. | .ringKick _ | .ringReset _ | .ringPause _
  | .ringSetState _ | .setFeatures _ | .delete | .ringIntrClr _ =>
    Except IoError Unit
  | .ringGetState _ => Except IoError VringState
  | .intrStatus => Except IoError (Ring → BitVec 32)
  | .waitIntr => Except IoError IntrWait
  | .slot => Bool
  | _ => Unit

/-- The step is a request on the link. -/
def Op.isRequest : Op → Bool
  | .ringInit .. | .ringKick _ | .ringReset _ | .ringPause _
  | .ringGetState _ | .ringSetState _ | .setFeatures _ | .delete
  | .intrStatus | .ringIntrClr _ | .waitIntr => true
  | _ => false

abbrev Prog := Proc Op Ans

/-- One step, and its answer. -/
abbrev step (o : Op) : Prog (Ans o) := Proc.call o

-- ==== the rings

/-- Kick an in-kernel virtqueue ring. -/
def ringKick (i : Inner) (queueIdx : Nat) : Prog Inner :=
  if h : queueIdx < netNumQueues then
    let r : Ring := ⟨queueIdx, h⟩
    if i.negotiatedFeatures = 0 then pure i
    else if i.ringState r ≠ .ready then pure i
    else do
      match ← step (.ringKick r) with
      | .ok () => pure (i.setKickRefused r false)
      | .error _ => pure (i.setKickRefused r true)
  else pure i

/-- Reset one kernel ring, retrying so many times while a signal interrupts
it. -/
def ringResetRetrying (r : Ring) : Nat → Prog (Except IoError Unit)
  | 0 => step (.ringReset r)
  | n + 1 => do
    match ← step (.ringReset r) with
    | .error e =>
      if e.interrupted then ringResetRetrying r n else pure (.error e)
    | .ok () => pure (.ok ())

def ringResetUninterrupted (r : Ring) : Prog (Except IoError Unit) :=
  ringResetRetrying r (resetAttempts - 1)

/-- The second half of `ring_init`: program a ring that is reset. -/
def ringProgram (i : Inner) (r : Ring) (queue : Pci.VirtQueue) : Prog Inner :=
  if !queue.isConfigured then pure i
  else do
    match ← step (.ringInit r queue.size queue.descAddr queue.availAddr queue.usedAddr) with
    | .ok () => pure (i.setRing r .ready)
    | .error _ => pure (i.setRing r .error)

/-- Program the ring addresses for a queue into the kernel. Returns a ring
the kernel refused to reset. -/
def ringInit (i : Inner) (queueIdx : Nat) (queue : Pci.VirtQueue) :
    Prog (Inner × Option (Ring × IoError)) :=
  if h : queueIdx < netNumQueues then
    let r : Ring := ⟨queueIdx, h⟩
    match i.ringState r with
    | .error => pure (i, none)
    | .init => do
      let i ← ringProgram i r queue
      pure (i, none)
    | .ready => do
      match ← ringResetUninterrupted r with
      | .error e => pure (i, some (r, e))
      | .ok () => do
        step (.retire r)
        let i ← ringProgram (i.setRing r .init) r queue
        pure (i, none)
  else pure (i, none)

-- ==== the halt

/-- Wake a running poll thread and join it. -/
def stopPoller (poller : Bool) : Prog Unit :=
  if poller then do
    step .closeWake
    step .join
  else pure ()

/-- Reset every ring, then destroy the link. The result is the delete's. -/
def haltLink : Prog (Except IoError Unit) := do
  let _ ← step (.ringReset 0)
  let _ ← step (.ringReset 1)
  step .delete

/-- Stop the poll thread and destroy the link, once. -/
def destroyLink : Prog (Except IoError Unit) := do
  let i ← step .lock
  if i.halted then
    step (.unlock i)
    pure (.ok ())
  else
    step (.unlock i.destroyed)
    stopPoller i.poller
    haltLink

/-- Stop the kernel after a ring refused to reset. -/
def destroyStoppedRing : Prog Unit := do
  match ← destroyLink with
  | .ok () => pure ()
  | .error _ => step .abort

/-- Release the in-kernel link before the VM is destroyed. A delete that
fails is only logged. -/
def halt : Prog Unit := do
  let _ ← destroyLink
  pure ()

-- ==== the driver's calls

def setFeatures (features : BitVec 64) : Prog Unit := do
  let i ← step .lock
  if i.halted then step (.unlock i)
  else
    let _ ← step (.setFeatures features)
    step (.unlock { i with negotiatedFeatures := features })

def notifyQueue (queueIdx : Nat) : Prog Unit := do
  let i ← step .lock
  let i ← ringKick i queueIdx
  step (.unlock i)

def queueAddrSet (queueIdx : Nat) (queue : Pci.VirtQueue) : Prog Unit := do
  let i ← step .lock
  if i.halted then step (.unlock i)
  else
    let (i, stuck) ← ringInit i queueIdx queue
    step (.unlock i)
    match stuck with
    | none => pure ()
    | some _ => destroyStoppedRing

/-- The loop of `reset`: every kernel worker stops, or the first that does
not is returned. -/
def resetRings (i : Inner) : List Ring → Prog (Inner × Option (Ring × IoError))
  | [] => pure (i, none)
  | r :: rest => do
    match ← ringResetUninterrupted r with
    | .error e => pure (i, some (r, e))
    | .ok () => do
      step (.retire r)
      resetRings (i.setRing r .init) rest

def reset : Prog Unit := do
  let i ← step .lock
  if i.halted then step (.unlock i)
  else
    let (i, stuck) ← resetRings
      { i with negotiatedFeatures := 0, kickRefused := fun _ => false } [0, 1]
    step (.unlock i)
    match stuck with
    | none => pure ()
    | some _ => destroyStoppedRing

def Call.body : Call → Prog Unit
  | .setFeatures f => Viona.setFeatures f
  | .notify idx => notifyQueue idx
  | .addrSet idx queue => queueAddrSet idx queue
  | .reset => Viona.reset

/-- A vCPU that makes the given calls. -/
def guest : List Call → Prog Unit
  | [] => pure ()
  | c :: cs => do
    step (.begins c)
    c.body
    step (.returns c)
    guest cs

-- ==== a migration

/-- The loop of `pause_rings`. -/
def pauseFrom (i : Inner) : List Ring → Prog (Inner × Except String Unit)
  | [] => pure (i, .ok ())
  | r :: rest => do
    match ← step (.ringPause r) with
    | .error e =>
      let text := e.text
      pure (i, .error s!"viona ring {r} pause failed: {text}")
    | .ok () =>
      match ← step (.ringGetState r) with
      | .ok st => pauseFrom (i.setPaused r (.saved st)) rest
      | .error e =>
        let text := e.text
        pure (i.setPaused r .lost, .error s!"viona ring {r} state read failed: {text}")

/-- Stop every ring worker, and keep each ring's state for a rollback. -/
def pauseRings : Prog (Except String Unit) := do
  let i ← step .lock
  if i.halted then
    step (.unlock i)
    pure (.ok ())
  else
    let (i, result) ← pauseFrom i [0, 1]
    step (.unlock i)
    pure result

/-- The body of the loop of `resume_rings`: one ring, and what is wrong with
it after. -/
def resumeRing (i : Inner) (r : Ring) : Prog (Inner × Option String) :=
  let taken := i.setPaused r .running
  match i.pausedRings r with
  | .running => pure (taken, none)
  | .lost => pure (taken.report r, some s!"ring {r} has no saved state")
  | .saved st =>
    if i.ringState r ≠ .ready then pure (taken, none)
    else do
      match ← step (.ringReset r) with
      | .error e =>
        let text := e.text
        pure (taken.report r, some s!"ring {r} reset: {text}")
      | .ok () =>
        match ← step (.ringSetState st) with
        | .error e =>
          let text := e.text
          pure (taken.report r, some s!"ring {r} set state: {text}")
        | .ok () => do
          let i ← ringKick taken r
          pure (i, none)

/-- Restart the rings that `pause_rings` stopped. -/
def resumeRings : Prog (Except String Unit) := do
  let i ← step .lock
  if i.halted then
    step (.unlock i)
    pure (.ok ())
  else
    let (i, rx) ← resumeRing i 0
    let (i, tx) ← resumeRing i 1
    step (.unlock i)
    match rx.toList ++ tx.toList with
    | [] => pure (.ok ())
    | failed =>
      let texts := "; ".intercalate failed
      pure (.error s!"viona rings stayed paused: {texts}")

/-- A migration that fails at some point after the pause. -/
def attempt : Prog Unit := do
  let _ ← pauseRings
  step .failing
  let _ ← resumeRings
  pure ()

-- ==== the poll thread

/-- The loop of `deliver_pending` over the rings. -/
def deliverRings (status : Ring → BitVec 32) : List Ring → Prog Unit
  | [] => pure ()
  | r :: rest =>
    if status r = 0 then deliverRings status rest
    else do
      let _ ← step (.ringIntrClr r)
      step (.raise r)
      deliverRings status rest

/-- Deliver the interrupts one poll wakeup found pending. -/
def deliverPending : Prog Unit := do
  if !(← step .slot) then pure ()
  else
    match ← step .intrStatus with
    | .error _ => pure ()
    | .ok status => deliverRings status [0, 1]

/-- Interrupt poll loop. -/
def intrPollLoop : Prog Unit :=
  Proc.loop (fun (_ : Unit) => do
    match ← step .waitIntr with
    | .ok .pending => do
      deliverPending
      pure (.inl ())
    | .ok .stopped => pure (.inr ())
    | .error _ => pure (.inr ())) ()

/-- The poll thread, from its start to the end a join waits for. -/
def pollThread : Prog Unit := do
  intrPollLoop
  step .pollExit

end Rshyve.Virtio.Viona
