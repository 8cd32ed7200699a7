/-
# The viona device as a machine

The meaning of the steps of `Viona.Device`: the kernel's link and its two
rings, the device lock, the poll thread's pipe. A kernel request may be
refused at any time, and then it changes nothing. An accepted reset or
delete proves that the ring's worker has stopped, and the kernel's ring is
gone. A worker moves its ring's cursors whenever it runs (`Move`).

# History

`ideal` is the ring as the driver has it: it comes with the driver's
addresses, moves with the worker, and goes when the driver's call retires
it. Neither a pause nor a rollback touches it. `programmedAt` is the time at
which a ring was last programmed, on a clock that counts programmings, and
`since` the time at which a thread's call began. `early` says that the call
has found the device halted with the link not yet deleted. `halter` is the
thread that halted the device. No step reads them.
-/
import Rshyve.Virtio.Viona.Device

namespace Rshyve.Virtio.Viona

open Conc

-- ==== the state

/-- A ring the kernel holds. -/
structure KRing where
  state : VringState
  stopped : Bool
  deriving DecidableEq, Repr

structure Host where
  owner : Option Nat
  inner : Inner
  rings : Ring → Option KRing
  deleted : Bool
  wakeClosed : Bool
  polled : Bool
  joined : Bool
  aborted : Bool
  ideal : Ring → Option VringState
  clock : Nat
  programmedAt : Ring → Nat
  since : Nat → Nat
  early : Nat → Bool
  halter : Option Nat

namespace Host

def setRing (h : Host) (r : Ring) (k : Option KRing) : Host :=
  { h with rings := Function.update h.rings r k }

def setIdeal (h : Host) (r : Ring) (st : Option VringState) : Host :=
  { h with ideal := Function.update h.ideal r st }

end Host

/-- What the outside world decides about a step: it goes through, it is
refused, or what it finds. -/
inductive Choice where
  | go
  | refuse (e : IoError)
  | state (st : VringState)
  | status (pending : Ring → BitVec 32)
  | wait (w : IntrWait)
  | flag (b : Bool)

-- ==== the requests

namespace Host

/-- Program a ring. The kernel takes one that is reset, with its cursors
at 0. -/
def ringInit (h : Host) (r : Ring) (size : BitVec 16) (desc avail used : BitVec 64) : Option Host :=
  if h.deleted ∨ (h.rings r).isSome then none
  else
    let st : VringState := ⟨r, 0, 0, size, desc, avail, used⟩
    let h := (h.setRing r (some ⟨st, false⟩)).setIdeal r (some st)
    some { h with
      clock := h.clock + 1
      programmedAt := Function.update h.programmedAt r h.clock }

/-- Program a ring with its cursors. -/
def ringSetState (h : Host) (st : VringState) : Option Host :=
  if h.deleted ∨ (h.rings st.index).isSome then none
  else some (h.setRing st.index (some ⟨st, false⟩))

/-- A kick reaches a ring that runs. -/
def ringKick (h : Host) (r : Ring) : Option Host :=
  if (h.rings r).any (!·.stopped) then some h else none

def ringPause (h : Host) (r : Ring) : Host :=
  h.setRing r ((h.rings r).map fun k => { k with stopped := true })

/-- The state of a ring the kernel holds. For one that is reset the kernel
may say anything but another ring's index. -/
def ringGetState (h : Host) (r : Ring) (c : Choice) : Option VringState :=
  match h.rings r, c with
  | some k, .go => some k.state
  | none, .state st => if st.index = r then some st else none
  | _, _ => none

def delete (h : Host) : Host :=
  { h with deleted := true, rings := fun _ => none }

/-- Take the lock, and the record behind it. -/
def lock (h : Host) (t : Nat) : Host :=
  { h with
    owner := some t
    early := Function.update h.early t (h.early t || (h.inner.halted && !h.deleted)) }

/-- Put the record back. -/
def unlock (h : Host) (t : Nat) (i : Inner) : Host :=
  { h with
    owner := none
    inner := i
    halter := if i.halted && !h.inner.halted then some t else h.halter }

/-- The answer to a request that goes through or is refused. -/
def answer (h : Host) (c : Choice) (went : Option Host) : Option (Except IoError Unit × Host) :=
  match c with
  | .go => went.map fun h => (.ok (), h)
  | .refuse e => some (.error e, h)
  | _ => none

/-- One step of thread `t`. -/
def exec (t : Nat) (c : Choice) : (o : Op) → Host → Option (Ans o × Host)
  | .begins _, h =>
    some ((), { h with
      since := Function.update h.since t h.clock
      early := Function.update h.early t false })
  | .returns _, h | .failing, h => some ((), h)
  | .retire r, h => some ((), h.setIdeal r none)
  | .lock, h =>
    if h.owner = none then some (h.inner, h.lock t) else none
  | .unlock i, h =>
    if h.owner = some t then some ((), h.unlock t i) else none
  | .ringInit r size desc avail used, h =>
    h.answer c (h.ringInit r size desc avail used)
  | .ringKick r, h => h.answer c (h.ringKick r)
  | .ringReset r, h => h.answer c (some (h.setRing r none))
  | .ringPause r, h => h.answer c (some (h.ringPause r))
  | .ringGetState r, h =>
    match c with
    | .refuse e => some (.error e, h)
    | c => (h.ringGetState r c).map fun st => (.ok st, h)
  | .ringSetState st, h => h.answer c (h.ringSetState st)
  | .setFeatures _, h => h.answer c (some h)
  | .delete, h => h.answer c (some h.delete)
  | .intrStatus, h =>
    match c with
    | .status p => some (.ok p, h)
    | .refuse e => some (.error e, h)
    | _ => none
  | .ringIntrClr _, h => h.answer c (some h)
  | .waitIntr, h =>
    match c with
    | .wait .pending => some (.ok .pending, h)
    | .wait .stopped =>
      if h.wakeClosed || h.deleted then some (.ok .stopped, h) else none
    | .refuse e => some (.error e, h)
    | _ => none
  | .slot, h =>
    match c with
    | .flag b => some (b, h)
    | _ => none
  | .raise _, h => some ((), h)
  | .closeWake, h => some ((), { h with wakeClosed := true })
  | .join, h =>
    if h.polled then some ((), { h with joined := true }) else none
  | .pollExit, h => some ((), { h with polled := true })
  | .abort, h => some ((), { h with aborted := true })

end Host

-- ==== the machine

/-- A ring's worker takes an available entry, or completes one. -/
inductive Move where
  | take (r : Ring)
  | complete (r : Ring)

def Move.ring : Move → Ring
  | .take r | .complete r => r

def Move.on : Move → VringState → VringState
  | .take _, st => { st with availIdx := st.availIdx + 1 }
  | .complete _, st => { st with usedIdx := st.usedIdx + 1 }

def Host.move (h : Host) (e : Move) : Option Host :=
  match h.rings e.ring with
  | some ⟨st, false⟩ =>
    some ((h.setRing e.ring (some ⟨e.on st, false⟩)).setIdeal e.ring ((h.ideal e.ring).map e.on))
  | _ => none

/-- A process that has aborted takes no more steps. -/
def system : System Op Ans Host Choice Move where
  exec t c o h := if h.aborted then none else h.exec t c o
  env e s :=
    if s.sh.aborted then none
    else (s.sh.move e).map fun h => { s with sh := h }

/-- What a thread of the process does to the device. -/
inductive Job where
  | guest (calls : List Call)
  | halt
  | pause
  | attempt

def Job.program : Job → Prog Unit
  | .guest calls => Viona.guest calls
  | .halt => Viona.halt
  | .pause => do
    let _ ← pauseRings
    pure ()
  | .attempt => Viona.attempt

/-- A new device. Thread 0 is the poll thread; without one it is as good as
over. -/
def start (poller : Bool) (jobs : Nat → Job) : Pool Op Ans Host where
  sh := ⟨none, .new poller, fun _ => none, false, false, !poller, false, false,
    fun _ => none, 0, fun _ => 0, fun _ => 0, fun _ => false, none⟩
  thr
    | 0 => if poller then pollThread else pure ()
    | t + 1 => (jobs t).program

end Rshyve.Virtio.Viona
