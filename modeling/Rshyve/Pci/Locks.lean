/-
# The locks of config and BAR accesses

What one config or BAR access of a vCPU locks and unlocks, in order:
`vmm-virtio/src/pci/{bus,legacy,modern,intr}.rs` and `pci.rs`,
`vmm-storage/src/nvme/{mod,regs,admin,io}.rs`, `vmm-hid/src/xhci/mod.rs`,
behind the bus dispatch of `vmm-core/src/{pio,mmio}.rs` and
`vmm-devices/src/pci/{mod,bus}.rs`. Every acquisition and every release is
one step. Nothing serialises the accesses: each dispatcher drops its own
lock before it calls the handler.

# What stands for what

- `Lock.state` is the device's register state: `virtio_state`, or the NVMe
  or xHCI `state`. `record` is `registered_bar` and its siblings, one per
  BAR. `inner` is the device model's own lock: a virtio backend's, the NVMe
  `io_tx`, the tablet of the xHCI. `gate` is the NVMe quiesce gate's.
- A branch on the data behind a lock is a `pick`, either way at any time.
  A kernel call, a guest memory access or any other code that takes no lock
  is a `work`, and it ends. So is a wait with a deadline.
- A virtio backend's callback is any number of critical sections of its own,
  each of which may raise an interrupt (`callback`).
- `count` and `uncount` are the in-flight count of `IntrGate`; `settle` is
  the end of `IntrGate::settle`, which holds the lock again once the count
  is zero. While it waits it holds nothing.
- The weak reference in `self_ref` upgrades: the caller has a strong one.

A config write that can move the device has steps of its own, `take` to
`releaseSelf`. `retaking` is the vCPU that has dropped the PCI state in such
a write and has not yet locked it again. No step reads it.
-/
import Rshyve.Conc.Pool
import Rshyve.Conc.Locks
import Rshyve.Pci.Bars

namespace Rshyve.Pci.Locks

open Conc

-- ==== the steps

inductive Lock where
  | state
  | selfRef
  | pci
  | record (bar : BarN)
  | inner
  | pio
  | mmio
  | cfgAddr
  | pciBus
  | admission
  | line
  | msix
  | gate
  deriving DecidableEq, Repr

/-- One access of a vCPU. -/
inductive Access where
  | cfgRead (offset : BitVec 8)
  | cfgWrite (offset : BitVec 8)
  | barRead (bar : BarN)
  | barWrite (bar : BarN)
  deriving DecidableEq, Repr

inductive Op where
  | enter
  | leave
  | lock (l : Lock)
  | unlock (l : Lock)
  /-- lock the PCI state, for a write that can move the device -/
  | take
  /-- lock `self_ref` on top of it -/
  | takeSelf
  /-- `drop(pci)` -/
  | drop
  /-- lock the PCI state for the update of the registrations -/
  | retake
  | release
  | releaseSelf
  | pick
  | work
  | count
  | uncount
  | settle
  deriving DecidableEq, Repr

abbrev Ans : Op → Type
  | .enter => Access
  | .pick | .count => Bool
  | _ => Unit

abbrev Prog := Proc Op Ans

abbrev step (o : Op) : Prog (Ans o) := Proc.call o

/-- A critical section with nothing inside that another lock waits for. -/
def brief (l : Lock) : Prog Unit := do
  step (.lock l)
  step (.unlock l)

/-- Hold a lock across `body`. -/
def holding (l : Lock) (body : Prog Unit) : Prog Unit := do
  step (.lock l)
  body
  step (.unlock l)

/-- Code behind a branch on data. -/
def optional (p : Prog Unit) : Prog Unit := do
  if ← step .pick then p

/-- Any number of rounds. -/
def rounds (p : Prog Unit) : Prog Unit :=
  Proc.loop (fun _ : Unit => do
    if ← step .pick then
      p
      pure (.inl ())
    else pure (.inr ())) ()

-- ==== interrupts

/-- `IntrGate::begin`, the delivery, and the drop of `Admitted`. -/
def admitted (delivery : Prog Unit) : Prog Unit := do
  step (.lock .admission)
  let go ← step .count
  step (.unlock .admission)
  if go then
    delivery
    step (.lock .admission)
    step .uncount
    step (.unlock .admission)

/-- `route_msix`: false without MSI-X or with it disabled. -/
def routeMsix : Prog Bool := do
  if ← step .pick then
    brief .msix
    if ← step .pick then
      optional do
        brief .msix
        step .work
      pure true
    else pure false
  else pure false

/-- `deliver_queue_interrupt` and `raise_config_interrupt`. -/
def deliverInterrupt : Prog Unit := do
  if ← routeMsix then pure ()
  else holding .line (step .work)

def deliverReleased : Prog Unit :=
  optional (admitted (rounds (step .work)))

def readIsr : Prog Unit := holding .line (step .work)

/-- A method of the virtio backend: it may take its own lock, and raise
under it or outside. -/
def callback : Prog Unit :=
  rounds do
    step .work
    optional (holding .inner (rounds (optional (admitted deliverInterrupt))))
    optional (admitted deliverInterrupt)

-- ==== moving the device

/-- Release and register one BAR, under its record. -/
def refreshBar (bus : Lock) (bar : BarN) : Prog Unit :=
  holding (.record bar) do
    optional (brief bus)
    optional (brief bus)

/-- A config write to the command register or to a BAR. The guard of
`self_ref` outlives the update. -/
def movingWrite (update : Prog Unit) : Prog Unit := do
  step .take
  step .takeSelf
  step .drop
  step .retake
  update
  step .release
  step .releaseSelf

-- ==== virtio

namespace Virtio

/-- `update_bar_registration` and `update_mmio_registration`; BAR4 is there
with MSI-X only. -/
def updateRegistration : Prog Unit := do
  refreshBar .pio 0
  refreshBar .mmio 2
  optional (refreshBar .mmio 4)

/-- `cfg_read`: the capability chain first, whose MSI-X part has a lock. -/
def cfgRead (offset : BitVec 8) : Prog Unit := do
  if 0x40 ≤ offset.toNat then
    optional (brief .msix)
    optional (brief .pci)
  else brief .pci

/-- `cap_chain_write`, after the read of a narrow write. -/
def capChainWrite : Prog Unit := do
  optional (brief .msix)
  optional do
    brief .msix
    deliverReleased

def cfgWrite (offset : BitVec 8) : Prog Unit := do
  (if 0x40 ≤ offset.toNat then capChainWrite else pure ())
  if moves offset then movingWrite updateRegistration
  else brief .pci

/-- `set_needs_reset`, entered with the state locked. -/
def setNeedsReset : Prog Unit := do
  if ← step .pick then step (.unlock .state)
  else
    step (.unlock .state)
    admitted deliverInterrupt

/-- `reset_device` and `finish_reset`, entered with the state locked. -/
def resetDevice : Prog Unit := do
  brief .admission
  step (.unlock .state)
  callback
  step .settle
  step (.unlock .admission)
  holding .line (step .work)
  optional (brief .msix)
  holding .state (brief .admission)

/-- A write to the status register, entered with the state locked. -/
def writeStatus : Prog Unit := do
  if ← step .pick then resetDevice
  else if ← step .pick then setNeedsReset
  else
    callback
    step (.unlock .state)

/-- A queue notification, entered with the state locked. -/
def notifyQueue : Prog Unit := do
  if ← step .pick then
    callback
    if ← step .pick then setNeedsReset
    else
      step (.unlock .state)
      optional (admitted deliverInterrupt)
  else step (.unlock .state)

/-- A write that makes or refuses a ring, entered with the state locked. -/
def writeRing : Prog Unit := do
  step .work
  if ← step .pick then setNeedsReset
  else
    optional callback
    step (.unlock .state)

/-- `lock_for_write`, and the write unless a reset is running. -/
def lockForWrite (write : Prog Unit) : Prog Unit := do
  step (.lock .state)
  if ← step .pick then step (.unlock .state)
  else write

/-- `bar_read`, the legacy register file. -/
def legacyRead : Prog Unit := do
  step (.lock .state)
  optional (brief .msix)
  if ← step .pick then
    callback
    step (.unlock .state)
  else if ← step .pick then
    -- the ISR is read without the transport lock
    step (.unlock .state)
    readIsr
  else
    optional callback
    optional (brief .msix)
    step (.unlock .state)

/-- `bar_write`, the legacy register file. -/
def legacyWrite : Prog Unit :=
  lockForWrite do
    optional (brief .msix)
    if ← step .pick then writeStatus
    else if ← step .pick then notifyQueue
    else if ← step .pick then writeRing
    else
      optional callback
      optional (brief .msix)
      step (.unlock .state)

/-- `modern_bar_read`. -/
def modernRead : Prog Unit := do
  if ← step .pick then holding .state (optional callback)
  else if ← step .pick then readIsr
  else optional callback

/-- `modern_bar_write`. -/
def modernWrite : Prog Unit :=
  optional <| lockForWrite do
    if ← step .pick then writeStatus
    else if ← step .pick then notifyQueue
    else if ← step .pick then writeRing
    else
      optional callback
      step (.unlock .state)

/-- `bar_rw`: BAR4 is the MSI-X window, BAR2 the modern register file, BAR0
the legacy one. -/
def barRead (bar : BarN) : Prog Unit :=
  if bar = 4 then optional (brief .msix)
  else if bar = 2 then modernRead
  else if bar = 0 then legacyRead
  else pure ()

def barWrite (bar : BarN) : Prog Unit :=
  if bar = 4 then
    optional do
      brief .msix
      deliverReleased
  else if bar = 2 then modernWrite
  else if bar = 0 then legacyWrite
  else pure ()

end Virtio

-- ==== NVMe

namespace Nvme

def updateRegistration : Prog Unit := do
  refreshBar .mmio 0
  refreshBar .mmio 4

def cfgRead (offset : BitVec 8) : Prog Unit :=
  if offset.toNat < 0x40 then brief .pci
  else optional (brief .msix)

def cfgWrite (offset : BitVec 8) : Prog Unit :=
  if offset.toNat < 0x40 then
    if moves offset then movingWrite updateRegistration
    else brief .pci
  else
    optional do
      brief .msix
      brief .msix
      rounds (step .work)

/-- The end of a drain. -/
def endDrain : Prog Unit := brief .gate

/-- `fence_workers`: the wait has a deadline, and a drain that missed it
ends here. -/
def fenceWorkers : Prog Bool := do
  step (.lock .gate)
  rounds do
    step (.unlock .gate)
    step .work
    step (.lock .gate)
  step (.unlock .gate)
  if ← step .pick then pure true
  else
    endDrain
    pure false

def shutdown : Prog Unit := do
  brief .state
  if ← fenceWorkers then
    step .work
    brief .state
    endDrain
  else brief .state

def disable : Prog Unit := do
  brief .state
  let fenced ← fenceWorkers
  brief .msix
  brief .state
  if fenced then endDrain

def enable : Prog Unit := holding .state (step .work)

def writeCc : Prog Unit := do
  brief .state
  optional shutdown
  if ← step .pick then disable
  else if ← step .pick then enable
  else brief .state

/-- `post_completion`: an interrupt is fired under the state lock. -/
def postCompletion : Prog Unit := do
  step .work
  optional do
    brief .msix
    step .work

/-- One admin command, with the state locked. A Delete Queue drops the lock
for its fence, and its drain ends with the lock held again. -/
def adminCommand : Prog Unit := do
  step .work
  if ← step .pick then
    step (.unlock .state)
    let fenced ← fenceWorkers
    step (.lock .state)
    postCompletion
    if fenced then endDrain
  else postCompletion

def adminSqDoorbell : Prog Unit :=
  holding .state (rounds adminCommand)

def ioSqDoorbell : Prog Unit := do
  step (.lock .state)
  if ← step .pick then
    step .work
    step (.unlock .state)
    holding .inner (step .work)
  else step (.unlock .state)

def barRead (bar : BarN) : Prog Unit :=
  if bar = 0 then optional (brief .state)
  else if bar = 4 then brief .msix
  else pure ()

def barWrite (bar : BarN) : Prog Unit := do
  if bar = 0 then
    if ← step .pick then writeCc
    else if ← step .pick then adminSqDoorbell
    else if ← step .pick then ioSqDoorbell
    else brief .state
  else if bar = 4 then
    optional do
      brief .msix
      optional (step .work)

end Nvme

-- ==== xHCI

namespace Xhci

def updateRegistration : Prog Unit := refreshBar .mmio 0

def cfgRead : Prog Unit := brief .pci

def cfgWrite (offset : BitVec 8) : Prog Unit :=
  if moves offset then movingWrite updateRegistration
  else brief .pci

/-- `bar0_rw`: the capability registers have no lock; the rings are worked
through, and the tablet asked, under the state lock. -/
def barRw (bar : BarN) : Prog Unit :=
  if bar = 0 then
    optional <| holding .state <| rounds do
      step .work
      optional (brief .inner)
  else pure ()

end Xhci

-- ==== the vCPUs

inductive Kind where
  | virtio
  | nvme
  | xhci
  deriving DecidableEq, Repr

/-- The dispatch of a config access: the PIO bus, the address latch of the
decoder, the PCI bus. -/
def dispatchCfg : Prog Unit := do
  brief .pio
  brief .cfgAddr
  brief .pciBus

/-- The dispatch of a BAR access, on the bus the BAR is on. -/
def dispatchBar (k : Kind) (bar : BarN) : Prog Unit :=
  match k with
  | .virtio => if bar = 0 then brief .pio else brief .mmio
  | .nvme | .xhci => brief .mmio

def serve : Kind → Access → Prog Unit
  | k, .cfgRead offset => do
    dispatchCfg
    match k with
    | .virtio => Virtio.cfgRead offset
    | .nvme => Nvme.cfgRead offset
    | .xhci => Xhci.cfgRead
  | k, .cfgWrite offset => do
    dispatchCfg
    match k with
    | .virtio => Virtio.cfgWrite offset
    | .nvme => Nvme.cfgWrite offset
    | .xhci => Xhci.cfgWrite offset
  | k, .barRead bar => do
    dispatchBar k bar
    match k with
    | .virtio => Virtio.barRead bar
    | .nvme => Nvme.barRead bar
    | .xhci => Xhci.barRw bar
  | k, .barWrite bar => do
    dispatchBar k bar
    match k with
    | .virtio => Virtio.barWrite bar
    | .nvme => Nvme.barWrite bar
    | .xhci => Xhci.barRw bar

/-- A vCPU: one access after the other, for ever. -/
def vcpu (k : Kind) : Prog Unit :=
  Proc.loop (fun _ : Unit => do
    let a ← step .enter
    serve k a
    step .leave
    pure (.inl ())) ()

-- ==== the machine

structure Shared where
  owner : Owners Lock
  inFlight : Nat
  /-- the vCPUs inside an access -/
  inside : List Nat
  retaking : Option Nat

/-- The next access of a vCPU, or which way a branch goes. -/
structure Choice where
  access : Access
  pick : Bool

namespace Shared

def acquire (s : Shared) (t : Nat) (l : Lock) : Option (Unit × Shared) :=
  (s.owner.acquire t l).map fun o => ((), { s with owner := o })

def release (s : Shared) (t : Nat) (l : Lock) : Option (Unit × Shared) :=
  (s.owner.release t l).map fun o => ((), { s with owner := o })

/-- One step of vCPU `t`. -/
def exec (t : Nat) (c : Choice) : (o : Op) → Shared → Option (Ans o × Shared)
  | .enter, s => some (c.access, { s with inside := t :: s.inside })
  | .leave, s =>
    some ((), { s with inside := s.inside.filter (· != t) })
  | .lock l, s => s.acquire t l
  | .unlock l, s => s.release t l
  | .take, s => s.acquire t .pci
  | .takeSelf, s => s.acquire t .selfRef
  | .drop, s => { s with retaking := some t }.release t .pci
  | .retake, s => { s with retaking := none }.acquire t .pci
  | .release, s => s.release t .pci
  | .releaseSelf, s => s.release t .selfRef
  | .pick, s => some (c.pick, s)
  | .work, s => some ((), s)
  | .count, s =>
    some (c.pick, if c.pick then { s with inFlight := s.inFlight + 1 } else s)
  | .uncount, s => some ((), { s with inFlight := s.inFlight - 1 })
  | .settle, s => if s.inFlight = 0 then s.acquire t .admission else none

end Shared

/-- Any number of vCPUs over one device's locks. -/
def machine : System Op Ans Shared Choice Empty where
  exec := Shared.exec
  env e _ := nomatch e

/-- All vCPUs outside, over a device of kind `k`. -/
def start (k : Kind) : Pool Op Ans Shared :=
  ⟨⟨fun _ => none, 0, [], none⟩, fun _ => vcpu k⟩

/-- A moving write locks the PCI state only while no other one is about to
lock it again. -/
def keepsClear : Act Choice Empty → Pool Op Ans Shared → Prop
  | .run t _, s => (s.thr t).head? = some .take → s.sh.retaking = none
  | .env _, _ => True

instance : ∀ a s, Decidable (keepsClear a s)
  | .run _ _, _ => inferInstanceAs (Decidable (_ → _))
  | .env _, _ => isTrue trivial

end Rshyve.Pci.Locks
