/-
# The virtio PCI transport, both faces

`vmm-virtio/src/pci.rs`, `pci/legacy.rs` and `pci/modern.rs`: the register
state of one transitional device, the legacy register file on BAR0, the
modern one on BAR2, the negotiation and the reset they share, and the MSI-X
accesses that move a legacy register. An offset is decoded to a register
first, as the source's `match` does; what a register does is the other half.

A guest's access is one step, since it holds the transport lock throughout.
A reset is two: the latch closes in the step of the write that asked for it,
and the registers go back when the backend has drained, so that other
accesses fall in between and are dropped.

What a backend does with a kick is the input's (`VirtQueue.Drain`), what it
is told is in the log. `isr_status` and the delivery of interrupts are not
modelled here; neither is the PCI header.
-/
import Rshyve.Conc.Trace
import Rshyve.Virtio.Pci.Msix
import Rshyve.Virtio.Pci.Queue

namespace Rshyve.Virtio.Pci

open Rshyve.Mem (AddressSpace)

-- ==== constants

def statusAcknowledge : BitVec 8 := 1
def statusDriverOk : BitVec 8 := 4
def statusFeaturesOk : BitVec 8 := 8
def statusDeviceNeedsReset : BitVec 8 := 64

def fRingIndirectDesc : BitVec 64 := 0x10000000
def fRingEventIdx : BitVec 64 := 0x20000000
def fVersion1 : BitVec 64 := 0x100000000

/-- The "no vector" sentinel. -/
def msiNoVector : BitVec 16 := 0xFFFF

/-- `word & mask != 0`. -/
def has {w : Nat} (word mask : BitVec w) : Bool := word &&& mask != 0

-- ==== state

/-- `VirtioPciState`, for a device with `n` queues. -/
structure VirtioPciState (n : Nat) where
  queueSelect : BitVec 16
  status : BitVec 8
  guestFeatures : BitVec 64
  queues : Fin n → VirtQueue
  configMsixVector : BitVec 16
  queueMsixVectors : Fin n → BitVec 16
  deviceFeatureSelect : BitVec 32
  driverFeatureSelect : BitVec 32
  queueEnabled : Fin n → Bool
  /-- `queue_desc`, `queue_avail` and `queue_used`. -/
  queueAddr : Ring → Fin n → BitVec 64
  configGeneration : BitVec 8
  resetting : Bool

/-- A driver's attempt to program the rings of a queue: the queue with the
new addresses, and the guest memory they were checked against. -/
structure Attempt (n : Nat) where
  queue : Fin n
  rings : VirtQueue
  mem : AddressSpace

/-- Whether the attempt passed the check. -/
def Attempt.passed {n : Nat} (a : Attempt n) : Bool :=
  (a.rings.validateAddrs a.mem).isOk

/-- What leaves the transport, in order: the attempts it judged and the
calls it made on the backend. -/
inductive Event (n : Nat) where
  | programmed (a : Attempt n)
  | setFeatures (features : BitVec 64)
  | queueAddrSet (queue : Fin n) (rings : VirtQueue)
  | notifyQueue (queue : Fin n)
  | cfgWrite (offset : BitVec 16) (val : BitVec 32)
  | configInterrupt
  | reset

/-- One device: the locked registers, the copies of the vectors that the
interrupt path reads without the lock, and the MSI-X table. -/
structure Transport (n : Nat) where
  vs : VirtioPciState n
  msixQueueVectors : Fin n → BitVec 16
  msixConfigVector : BitVec 16
  msix : Option MsixTable
  mem : AddressSpace
  log : List (Event n)

/-- What a device is created with. -/
structure Shape where
  numQueues : Nat
  queueSize : BitVec 16
  deviceFeatures : BitVec 64
  vectors : Option Nat

/-- A shape the constructor accepts: at most `MAX_QUEUES` queues, of a size
that is a power of two. -/
structure Shape.Ok (sh : Shape) : Prop where
  queues : sh.numQueues ≤ 4
  size : isPowerOfTwo sh.queueSize = true

/-- `VirtioPciState::new`. -/
def VirtioPciState.new (n : Nat) (queueSize : BitVec 16) : VirtioPciState n where
  queueSelect := 0
  status := 0
  guestFeatures := 0
  queues := fun _ => .new queueSize
  configMsixVector := msiNoVector
  queueMsixVectors := fun _ => msiNoVector
  deviceFeatureSelect := 0
  driverFeatureSelect := 0
  queueEnabled := fun _ => false
  queueAddr := fun _ _ => 0
  configGeneration := 0
  resetting := false

/-- A freshly created device. -/
def Transport.new (sh : Shape) (mem : AddressSpace) : Transport sh.numQueues where
  vs := .new sh.numQueues sh.queueSize
  msixQueueVectors := fun _ => msiNoVector
  msixConfigVector := msiNoVector
  msix := sh.vectors.map .new
  mem := mem
  log := []

namespace VirtioPciState

variable {n : Nat}

/-- The queue QUEUE_SELECT names, if the device has it. -/
def selected (vs : VirtioPciState n) : Option (Fin n) :=
  if h : vs.queueSelect.toNat < n then some ⟨vs.queueSelect.toNat, h⟩ else none

/-- Tell the queues what the driver negotiated. -/
def applyFeatures (vs : VirtioPciState n) : VirtioPciState n :=
  { vs with
    queues := fun i =>
      ((vs.queues i).setEventIdx (has vs.guestFeatures fRingEventIdx)
        ).setIndirectSupported (has vs.guestFeatures fRingIndirectDesc) }

/-- The latch is the reset path's to open. -/
def reset (vs : VirtioPciState n) : VirtioPciState n :=
  { vs with
    queueSelect := 0
    status := 0
    guestFeatures := 0
    configMsixVector := msiNoVector
    queueMsixVectors := fun _ => msiNoVector
    queues := fun i => (vs.queues i).reset
    deviceFeatureSelect := 0
    driverFeatureSelect := 0
    queueEnabled := fun _ => false
    queueAddr := fun _ _ => 0 }

/-- The device status the driver may read: never 0 while a reset drains. -/
def readableStatus (vs : VirtioPciState n) : BitVec 8 :=
  if vs.resetting then vs.status ||| statusAcknowledge else vs.status

/-- Whether a kick may reach the backend. -/
def canNotify (vs : VirtioPciState n) (queue : Fin n) : Bool :=
  has vs.status statusDriverOk && (vs.queues queue).isConfigured

end VirtioPciState

namespace Transport

variable {n : Nat}

def note (t : Transport n) (e : Event n) : Transport n :=
  { t with log := t.log ++ [e] }

def setQueue (t : Transport n) (idx : Fin n) (q : VirtQueue) : Transport n :=
  { t with
      vs := { t.vs with queues := Function.update t.vs.queues idx q } }

def setEnabled (t : Transport n) (idx : Fin n) (b : Bool) : Transport n :=
  { t with
    vs := { t.vs with queueEnabled := Function.update t.vs.queueEnabled idx b } }

/-- An access to the MSI-X table, if the device has one. -/
def mapMsix (t : Transport n) (f : MsixTable → MsixTable) : Transport n :=
  { t with msix := t.msix.map f }

/-- Set DEVICE_NEEDS_RESET and tell the driver, once. -/
def setNeedsReset (t : Transport n) : Transport n :=
  if has t.vs.status statusDeviceNeedsReset then t
  else
    { t with
      vs := { t.vs with status := t.vs.status ||| statusDeviceNeedsReset }
      log := t.log ++ [.configInterrupt] }

/-- Apply a non-zero DEVICE_STATUS write, on either face. -/
def setStatus (t : Transport n) (newStatus : BitVec 8) : Transport n :=
  if newStatus &&& t.vs.status ≠ t.vs.status then t.setNeedsReset
  else
    let gained := newStatus &&& ~~~t.vs.status
    let vs := { t.vs with status := newStatus }
    if has gained statusFeaturesOk then
      { t with
        vs := vs.applyFeatures
        log := t.log ++ [.setFeatures vs.guestFeatures] }
    else { t with vs := vs }

/-- The step of a reset that closes the latch. -/
def resetDevice (t : Transport n) : Transport n :=
  if t.vs.resetting then t
  else
    { t with
      vs :=
        { t.vs with
          resetting := true
          status := t.vs.status &&& ~~~statusDriverOk
          queueEnabled := fun _ => false } }

/-- Publish a reset the backend has finished. -/
def finishReset (t : Transport n) : Transport n :=
  { t with
    vs := { t.vs.reset with resetting := false }
    msixQueueVectors := fun _ => msiNoVector
    msixConfigVector := msiNoVector
    msix := t.msix.map .clearPending
    log := t.log ++ [.reset] }

/-- A DEVICE_STATUS write: 0 resets. -/
def writeStatus (t : Transport n) (newStatus : BitVec 8) : Transport n :=
  if newStatus = 0 then t.resetDevice else t.setStatus newStatus

/-- A kick, from either face: hand the queue to the backend, then report a
queue that refused its addresses on this first use. -/
def notify (t : Transport n) (queueIdx : BitVec 16)
    (drain : Fin n → VirtQueue.Drain) : Transport n :=
  if h : queueIdx.toNat < n then
    let idx : Fin n := ⟨queueIdx.toNat, h⟩
    if !t.vs.canNotify idx then t
    else
      let t' : Transport n :=
        { t with
          vs := { t.vs with
            queues := fun i => (t.vs.queues i).drained t.mem (drain i) }
          log := t.log ++ [.notifyQueue idx] }
      if (t'.vs.queues idx).needsReset then t'.setNeedsReset else t'
  else t

/-- Keep the vector of the selected queue, and its copy. -/
def setQueueVector (t : Transport n) (v : BitVec 16) : Transport n :=
  match t.vs.selected with
  | none => t
  | some idx =>
    { t with
      vs := { t.vs with
        queueMsixVectors := Function.update t.vs.queueMsixVectors idx v }
      msixQueueVectors := Function.update t.msixQueueVectors idx v }

def setConfigVector (t : Transport n) (v : BitVec 16) : Transport n :=
  { t with
    vs := { t.vs with configMsixVector := v }
    msixConfigVector := v }

end Transport

-- ==== the legacy face

/-- The registers of BAR0. -/
inductive LegacyReg where
  | deviceFeatures
  | guestFeatures
  | queuePfn
  | queueSize
  | queueSelect
  | queueNotify
  | deviceStatus
  | isrStatus
  | msixConfigVector
  | msixQueueVector
  | deviceConfig (offset : BitVec 16)
  | unused
  deriving DecidableEq, Repr

/-- `device_config_offset`: two vector registers come first once the driver
has turned MSI-X on. -/
def deviceConfigOffset (msixEnabled : Bool) : BitVec 16 :=
  if msixEnabled then 0x18 else 0x14

def LegacyReg.decode (msixEnabled : Bool) (offset : BitVec 16) : LegacyReg :=
  if deviceConfigOffset msixEnabled ≤ offset then
    .deviceConfig (offset - deviceConfigOffset msixEnabled)
  else match offset.toNat with
    | 0x00 => .deviceFeatures
    | 0x04 => .guestFeatures
    | 0x08 => .queuePfn
    | 0x0C => .queueSize
    | 0x0E => .queueSelect
    | 0x10 => .queueNotify
    | 0x12 => .deviceStatus
    | 0x13 => .isrStatus
    | 0x14 => if msixEnabled then .msixConfigVector else .unused
    | 0x16 => if msixEnabled then .msixQueueVector else .unused
    | _ => .unused

/-- What the legacy face offers: 32 bits, without the ring features. -/
def legacyFeatures (deviceFeatures : BitVec 64) : BitVec 32 :=
  deviceFeatures.setWidth 32 &&& ~~~(fRingEventIdx.setWidth 32)
    &&& ~~~(fRingIndirectDesc.setWidth 32)

namespace Transport

variable {n : Nat}

def msixEnabled (t : Transport n) : Bool := t.msix.any (·.enabled)

/-- A GUEST_FEATURES write: legacy negotiation ends at DRIVER_OK. -/
def writeGuestFeatures (t : Transport n) (deviceFeatures : BitVec 64)
    (val : BitVec 32) : Transport n :=
  if has t.vs.status statusDriverOk then t
  else
    let accepted := (val &&& legacyFeatures deviceFeatures).setWidth 64
    { t with
      vs := { t.vs with guestFeatures := accepted }.applyFeatures
      log := t.log ++ [.setFeatures accepted] }

/-- A QUEUE_PFN write: program the selected queue, or take its ring away. -/
def writeQueuePfn (t : Transport n) (val : BitVec 32) : Transport n :=
  match t.vs.selected with
  | none => t
  | some idx =>
    let q := (t.vs.queues idx).setAddrLegacy val
    if val = 0 then
      ((t.setQueue idx q).setEnabled idx false).note (.queueAddrSet idx q)
    else
      let t := t.note (.programmed ⟨idx, q, t.mem⟩)
      match q.validateAddrs t.mem with
      | .error _ =>
        ((t.setQueue idx q.reset).setEnabled idx false).setNeedsReset
      | .ok () =>
        ((t.setQueue idx q).setEnabled idx true).note (.queueAddrSet idx q)

/-- What a write to one BAR0 register does. -/
def legacyWrite (t : Transport n) (deviceFeatures : BitVec 64)
    (reg : LegacyReg) (val : BitVec 32) (drain : Fin n → VirtQueue.Drain) :
    Transport n :=
  match reg with
  | .deviceFeatures | .queueSize | .isrStatus | .unused => t
  | .guestFeatures => t.writeGuestFeatures deviceFeatures val
  | .queuePfn => t.writeQueuePfn val
  | .queueSelect =>
    { t with
          vs := { t.vs with queueSelect := val.setWidth 16 } }
  | .queueNotify => t.notify (val.setWidth 16) drain
  | .deviceStatus => t.writeStatus (val.setWidth 8)
  | .msixConfigVector => t.setConfigVector (val.setWidth 16)
  | .msixQueueVector => t.setQueueVector (val.setWidth 16)
  | .deviceConfig offset => t.note (.cfgWrite offset val)

/-- `bar_write`: dropped while a reset drains. -/
def barWrite (t : Transport n) (deviceFeatures : BitVec 64) (offset : BitVec 16) (val : BitVec 32)
    (drain : Fin n → VirtQueue.Drain) : Transport n :=
  if t.vs.resetting then t
  else t.legacyWrite deviceFeatures (.decode t.msixEnabled offset) val drain

/-- `bar_read`, the registers of this model. The ISR byte and the device's
own configuration are read elsewhere. -/
def legacyRead (t : Transport n) (deviceFeatures : BitVec 64) : LegacyReg → BitVec 32
  | .deviceFeatures => legacyFeatures deviceFeatures
  | .guestFeatures => t.vs.guestFeatures.setWidth 32
  | .queuePfn => (t.vs.selected.map fun i => (t.vs.queues i).pfn).getD 0
  | .queueSize =>
    (t.vs.selected.map fun i => (t.vs.queues i).size.setWidth 32).getD 0
  | .queueSelect => t.vs.queueSelect.setWidth 32
  | .deviceStatus => t.vs.readableStatus.setWidth 32
  | .msixConfigVector => t.vs.configMsixVector.setWidth 32
  | .msixQueueVector =>
    ((t.vs.selected.map t.vs.queueMsixVectors).getD msiNoVector).setWidth 32
  | .queueNotify | .isrStatus | .deviceConfig _ | .unused => 0

end Transport

-- ==== the modern face

/-- The half of a 64-bit register. -/
inductive Half where
  | lo
  | hi
  deriving DecidableEq, Repr

/-- The registers of the common configuration structure. -/
inductive CommonReg where
  | deviceFeatureSelect
  | deviceFeature
  | driverFeatureSelect
  | driverFeature
  | msixConfig
  | numQueues
  | deviceStatus
  | configGeneration
  | queueSelect
  | queueSize
  | queueMsixVector
  | queueEnable
  | queueNotifyOff
  | queueAddr (ring : Ring) (half : Half)
  | unused
  deriving DecidableEq, Repr

def CommonReg.decode (offset : BitVec 16) : CommonReg :=
  match offset.toNat with
  | 0x00 => .deviceFeatureSelect
  | 0x04 => .deviceFeature
  | 0x08 => .driverFeatureSelect
  | 0x0C => .driverFeature
  | 0x10 => .msixConfig
  | 0x12 => .numQueues
  | 0x14 => .deviceStatus
  | 0x15 => .configGeneration
  | 0x16 => .queueSelect
  | 0x18 => .queueSize
  | 0x1A => .queueMsixVector
  | 0x1C => .queueEnable
  | 0x1E => .queueNotifyOff
  | 0x20 => .queueAddr .desc .lo
  | 0x24 => .queueAddr .desc .hi
  | 0x28 => .queueAddr .avail .lo
  | 0x2C => .queueAddr .avail .hi
  | 0x30 => .queueAddr .used .lo
  | 0x34 => .queueAddr .used .hi
  | _ => .unused

/-- The pages of BAR2. -/
inductive ModernReg where
  | common (reg : CommonReg)
  | deviceConfig (offset : BitVec 16)
  | notify
  | isr
  | unused
  deriving DecidableEq, Repr

def ModernReg.decode (offset : BitVec 16) : ModernReg :=
  let reg := offset &&& 0x0FFF
  match (offset &&& 0xF000).toNat with
  | 0x0000 => .common (.decode reg)
  | 0x1000 => .deviceConfig reg
  | 0x2000 => .notify
  | 0x3000 => .isr
  | _ => .unused

/-- Replace one half of a 64-bit word. -/
def Half.write : Half → BitVec 64 → BitVec 32 → BitVec 64
  | lo, a, val => (a &&& 0xFFFFFFFF00000000) ||| val.setWidth 64
  | hi, a, val => (a &&& 0x00000000FFFFFFFF) ||| (val.setWidth 64 <<< 32)

/-- One half of a 64-bit word. -/
def Half.read : Half → BitVec 64 → BitVec 32
  | lo, a => a.setWidth 32
  | hi, a => (a >>> 32).setWidth 32

/-- Which half a feature selector names. -/
def Half.ofSelect (sel : BitVec 32) : Option Half :=
  if sel = 0 then some lo else if sel = 1 then some hi else none

def modernFeatures (deviceFeatures : BitVec 64) : BitVec 64 :=
  deviceFeatures ||| fVersion1

namespace Transport

variable {n : Nat}

/-- A DRIVER_FEATURE write: modern negotiation ends at FEATURES_OK. -/
def writeDriverFeature (t : Transport n) (deviceFeatures : BitVec 64)
    (val : BitVec 32) : Transport n :=
  if has t.vs.status statusFeaturesOk then t
  else match Half.ofSelect t.vs.driverFeatureSelect with
    | none => t
    | some half =>
      let accepted := val &&& half.read (modernFeatures deviceFeatures)
      { t with
      vs := { t.vs with
          guestFeatures := half.write t.vs.guestFeatures accepted } }

/-- A QUEUE_SIZE write. -/
def writeQueueSize (t : Transport n) (val : BitVec 16) : Transport n :=
  match t.vs.selected with
  | none => t
  | some idx =>
    match (t.vs.queues idx).setSize val with
    | .error _ => t.setNeedsReset
    | .ok q => t.setQueue idx q

/-- The selected queue with the addresses the driver wrote. -/
def addressed (t : Transport n) (idx : Fin n) : VirtQueue :=
  (t.vs.queues idx).setAddrModern (t.vs.queueAddr .desc idx)
    (t.vs.queueAddr .avail idx) (t.vs.queueAddr .used idx)

/-- A QUEUE_ENABLE write. A refusal takes the ring away and leaves the
enable flag as it was. -/
def writeQueueEnable (t : Transport n) (val : BitVec 32) : Transport n :=
  match t.vs.selected with
  | none => t
  | some idx =>
    if val ≠ 1 then t
    else
      let q := t.addressed idx
      let t := t.note (.programmed ⟨idx, q, t.mem⟩)
      match q.validateAddrs t.mem with
      | .error _ => (t.setQueue idx q.reset).setNeedsReset
      | .ok () =>
        ((t.setQueue idx q).setEnabled idx true).note (.queueAddrSet idx q)

/-- A write to one half of a ring address register. -/
def writeQueueAddr (t : Transport n) (ring : Ring) (half : Half) (val : BitVec 32) : Transport n :=
  match t.vs.selected with
  | none => t
  | some idx =>
    { t with vs := { t.vs with
        queueAddr := Function.update t.vs.queueAddr ring (Function.update (t.vs.queueAddr ring) idx
            (half.write (t.vs.queueAddr ring idx) val)) } }

/-- `modern_common_write`, past the latch. -/
def commonWrite (t : Transport n) (deviceFeatures : BitVec 64)
    (reg : CommonReg) (val : BitVec 32) : Transport n :=
  match reg with
  | .deviceFeatureSelect =>
    { t with vs := { t.vs with deviceFeatureSelect := val } }
  | .driverFeatureSelect =>
    { t with vs := { t.vs with driverFeatureSelect := val } }
  | .driverFeature => t.writeDriverFeature deviceFeatures val
  | .msixConfig => t.setConfigVector (val.setWidth 16)
  | .deviceStatus => t.writeStatus (val.setWidth 8)
  | .queueSelect =>
    { t with vs := { t.vs with queueSelect := val.setWidth 16 } }
  | .queueSize => t.writeQueueSize (val.setWidth 16)
  | .queueMsixVector => t.setQueueVector (val.setWidth 16)
  | .queueEnable => t.writeQueueEnable val
  | .queueAddr ring half => t.writeQueueAddr ring half val
  | .deviceFeature | .numQueues | .configGeneration | .queueNotifyOff
  | .unused => t

/-- `modern_bar_write`: dropped while a reset drains. -/
def modernBarWrite (t : Transport n) (deviceFeatures : BitVec 64)
    (offset : BitVec 16) (val : BitVec 32)
    (drain : Fin n → VirtQueue.Drain) : Transport n :=
  if t.vs.resetting then t
  else match ModernReg.decode offset with
    | .common reg => t.commonWrite deviceFeatures reg val
    | .deviceConfig offset => t.note (.cfgWrite offset val)
    | .notify => t.notify (val.setWidth 16) drain
    | .isr | .unused => t

/-- `modern_common_read`. -/
def commonRead (t : Transport n) (deviceFeatures : BitVec 64) : CommonReg → BitVec 32
  | .deviceFeatureSelect => t.vs.deviceFeatureSelect
  | .deviceFeature =>
    ((Half.ofSelect t.vs.deviceFeatureSelect).map (·.read (modernFeatures deviceFeatures))).getD 0
  | .driverFeatureSelect => t.vs.driverFeatureSelect
  | .driverFeature =>
    ((Half.ofSelect t.vs.driverFeatureSelect).map (·.read t.vs.guestFeatures)).getD 0
  | .msixConfig => t.vs.configMsixVector.setWidth 32
  | .numQueues => BitVec.ofNat 32 n
  | .deviceStatus => t.vs.readableStatus.setWidth 32
  | .configGeneration => t.vs.configGeneration.setWidth 32
  | .queueSelect => t.vs.queueSelect.setWidth 32
  | .queueSize =>
    (t.vs.selected.map fun i => (t.vs.queues i).size.setWidth 32).getD 0
  | .queueMsixVector =>
    ((t.vs.selected.map t.vs.queueMsixVectors).getD msiNoVector).setWidth 32
  | .queueEnable =>
    if (t.vs.selected.map t.vs.queueEnabled).getD false then 1 else 0
  | .queueNotifyOff => t.vs.queueSelect.setWidth 32
  | .queueAddr ring half =>
    half.read ((t.vs.selected.map (t.vs.queueAddr ring)).getD 0)
  | .unused => 0

end Transport

-- ==== runs

/-- What can happen to a device: the accesses of the guest's vCPUs to the
three BARs and the capability, the end of a reset, an interrupt that marks
or sends a vector, a backend that asks for a reset, and a change of the
guest memory map. -/
inductive Input (n : Nat) where
  | legacy (offset : BitVec 16) (val : BitVec 32) (drain : Fin n → VirtQueue.Drain)
  | modern (offset : BitVec 16) (val : BitVec 32) (drain : Fin n → VirtQueue.Drain)
  | msixTable (offset : Nat) (val : BitVec 32)
  | msixCap (msgCtrl : BitVec 16)
  | fire (vector : Nat)
  | finishReset
  | signalNeedsReset
  | memory (mem : AddressSpace)

namespace Transport

variable {n : Nat}

def step (deviceFeatures : BitVec 64) (t : Transport n) : Input n → Option (Transport n)
  | .legacy offset val drain => some (t.barWrite deviceFeatures offset val drain)
  | .modern offset val drain =>
    some (t.modernBarWrite deviceFeatures offset val drain)
  | .msixTable offset val =>
    some (t.mapMsix fun m => (m.tableWrite offset val).2)
  | .msixCap w => some (t.mapMsix fun m => (m.capWrite w).2)
  | .fire v => some (t.mapMsix fun m => (m.fire v).2)
  | .finishReset => if t.vs.resetting then some t.finishReset else none
  | .signalNeedsReset =>
    some (if t.vs.resetting then t else t.setNeedsReset)
  | .memory mem => some { t with mem := mem }

/-- The device's runs, restricted to the inputs that pass `ok`. -/
def runs (deviceFeatures : BitVec 64) (ok : Transport n → Input n → Bool)
    (t : Transport n) (inputs : List (Input n)) : Option (Transport n) :=
  Conc.run (Conc.guarded ok (step deviceFeatures)) t inputs

end Transport

end Rshyve.Virtio.Pci
