/-
# The source's host during an attempt

What one attempt to migrate does to the VM it runs beside: the guest's
memory, its Hyper-V enlightenment, its devices and its vCPUs. The program is
`runSource`; this module gives its calls a second meaning, next to the one
of `Migrate.Session`. The peer, the connection and the kernel answer
anything at all (`Choice`), so an attempt can fail at every call.

- `prePause` is `pause_devices_for_migration`: every device is paused, then
  the kernel rings of each, and it can give up on the way.
- `hypervExport` is `export_hyperv`.
- `resumeDevices` is `resume_devices_after_migration`. It resumes every
  device it finds paused and restarts its rings. A device that refuses the
  latter is only logged.

# The twin

`twin` is the same guest without the attempt: guest memory and enlightenment
as the guest's own steps alone leave them. `stayed` are the devices whose
rings the rollback could not restart. No call reads them.
-/
import Rshyve.Hyperv.Enlightenment
import Rshyve.Migrate.Session

namespace Rshyve.Migrate.Rollback

open Conc
open Mem (GuestMem RegionKind poke)
open Hyperv (Inner Features)
open Session (Op Ans)

-- ==== devices

inductive IndicatedState where
  | init
  | run
  | pause
  | halt
deriving DecidableEq, Repr

namespace IndicatedState

def validTransition : IndicatedState → IndicatedState → Bool
  | .init, .run | .init, .pause | .run, .pause | .pause, .run
  | .pause, .halt => true
  | _, _ => false

/-- A request the machine does not allow leaves the state alone. -/
def request (s want : IndicatedState) : IndicatedState :=
  if validTransition s want then want else s

end IndicatedState

/-- A device: its indicator if it has one, whether its workers are parked,
and whether its kernel rings are stopped. -/
structure Device where
  indicator : Option IndicatedState
  parked : Bool
  ringsPaused : Bool
deriving DecidableEq, Repr

namespace Device

def pause (d : Device) : Device :=
  { d with indicator := d.indicator.map (·.request .pause), parked := true }

def resume (d : Device) : Device :=
  { d with indicator := d.indicator.map (·.request .run), parked := false }

def pauseRings (d : Device) : Device := { d with ringsPaused := true }

def resumeRings (d : Device) : Device := { d with ringsPaused := false }

/-- A device at work: neither it nor its rings have been stopped. -/
def running (d : Device) : Bool :=
  (d.indicator == none || d.indicator == some .run) && !d.parked && !d.ringsPaused

/-- The first loop of `pause_devices_for_migration`: a device an operator
paused is left alone. -/
def pauseOnce (d : Device) : Device :=
  if d.indicator = some .pause then d else d.pause

/-- `resume_device_set` on one device. -/
def resumeIfPaused (d : Device) : Device :=
  if d.indicator = none ∨ d.indicator = some .pause then d.resume else d

end Device

-- ==== the host

structure Guest where
  mem : GuestMem
  hyperv : Option Inner

structure Host where
  guest : Guest
  devices : List Device
  phase : MigrationPhase
  vcpusPaused : Bool
  twin : Guest
  stayed : List Nat

/-- How a pause of the devices ends: all stopped, some never quiet, or the
rings of the first so many stopped and then a refusal. -/
inductive Stop where
  | all
  | stuck (error : String)
  | refused (count : Nat) (error : String)

/-- Every answer a call can come back with. `refused` are the devices whose
rings do not restart. -/
structure Choice where
  done : Except String Unit
  frame : Except MigrateError (List UInt8)
  regions : List (Nat × Nat × RegionKind)
  bytes : Except String (List UInt8)
  call : Except MigrateError Unit
  time : Except MigrateError TimeData
  kernel : Except MigrateError (List UInt8)
  devices : Except String (List DeviceStatePayload)
  hyperv : List UInt8
  stop : Stop
  refused : List Nat

namespace Host

def pauseDevices (h : Host) : Stop → Except String Unit × Host
  | .stuck e =>
    (.error e, { h with devices := h.devices.map Device.pauseOnce })
  | .refused n e =>
    let ds := h.devices.map Device.pauseOnce
    (.error e,
      { h with devices := (ds.take n).map Device.pauseRings ++ ds.drop n })
  | .all =>
    (.ok (),
      { h with
        devices := h.devices.map fun d => d.pauseOnce.pauseRings })

def resumeDevices (h : Host) (refused : List Nat) : Host :=
  { h with
    stayed := refused
    devices := h.devices.mapIdx fun i d =>
      if i ∈ refused then d.resumeIfPaused else d.resumeIfPaused.resumeRings }

def exportHyperv (h : Host) (payload : List UInt8) : Option (List UInt8) × Host :=
  match h.guest.hyperv with
  | none => (none, h)
  | some i =>
    let (i, m) := i.pauseOverlays h.guest.mem
    (some payload, { h with guest := ⟨m, some i⟩ })

/-- One call of the source. -/
def exec (c : Choice) : (o : Op) → Host → Option (Ans o × Host)
  | .setPhase p, h => some ((), { h with phase := p })
  | .getPhase, h => some (h.phase, h)
  | .send _, h => some (c.done, h)
  | .recv, h => some (c.frame, h)
  | .regions, h => some (c.regions, h)
  | .memRead _, h => some (c.bytes, h)
  | .trackChunk _, h => some (c.bytes, h)
  | .pause, h =>
    match c.done with
    | .ok () => some (.ok (), { h with vcpusPaused := true })
    | .error e => some (.error e, h)
  | .resume, h =>
    match c.done with
    | .ok () => some (.ok (), { h with vcpusPaused := false })
    | .error e => some (.error e, h)
  | .hook .prePause, h => some (h.pauseDevices c.stop)
  | .hook .setReadDeadline, h | .hook .flush, h => some (c.done, h)
  | .stateCall .zfsBarrier, h => some (c.call, h)
  | .exportTimeData, h => some (c.time, h)
  | .exportDeviceState, h => some (c.kernel, h)
  | .exportDevices, h => some (c.devices, h)
  | .hypervExport, h => some (h.exportHyperv c.hyperv)
  | .resumeDevices, h => some ((), h.resumeDevices c.refused)
  -- the destination's calls
  | .applyBatch .., _ | .hypervRestore _, _ | .hook (.restoreDevice ..), _
  | .stateCall _, _ => none

end Host

-- ==== the guest

/-- What the guest and its devices do while the vCPUs run. -/
inductive Move where
  | write (gpa : Nat) (data : List UInt8)
  | wrmsr (msr : Nat) (value : BitVec 64)

def Guest.move (f : Features) (g : Guest) : Move → Guest
  | .write gpa data =>
    { g with mem := { g.mem with bytes := poke g.mem.bytes gpa data } }
  | .wrmsr msr value =>
    match g.hyperv with
    | none => g
    | some i =>
      let (_, i, m) := i.wrmsr f g.mem msr value
      ⟨m, some i⟩

/-- A move of the guest, made by the guest and by its twin. -/
def Host.move (f : Features) (h : Host) (e : Move) : Option Host :=
  if h.vcpusPaused then none
  else some { h with guest := h.guest.move f e, twin := h.twin.move f e }

def system (f : Features) : System Op Ans Host Choice Move where
  exec _ c o h := Host.exec c o h
  env e s := (s.sh.move f e).map fun h => { s with sh := h }

/-- A source that is about to begin, on a VM in any state whose vCPUs run. -/
def start (out : Outside) (cfg : SourceConfig) (g : Guest)
    (devices : List Device) : Pool Op Ans Host where
  sh := ⟨g, devices, .sync, false, g, []⟩
  thr t :=
    if t = 0 then do
      let _ ← runSource out Session.sourceIo cfg
      pure ()
    else .ret ()

end Rshyve.Migrate.Rollback
